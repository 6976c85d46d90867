/-
# What fills the slots of a message

The slots of a template are filled one after the other, each in the whole of what the
earlier ones left. This is the template with each of its slots filled by its own
argument, as long as the earlier arguments bring in no slot that is still to come; one
that does is filled as well (`fillSlots_verbatim`, `fillSlots_mixed`).

The template is told in pieces, so that what it says itself is kept apart from what
fills it.

Key definitions: `TemplatePart`, `templateParts`, `substitute`, `Unmixed`.
Key theorems: `Text.replace_append_of_clear`, `replace_slot`, `fillSlotsFrom_parts`,
`fillSlots_verbatim`, `Failure.message_of_plain`.
-/
import Mathlib.Data.List.Infix
import QueryExpr.Failure

namespace QueryExpr

/-! ### Replacing one text in another -/

namespace Text

variable {needle a b cs rest : List Char} {c : Char}

theorem replaceFrom_drop : ∀ (n : Nat) (cs : List Char),
    replaceFrom needle a n cs = replace needle a (cs.drop n)
  | 0, _ => rfl
  | _ + 1, [] => rfl
  | n + 1, _ :: cs => replaceFrom_drop n cs

theorem replace_cons_of_not (h : ¬ needle <+: c :: cs) :
    replace needle a (c :: cs) = c :: replace needle a cs := by
  rw [← List.isPrefixOf_iff_prefix] at h
  rw [replace, replaceFrom, if_neg h, replace]

theorem replace_append_self (h : needle ≠ []) :
    replace needle a (needle ++ rest) = a ++ replace needle a rest := by
  obtain ⟨c, cs, rfl⟩ := List.exists_cons_of_ne_nil h
  have hfront : (c :: cs).isPrefixOf (c :: (cs ++ rest)) :=
    List.isPrefixOf_iff_prefix.mpr (List.prefix_append (c :: cs) rest)
  rw [List.cons_append, replace, replaceFrom, if_pos hfront, replaceFrom_drop, List.length_cons,
    Nat.add_sub_cancel, List.drop_left]

/-- A text stays if nothing to replace starts in it. -/
theorem replace_append_of_clear (h : ∀ u, u ≠ [] → u <:+ b → ¬ needle <+: u ++ rest) :
    replace needle a (b ++ rest) = b ++ replace needle a rest := by
  induction b with
  | nil => rfl
  | cons c cs ih =>
    have hfirst : ¬ needle <+: c :: (cs ++ rest) :=
      h (c :: cs) (List.cons_ne_nil _ _) List.suffix_rfl
    rw [List.cons_append, replace_cons_of_not hfirst, List.cons_append,
      ih fun u hu hsuffix => h u hu (hsuffix.trans (List.suffix_cons c cs))]

end Text

/-! ### Slots -/

theorem slot_ne_nil (i : Nat) : slot i ≠ [] := List.cons_ne_nil _ _

theorem isDigit_of_mem_toString {i : Nat} {c : Char} (h : c ∈ (toString i).toList) : c.isDigit := by
  rw [Nat.toString_eq_repr, Nat.repr, String.toList_ofList] at h
  exact Nat.isDigit_of_mem_toDigits (by decide) (by decide) h

/-- Behind its brace a slot has no other one that opens. -/
theorem ne_of_mem_slot_tail {i : Nat} {c : Char} (h : c ∈ (slot i).tail) : c ≠ '\x7b' := by
  rintro rfl
  obtain h | h := List.mem_append.mp (show '\x7b' ∈ (toString i).toList ++ ['\x7d'] from h)
  · exact absurd (isDigit_of_mem_toString h) (by decide)
  · exact absurd (List.mem_singleton.mp h) (by decide)

/-- A text starts with one slot at most. -/
theorem slot_unique {i j : Nat} {cs : List Char} (hi : slot i <+: cs) (hj : slot j <+: cs) :
    i = j := by
  have number {k : Nat} (hk : slot k <+: cs) :
      cs.tail.takeWhile (· != '\x7d') = (toString k).toList := by
    obtain ⟨rest, rfl⟩ := hk
    have hdigits : ∀ c ∈ (toString k).toList, (c != '\x7d') = true := by
      intro c hc
      have hdigit := isDigit_of_mem_toString hc
      refine bne_iff_ne.mpr ?_
      rintro rfl
      exact absurd hdigit (by decide)
    show ((toString k).toList ++ ['\x7d'] ++ rest).takeWhile _ = _
    rw [List.append_assoc, List.takeWhile_append_of_pos hdigits]
    simp
  have heq : (toString i).toList = (toString j).toList := (number hi).symm.trans (number hj)
  simp only [Nat.toString_eq_repr, Nat.repr, String.toList_ofList] at heq
  rw [← Nat.ofDigitChars_ten_toDigits (n := i), heq, Nat.ofDigitChars_ten_toDigits]

/-! ### A template in pieces -/

/-- A character of a template, or the slot of an argument. -/
inductive TemplatePart
  | char (c : Char)
  | slot (i : Nat)
  deriving DecidableEq, Repr

/-- The argument, of the given number of them, whose slot a text starts with. -/
def slotAt? (count : Nat) (cs : List Char) : Option Nat :=
  (List.range count).find? fun i => (slot i).isPrefixOf cs

/-- The pieces of a template for a number of arguments. The first `skip` characters belong
to a slot already read. -/
def partsFrom (count : Nat) : (skip : Nat) → List Char → List TemplatePart
  | _, [] => []
  | skip + 1, _ :: cs => partsFrom count skip cs
  | 0, c :: cs =>
    match slotAt? count (c :: cs) with
    | some i => .slot i :: partsFrom count ((slot i).length - 1) cs
    | none => .char c :: partsFrom count 0 cs

/-- The pieces of a template for a number of arguments. -/
def templateParts (count : Nat) (template : List Char) : List TemplatePart :=
  partsFrom count 0 template

/-- What stands in the place of a piece when the slots are filled all at once. -/
def TemplatePart.filled (args : List (List Char)) : TemplatePart → List Char
  | .char c => [c]
  | .slot i => args.getD i []

/-- The template with each slot filled by its own argument. -/
def substitute (template : String) (arguments : List String) : String :=
  String.ofList ((templateParts arguments.length template.toList).flatMap
    (TemplatePart.filled (arguments.map String.toList)))

/-- What stands in the place of a piece when the slots below `j` are filled. -/
def TemplatePart.upTo (args : List (List Char)) (j : Nat) : TemplatePart → List Char
  | .char c => [c]
  | .slot i => if i < j then args.getD i [] else QueryExpr.slot i

/-- When the slots below `j` are filled, the slot `j` starts nowhere but where the template
has it: neither in an argument nor at a character of the template. -/
def Unmixed (args : List (List Char)) (j : Nat) : List TemplatePart → Prop
  | [] => True
  | .char c :: ps => ¬ slot j <+: c :: ps.flatMap (TemplatePart.upTo args j) ∧ Unmixed args j ps
  | .slot i :: ps =>
    (i < j → ∀ u ∈ (args.getD i []).tails, u ≠ [] →
      ¬ slot j <+: u ++ ps.flatMap (TemplatePart.upTo args j)) ∧ Unmixed args j ps

instance decidableUnmixed (args : List (List Char)) (j : Nat) :
    ∀ ps : List TemplatePart, Decidable (Unmixed args j ps)
  | [] => .isTrue trivial
  | .char c :: ps =>
    have := decidableUnmixed args j ps
    inferInstanceAs (Decidable (¬ slot j <+: c :: ps.flatMap (TemplatePart.upTo args j) ∧ _))
  | .slot i :: ps =>
    have := decidableUnmixed args j ps
    inferInstanceAs (Decidable ((i < j → ∀ u ∈ (args.getD i []).tails, u ≠ [] →
      ¬ slot j <+: u ++ ps.flatMap (TemplatePart.upTo args j)) ∧ _))

variable {args : List (List Char)} {count i j : Nat} {cs : List Char} {ps : List TemplatePart}

theorem slotAt?_eq_some (h : slotAt? count cs = some i) : i < count ∧ slot i <+: cs := by
  have hmem := List.mem_of_find?_eq_some h
  have hfront := List.find?_some h
  exact ⟨List.mem_range.mp hmem, List.isPrefixOf_iff_prefix.mp hfront⟩

theorem partsFrom_drop : ∀ (n : Nat) (cs : List Char),
    partsFrom count n cs = templateParts count (cs.drop n)
  | 0, _ => rfl
  | _ + 1, [] => rfl
  | n + 1, _ :: cs => partsFrom_drop n cs

/-- A template is made of a slot and what is behind it, or of a character and what is
behind it. -/
theorem parts_cons (count : Nat) (c : Char) (cs : List Char) :
    (∃ i rest, i < count ∧ c :: cs = slot i ++ rest ∧
      templateParts count (c :: cs) = .slot i :: templateParts count rest) ∨
    slotAt? count (c :: cs) = none ∧
      templateParts count (c :: cs) = .char c :: templateParts count cs := by
  rcases hslot : slotAt? count (c :: cs) with _ | i
  · exact .inr ⟨rfl, by rw [templateParts, partsFrom, hslot, templateParts]⟩
  · obtain ⟨hi, rest, hrest⟩ := slotAt?_eq_some hslot
    refine .inl ⟨i, rest, hi, hrest.symm, ?_⟩
    have hcs : cs = (slot i).tail ++ rest := (List.cons.inj hrest).2.symm
    have hdrop : cs.drop ((slot i).length - 1) = rest := by
      rw [hcs, ← List.length_tail, List.drop_left]
    rw [templateParts, partsFrom, hslot]
    show TemplatePart.slot i :: partsFrom count _ cs = _
    rw [partsFrom_drop, hdrop]

/-- What a proof for the pieces of a template has to show. -/
theorem parts_induction {P : List Char → List TemplatePart → Prop} (count : Nat) (nil : P [] [])
    (slot : ∀ i rest, i < count → P rest (templateParts count rest) →
      P (QueryExpr.slot i ++ rest) (.slot i :: templateParts count rest))
    (char : ∀ c cs, slotAt? count (c :: cs) = none → P cs (templateParts count cs) →
      P (c :: cs) (.char c :: templateParts count cs))
    (cs : List Char) : P cs (templateParts count cs) := by
  induction hn : cs.length using Nat.strong_induction_on generalizing cs with
  | _ n ih =>
    cases cs with
    | nil => exact nil
    | cons c cs =>
      obtain ⟨i, rest, hi, heq, hparts⟩ | ⟨hnone, hparts⟩ := parts_cons count c cs
      · have hlength : rest.length < n := by
          have hlengths := congrArg List.length heq
          have hslot := List.length_pos_of_ne_nil (slot_ne_nil i)
          rw [List.length_append] at hlengths
          omega
        rw [hparts, heq]
        exact slot i rest hi (ih _ hlength rest rfl)
      · rw [hparts]
        exact char c cs hnone (ih _ (by rw [← hn]; exact Nat.lt_succ_self _) cs rfl)

theorem lt_of_mem_parts (h : TemplatePart.slot i ∈ templateParts count cs) : i < count := by
  revert h
  refine parts_induction (P := fun _ ps => .slot i ∈ ps → i < count) count ?_ ?_ ?_ cs
  · exact fun h => absurd h List.not_mem_nil
  · intro k rest hk ih h
    obtain heq | hmem := List.mem_cons.mp h
    · exact TemplatePart.slot.inj heq ▸ hk
    · exact ih hmem
  · intro c cs _ ih h
    exact ih ((List.mem_cons.mp h).resolve_left TemplatePart.noConfusion)

/-- Before a slot is filled, the pieces are the template. -/
theorem parts_upTo_zero : (templateParts count cs).flatMap (TemplatePart.upTo args 0) = cs := by
  refine parts_induction (P := fun cs ps => ps.flatMap (TemplatePart.upTo args 0) = cs) count
    rfl ?_ ?_ cs
  · intro i rest _ ih
    rw [List.flatMap_cons, ih, TemplatePart.upTo, if_neg (Nat.not_lt_zero i)]
  · intro c cs _ ih
    rw [List.flatMap_cons, ih]
    rfl

/-- When all slots are filled, the arguments stand in them. -/
theorem parts_upTo_count :
    (templateParts count cs).flatMap (TemplatePart.upTo args count) =
      (templateParts count cs).flatMap (TemplatePart.filled args) := by
  refine List.flatMap_congr fun p hp => ?_
  cases p with
  | char c => rfl
  | slot i => rw [TemplatePart.upTo, if_pos (lt_of_mem_parts hp), TemplatePart.filled]

/-! ### Filling one slot -/

/-- Another slot stays. -/
theorem not_slot_prefix_of_suffix (hne : i ≠ j) {u rest : List Char} (hu : u ≠ [])
    (hsuffix : u <:+ slot i) : ¬ slot j <+: u ++ rest := by
  intro hfront
  obtain rfl | hsuffix := List.suffix_cons_iff.mp hsuffix
  · exact hne (slot_unique (List.prefix_append _ _) hfront)
  · obtain ⟨c, cs, rfl⟩ := List.exists_cons_of_ne_nil hu
    have hc : c ∈ (slot i).tail := hsuffix.subset List.mem_cons_self
    exact ne_of_mem_slot_tail hc (List.cons_prefix_cons.mp hfront).1.symm

/-- Where it is not mixed up with what fills the earlier ones, a slot is filled by its own
argument and nothing else changes. -/
theorem replace_slot (h : Unmixed args j ps) :
    Text.replace (slot j) (args.getD j []) (ps.flatMap (TemplatePart.upTo args j)) =
      ps.flatMap (TemplatePart.upTo args (j + 1)) := by
  induction ps with
  | nil => rfl
  | cons p ps ih =>
    rw [List.flatMap_cons, List.flatMap_cons]
    cases p with
    | char c =>
      obtain ⟨hfirst, hrest⟩ := h
      rw [← ih hrest]
      exact Text.replace_cons_of_not hfirst
    | slot i =>
      obtain ⟨hargument, hrest⟩ := h
      rw [← ih hrest, TemplatePart.upTo, TemplatePart.upTo]
      obtain hlt | rfl | hgt := Nat.lt_trichotomy i j
      · rw [if_pos hlt, if_pos (Nat.lt_succ_of_lt hlt),
          Text.replace_append_of_clear fun u hu hsuffix =>
            hargument hlt u ((List.mem_tails _ _).mpr hsuffix) hu]
      · rw [if_neg (Nat.lt_irrefl i), if_pos (Nat.lt_succ_self i),
          Text.replace_append_self (slot_ne_nil i)]
      · rw [if_neg (by omega), if_neg (by omega),
          Text.replace_append_of_clear fun u hu hsuffix =>
            not_slot_prefix_of_suffix (Nat.ne_of_gt hgt) hu hsuffix]

/-- Filling the slots from number `j` on fills all of them. -/
theorem fillSlotsFrom_upTo (h : ∀ j < args.length, Unmixed args j ps) :
    ∀ (as : List (List Char)) (j : Nat), args.drop j = as →
      fillSlotsFrom j as (ps.flatMap (TemplatePart.upTo args j)) =
        ps.flatMap (TemplatePart.upTo args (j + as.length))
  | [], _, _ => rfl
  | a :: as, j, hdrop => by
    have hj : j < args.length := by
      by_contra hle
      rw [List.drop_eq_nil_of_le (Nat.le_of_not_lt hle)] at hdrop
      cases hdrop
    rw [List.drop_eq_getElem_cons hj] at hdrop
    obtain ⟨rfl, has⟩ := List.cons.inj hdrop
    have hgetD : args.getD j [] = args[j] := by
      rw [List.getD_eq_getElem?_getD, List.getElem?_eq_getElem hj, Option.getD_some]
    rw [fillSlotsFrom, ← hgetD, replace_slot (h j hj), fillSlotsFrom_upTo h as (j + 1) has,
      List.length_cons]
    congr 2
    omega

/-- Filling one slot after the other is filling each with its own argument. -/
theorem fillSlotsFrom_parts {template : List Char}
    (h : ∀ j < args.length, Unmixed args j (templateParts args.length template)) :
    fillSlotsFrom 0 args template =
      (templateParts args.length template).flatMap (TemplatePart.filled args) := by
  have hfill := fillSlotsFrom_upTo h args 0 rfl
  rw [parts_upTo_zero, Nat.zero_add, parts_upTo_count] at hfill
  exact hfill

/-! ### Messages -/

/-- The slot that is filled first stands where the template has it. -/
theorem unmixed_zero (hcount : 0 < count) : Unmixed args 0 (templateParts count cs) := by
  have htext (cs : List Char) :
      (templateParts count cs).flatMap (TemplatePart.upTo args 0) = cs := parts_upTo_zero
  refine parts_induction (P := fun _ ps => Unmixed args 0 ps) count trivial ?_ ?_ cs
  · exact fun i rest _ ih => ⟨fun h => absurd h (Nat.not_lt_zero i), ih⟩
  · intro c cs hnone ih
    refine ⟨fun hfront => ?_, ih⟩
    rw [htext] at hfront
    have hfound := List.find?_eq_none.mp hnone 0 (List.mem_range.mpr hcount)
    exact hfound (List.isPrefixOf_iff_prefix.mpr hfront)

/-- What brings in no brace is not mixed up with a slot. -/
theorem unmixed_of_plain (hargs : ∀ i < j, '\x7b' ∉ args.getD i [])
    (hps : TemplatePart.char '\x7b' ∉ ps) : Unmixed args j ps := by
  induction ps with
  | nil => exact trivial
  | cons p ps ih =>
    have hrest := ih fun h => hps (List.mem_cons_of_mem p h)
    cases p with
    | char c =>
      refine ⟨fun hfront => hps ?_, hrest⟩
      rw [(List.cons_prefix_cons.mp hfront).1]
      exact List.mem_cons_self
    | slot i =>
      refine ⟨fun hlt u hu hne hfront => hargs i hlt ?_, hrest⟩
      obtain ⟨c, cs, rfl⟩ := List.exists_cons_of_ne_nil hne
      rw [(List.cons_prefix_cons.mp hfront).1]
      exact ((List.mem_tails _ _).mp hu).subset List.mem_cons_self

/-- Every brace of a template opens a slot. -/
def opensSlots (count : Nat) : List Char → Bool
  | [] => true
  | c :: cs => (c != '\x7b' || (slotAt? count (c :: cs)).isSome) && opensSlots count cs

theorem opensSlots_of_append {front : List Char} (h : opensSlots count (front ++ cs)) :
    opensSlots count cs := by
  induction front with
  | nil => exact h
  | cons c front ih => exact ih (Bool.and_eq_true_iff.mp h).2

theorem brace_not_mem_parts (h : opensSlots count cs) :
    TemplatePart.char '\x7b' ∉ templateParts count cs := by
  revert h
  refine parts_induction
    (P := fun cs ps => opensSlots count cs → TemplatePart.char '\x7b' ∉ ps) count
    (fun _ => List.not_mem_nil) ?_ ?_ cs
  · intro i rest _ ih h hmem
    have hother := (List.mem_cons.mp hmem).resolve_left TemplatePart.noConfusion
    exact ih (opensSlots_of_append h) hother
  · intro c cs hnone ih h hmem
    obtain ⟨hfirst, hrest⟩ := Bool.and_eq_true_iff.mp h
    obtain heq | hmem := List.mem_cons.mp hmem
    · cases heq
      rw [hnone] at hfirst
      exact absurd hfirst (by decide)
    · exact ih hrest hmem

/-- In the templates of the messages every brace opens a slot. -/
theorem Cause.opensSlots_template (c : Cause) (h : 2 ≤ c.arguments.length) :
    opensSlots c.arguments.length c.template.toList := by
  cases c <;> simp only [arguments, List.length_cons, List.length_nil] at h ⊢ <;>
    first
    | exact absurd h (by decide)
    | conv => lhs; arg 2; arg 1; whnf
      decide +kernel

/-- A message says of its arguments what they are, if none before the last has a brace; so
does every message with a single argument. -/
theorem Failure.message_of_plain (f : Failure)
    (h : ∀ a ∈ f.cause.arguments.dropLast, '\x7b' ∉ a.toList) :
    f.message = substitute f.cause.template f.cause.arguments := by
  set as := f.cause.arguments with has
  have hlength : (as.map String.toList).length = as.length := List.length_map _
  have hunmixed (j : Nat) (hj : j < (as.map String.toList).length) :
      Unmixed (as.map String.toList) j
        (templateParts (as.map String.toList).length f.cause.template.toList) := by
    rw [hlength] at hj ⊢
    obtain rfl | hpos := Nat.eq_zero_or_pos j
    · exact unmixed_zero hj
    · refine unmixed_of_plain (fun i hi => ?_)
        (brace_not_mem_parts (f.cause.opensSlots_template (Nat.lt_of_le_of_lt hpos hj)))
      have hlast : i < as.dropLast.length := by rw [List.length_dropLast]; omega
      have hmem : as[i] ∈ as.dropLast := by
        rw [← List.getElem_dropLast hlast]
        exact List.getElem_mem hlast
      rw [List.getD_eq_getElem?_getD, List.getElem?_map, List.getElem?_eq_getElem (by omega)]
      exact h _ hmem
  rw [message, fillSlots, substitute, fillSlotsFrom_parts hunmixed, hlength]

/-- **The arguments of a message stand in its slots as they are.** If no argument brings in
a slot that is still to be filled, alone or with what stands around it, the template is
filled as if all its slots were filled at once. -/
theorem fillSlots_verbatim (template : String) (arguments : List String)
    (h : ∀ j < arguments.length, Unmixed (arguments.map String.toList) j
      (templateParts arguments.length template.toList)) :
    fillSlots template arguments = substitute template arguments := by
  have hlength : (arguments.map String.toList).length = arguments.length := List.length_map _
  rw [← hlength] at h
  rw [fillSlots, substitute, fillSlotsFrom_parts h, hlength]

/-- A brace, a slot that is filled already and one that is never filled stay. -/
theorem fillSlots_verbatim_braces :
    let template := "No \x7b0\x7d in \x7b1\x7d, \x7b2\x7d"
    let arguments := ["\x7b2\x7d\x7b", "\x7b0\x7d"]
    (∀ j < arguments.length, Unmixed (arguments.map String.toList) j
      (templateParts arguments.length template.toList)) ∧
    fillSlots template arguments = "No \x7b2\x7d\x7b in \x7b0\x7d, \x7b2\x7d" := by
  intro template arguments
  have h : ∀ j < arguments.length, Unmixed (arguments.map String.toList) j
      (templateParts arguments.length template.toList) := by decide +kernel
  exact ⟨h, (fillSlots_verbatim template arguments h).trans (by decide +kernel)⟩

/-- A slot that an earlier argument brings in is filled: a type of the host may have the
name of one, and the message then tells of another type. -/
theorem fillSlots_mixed :
    fillSlots "\x7b0\x7d\x7b1\x7d" ["\x7b1\x7d", "x"] = "xx" ∧
    substitute "\x7b0\x7d\x7b1\x7d" ["\x7b1\x7d", "x"] = "\x7b1\x7dx" ∧
    (Failure.mk (.operandTypes "*" "\x7b2\x7d" "Int32") ⟨0, 5⟩).message =
      "Operator '*' incompatible with operand types 'Int32' and 'Int32'." := by
  decide +kernel

end QueryExpr
