/-
# What tokens are for clauses

The clauses of an ordering are found character by character: quotes are opened
and closed, brackets counted, commas cut. Which of these characters a token has in
it is told by its kind: a bracket or a comma is a token of its own, a quoted
literal may have any of them in it, and all other tokens have none. They have no
blank in them either.

Key definitions: `TokenKind.deepen`, `Text.blanks`, `Ordering.marks`,
`Ordering.Solid`, `Ordering.Scanned`.
Key theorems: `Text.mem_blanks`, `Lexeme.number_solid`, `Ordering.Scanned.of_lexeme`.
-/
import Mathlib.Data.List.TakeWhile
import QueryExpr.Proofs.WholeLexeme

namespace QueryExpr

open Lexeme

/-- How deep the brackets are behind a token of the kind. -/
def TokenKind.deepen (depth : Nat) : TokenKind → Nat
  | .openParen | .openBracket | .openBrace => depth + 1
  | .closeParen | .closeBracket | .closeBrace => depth - 1
  | _ => depth

namespace Text

/-- The members of the set whose members start and stop, in turn, at the
ascending bounds. -/
def points : List Nat → List Nat
  | lo :: hi :: bounds => List.range' lo (hi - lo) ++ points bounds
  | _ => []

theorem mem_points {n : Nat} : ∀ {bounds : List Nat}, bounds.length % 2 = 0 →
    inBounds bounds n = true → n ∈ points bounds
  | [], _, h => by cases h
  | [_], heven, _ => by cases heven
  | lo :: hi :: bounds, heven, h => by
    rw [List.length_cons, List.length_cons] at heven
    rw [points, List.mem_append]
    simp only [inBounds] at h
    split at h
    · cases h
    · split at h
      · exact .inl (List.mem_range'_1.mpr (by omega))
      · rw [Bool.not_not] at h
        exact .inr (mem_points (by omega) h)

/-- The characters that may stand between two tokens. -/
def blanks : List Char := '\ufeff' :: (points whiteSpaceBounds).map Char.ofNat

theorem mem_blanks {c : Char} (h : isBlank c = true) : c ∈ blanks := by
  rcases Bool.or_eq_true_iff.mp h with h | h
  · refine List.mem_cons_of_mem _ (List.mem_map.mpr ⟨c.toNat, mem_points rfl h, ?_⟩)
    exact Char.ofNat_toNat c
  · exact List.mem_cons.mpr (.inl (beq_iff_eq.mp h))

end Text

namespace Ordering

/-- The characters that count for the clauses of a text. -/
def marks : List Char := ['"', '\'', '(', '[', '\x7b', ')', ']', '\x7d', ',']

/-- None of the characters counts. -/
def Plain (cs : List Char) : Prop := ∀ c ∈ cs, c ∉ marks

theorem not_mark_blank {c : Char} (h : Text.isBlank c = true) : c ∉ marks := by
  intro hc
  have hmarks : marks.any Text.isBlank = false := rfl
  exact List.any_eq_false.mp hmarks c hc h

/-- The characters that no number, no word and no symbol of several characters
has in it. -/
def breaks : List Char := marks ++ Text.blanks

/-- None of the characters is one of those. -/
def Solid (cs : List Char) : Prop := ∀ c ∈ cs, c ∉ breaks

theorem Solid.append {as bs : List Char} (ha : Solid as) (hb : Solid bs) : Solid (as ++ bs) :=
  fun c hc => (List.mem_append.mp hc).elim (ha c) (hb c)

theorem Solid.plain {cs : List Char} (h : Solid cs) : Plain cs :=
  fun c hc hmark => h c hc (List.mem_append_left _ hmark)

/-- No character of a class is one of those if none of those is in the class. -/
theorem not_break {p : Char → Bool} {c : Char} (hp : breaks.any p = false) (h : p c = true) :
    c ∉ breaks := fun hc => List.any_eq_false.mp hp c hc h

theorem not_break_char {c : Char} (h : breaks.any (· == c) = false) : c ∉ breaks :=
  not_break h (beq_self_eq_true c)

theorem not_break_nameStart {c : Char} (h : Text.isNameStart c = true) : c ∉ breaks :=
  not_break (by decide +kernel) h

end Ordering

/-! ### Numbers and words -/

namespace Lexeme

open QueryExpr.Ordering (Solid breaks not_break not_break_char)

variable {cs : List Char} {l : Lexeme} {n : Nat}

theorem solid_count {p : Char → Bool} (hp : breaks.any p = false) (cs : List Char) :
    Solid (cs.take (count p cs)) := by
  have htake : cs.take (count p cs) = cs.takeWhile p :=
    (List.prefix_iff_eq_take.mp (List.takeWhile_prefix p)).symm
  rw [htake]
  exact fun c hc => not_break hp (List.mem_takeWhile_imp hc)

/-- One part of a number behind another one. -/
theorem solid_add {m : Nat} (h : Solid (cs.take m)) (h' : Solid ((cs.drop m).take n)) :
    Solid (cs.take (m + n)) := by
  rw [List.take_add]
  exact h.append h'

theorem solid_fraction (cs : List Char) : Solid (cs.take (fractionLength cs)) := by
  unfold fractionLength
  split
  · rename_i cs
    dsimp only
    split
    · exact fun c hc => by cases hc
    · rw [List.take_succ_cons]
      exact List.forall_mem_cons.mpr ⟨not_break_char rfl, solid_count rfl cs⟩
  · exact fun c hc => by cases hc

/-- What is read off the first character alone. -/
theorem solid_first {p : Char → Bool} (hp : breaks.any p = false)
    (h : n = if cs.head?.any p then 1 else 0) : Solid (cs.take n) := by
  subst h
  split
  · rename_i hfirst
    cases cs with
    | nil => cases hfirst
    | cons c cs => exact List.forall_mem_singleton.mpr (not_break hp hfirst)
  · exact List.forall_mem_nil _

theorem solid_sign (cs : List Char) : Solid (cs.take (signLength cs)) := by
  refine solid_first (p := fun c => c == '+' || c == '-') rfl ?_
  cases cs <;> rfl

theorem solid_realSuffix (cs : List Char) : Solid (cs.take (realSuffixLength cs)) := by
  refine solid_first (p := isRealSuffix) rfl ?_
  cases cs <;> rfl

theorem solid_integerSuffix (cs : List Char) : Solid (cs.take (integerSuffixLength cs)) := by
  have letter : breaks.any isIntegerSuffix = false := rfl
  unfold integerSuffixLength
  split
  · rename_i a b cs
    split
    · rename_i ha
      split
      · rename_i hb
        have hb : isIntegerSuffix b = true := (Bool.and_eq_true_iff.mp hb).1
        exact List.forall_mem_cons.mpr ⟨not_break letter ha,
          List.forall_mem_singleton.mpr (not_break letter hb)⟩
      · exact List.forall_mem_singleton.mpr (not_break letter ha)
    · exact fun c hc => by cases hc
  · split
    · rename_i ha
      exact List.forall_mem_singleton.mpr (not_break letter ha)
    · exact fun c hc => by cases hc
  · exact fun c hc => by cases hc

theorem solid_exponent (h : exponentLength cs = .ok n) : Solid (cs.take n) := by
  unfold exponentLength at h
  split at h
  · exact fun c hc => by cases List.take_nil ▸ hc
  · rename_i c cs
    split at h
    · rename_i hc
      have hmark : c ∉ breaks := not_break (p := fun c => c == 'e' || c == 'E') rfl hc
      dsimp only at h
      split at h <;> cases h
      rw [Nat.add_assoc, Nat.add_comm 1, List.take_succ_cons]
      exact List.forall_mem_cons.mpr ⟨hmark,
        solid_add (solid_sign cs) (solid_count rfl _)⟩
    · cases h
      exact fun c hc => by cases hc

theorem decimalEnd_solid {m : Nat} (real : Bool) (h : Solid (cs.take m)) :
    Solid (cs.take (decimalEnd cs real m).length) := by
  unfold decimalEnd
  dsimp only
  split
  · exact solid_add h (solid_realSuffix _)
  · split
    · exact h
    · exact solid_add h (solid_integerSuffix _)

/-- A number has none of the characters in it that end one. -/
theorem number_solid (h : number cs = .ok l) : Solid (cs.take l.length) := by
  rw [number_eq] at h
  split at h
  · rename_i hx
    unfold hexadecimal at h
    dsimp only at h
    split at h <;> cases h
    refine solid_add (solid_add ?_ (solid_count rfl _)) (solid_integerSuffix _)
    match cs, hx with
    | c :: x :: cs, hx =>
      obtain ⟨hc, hx⟩ := Bool.and_eq_true_iff.mp hx
      exact List.forall_mem_cons.mpr ⟨not_break (p := (· == '0')) rfl hc,
        List.forall_mem_singleton.mpr
          (not_break (p := fun x => x == 'x' || x == 'X') rfl hx)⟩
  · cases he : exponentLength (cs.drop (count Char.isDigit cs +
        fractionLength (cs.drop (count Char.isDigit cs)))) with
    | error fault =>
      unfold decimal at h
      dsimp only at h
      rw [he] at h
      cases h
    | ok exponent =>
      rw [decimal_eq rfl rfl he] at h
      cases h
      exact decimalEnd_solid _ (solid_add (solid_add (solid_count rfl cs)
        (solid_fraction _)) (solid_exponent he))

end Lexeme

namespace Ordering

variable {c : Char} {cs : List Char} {l : Lexeme} {start depth : Nat} {taken : List Char}

/-! ### What a token is for the clauses -/

/-- What a token at the front of a text is for its clauses: a bracket or a
comma, a quoted literal, or nothing that counts. -/
inductive Scanned (c : Char) (cs : List Char) (l : Lexeme) : Prop
  | opening (hc : c ∈ ['(', '[', '\x7b']) (hl : l.length = 1)
      (hk : ∀ depth, l.kind.deepen depth = depth + 1) (hcomma : l.kind ≠ .comma)
  | closing (hc : c ∈ [')', ']', '\x7d']) (hl : l.length = 1)
      (hk : ∀ depth, l.kind.deepen depth = depth - 1) (hcomma : l.kind ≠ .comma)
  | comma (hc : c = ',') (hl : l.length = 1) (hk : l.kind = .comma)
  | literal {value : List Char} {n : Nat} (hc : c = '"' ∨ c = '\'')
      (hbody : quotedBody? c cs = some (value, n)) (hl : l.length = n + 1)
      (hk : ∀ depth, l.kind.deepen depth = depth) (hcomma : l.kind ≠ .comma)
  | solid (h : Solid ((c :: cs).take l.length)) (hk : ∀ depth, l.kind.deepen depth = depth)
      (hcomma : l.kind ≠ .comma)

theorem Scanned.of_symbol {k : TokenKind} {n : Nat} (h : symbol? c cs.head? = some (k, n)) :
    Scanned c cs ⟨k, [], n⟩ := by
  have one {c : Char} {k : TokenKind} (hc : c ∉ breaks) (hk : ∀ depth, k.deepen depth = depth)
      (hcomma : k ≠ .comma) : Scanned c cs ⟨k, [], 1⟩ :=
    .solid (List.forall_mem_singleton.mpr hc) hk hcomma
  have two {c d : Char} {k : TokenKind} (hd : cs.head? = some d) (hc : c ∉ breaks) (hd' : d ∉ breaks)
      (hk : ∀ depth, k.deepen depth = depth) (hcomma : k ≠ .comma) : Scanned c cs ⟨k, [], 2⟩ := by
    obtain ⟨ds, rfl⟩ := List.head?_eq_some_iff.mp hd
    exact .solid (List.forall_mem_cons.mpr ⟨hc, List.forall_mem_singleton.mpr hd'⟩) hk hcomma
  unfold symbol? at h
  split at h
  case h_1 | h_3 | h_5 =>
    cases h
    exact .opening (by decide) rfl (fun _ => rfl) (by decide)
  case h_2 | h_4 | h_6 =>
    cases h
    exact .closing (by decide) rfl (fun _ => rfl) (by decide)
  case h_7 =>
    cases h
    exact .comma rfl rfl rfl
  case h_8 | h_9 | h_10 | h_11 | h_12 | h_13 | h_14 =>
    cases h
    exact one (not_break_char rfl) (fun _ => rfl) (by decide)
  case h_15 | h_16 | h_17 | h_18 =>
    split at h <;> cases h
    · rename_i hd
      exact two (beq_iff_eq.mp hd) (not_break_char rfl) (not_break_char rfl) (fun _ => rfl)
        (by decide)
    · exact one (not_break_char rfl) (fun _ => rfl) (by decide)
  case h_19 =>
    split at h
    · rename_i hd
      cases h
      exact two (beq_iff_eq.mp hd) (not_break_char rfl) (not_break_char rfl) (fun _ => rfl)
        (by decide)
    · split at h <;> cases h
      · rename_i hd
        exact two (beq_iff_eq.mp hd) (not_break_char rfl) (not_break_char rfl) (fun _ => rfl)
          (by decide)
      · exact one (not_break_char rfl) (fun _ => rfl) (by decide)
  case h_20 | h_21 =>
    split at h <;> cases h
    rename_i hd
    exact two (beq_iff_eq.mp hd) (not_break_char rfl) (not_break_char rfl) (fun _ => rfl)
      (by decide)
  case h_22 => cases h

theorem word_kind (c : Char) (cs : List Char) :
    (∀ depth, (word c cs).kind.deepen depth = depth) ∧ (word c cs).kind ≠ .comma := by
  dsimp only [word]
  cases hk : TokenKind.keyword? (c :: cs.takeWhile Text.isNamePart) with
  | none => exact ⟨fun _ => rfl, by decide⟩
  | some k =>
    have hkeyword := TokenKind.keyword?_isKeyword hk
    cases k <;> first | exact ⟨fun _ => rfl, by decide⟩ | cases hkeyword

/-- **Every token is something for the clauses.** -/
theorem Scanned.of_lexeme (h : lexeme c cs = .ok l) : Scanned c cs l := by
  unfold lexeme at h
  split at h
  · rename_i hs
    cases h
    exact .of_symbol hs
  · split at h
    · rename_i hq
      split at h <;> cases h
      rename_i value n hbody
      have hc : c = '"' ∨ c = '\'' := by simpa using hq
      refine .literal hc hbody rfl ?_ ?_ <;> dsimp only <;> split
      · exact fun _ => rfl
      · exact fun _ => rfl
      · decide
      · decide
    · split at h
      · rcases (number_spelled h).1 with hk | hk
        · exact .solid (number_solid h) (fun _ => by rw [hk]; rfl) (by rw [hk]; decide)
        · exact .solid (number_solid h) (fun _ => by rw [hk]; rfl) (by rw [hk]; decide)
      · split at h <;> cases h
        rename_i hstart
        obtain ⟨hk, hcomma⟩ := word_kind c cs
        refine .solid ?_ hk hcomma
        show Solid ((c :: cs).take ((cs.takeWhile Text.isNamePart).length + 1))
        rw [List.take_succ_cons]
        exact List.forall_mem_cons.mpr ⟨not_break_nameStart hstart,
          solid_count (by decide +kernel) cs⟩

end Ordering
end QueryExpr
