/-
# What is left of a clause

A clause loses the white space at both ends. If it ends with a word for its
direction, with white space in front of it and with something in front of that,
it loses the word and the white space before it, too.

Key definitions: `Text.Spaces`, `Ordering.Directed`, `Ordering.trimmed`.
Key theorems: `Text.trim_split`, `Ordering.Direction.letters_of_ofWord?`,
`Ordering.segmentOf_directed`, `Ordering.segmentOf_undirected`.
-/
import Mathlib.Data.List.Basic
import Mathlib.Data.List.TakeWhile
import QueryExpr.Ordering.Split
import QueryExpr.Proofs.TokenMarks

namespace QueryExpr

/-! ### White space at the ends -/

namespace Text

variable {as bs cs : List Char}

/-- Nothing but white space. -/
def Spaces (cs : List Char) : Prop := ∀ c ∈ cs, isWhiteSpace c = true

theorem Spaces.reverse (h : Spaces cs) : Spaces cs.reverse :=
  fun c hc => h c (List.mem_reverse.mp hc)

theorem trimStart_spaces (h : Spaces as) : trimStart (as ++ cs) = trimStart cs :=
  List.dropWhile_append_of_pos h

/-- What starts with another character loses nothing at its start. -/
theorem trimStart_eq (h : ∀ c ∈ cs.head?, isWhiteSpace c = false) : trimStart cs = cs := by
  cases cs with
  | nil => rfl
  | cons c cs => exact List.dropWhile_cons_of_neg (by rw [h c rfl]; decide)

theorem trim_spaces (h : Spaces cs) : trim cs = [] := by
  have hstart : trimStart (cs ++ []) = [] := trimStart_spaces h
  rw [List.append_nil] at hstart
  rw [trim, hstart]
  rfl

theorem trimEnd_spaces (h : Spaces bs) : trimEnd (cs ++ bs) = trimEnd cs := by
  rw [trimEnd, List.reverse_append, trimStart_spaces h.reverse, trimEnd]

theorem trimEnd_eq (h : ∀ c ∈ cs.getLast?, isWhiteSpace c = false) : trimEnd cs = cs := by
  rw [trimEnd, trimStart_eq (by rwa [List.head?_reverse]), List.reverse_reverse]

theorem trimStart_split (cs : List Char) : ∃ lead, Spaces lead ∧ cs = lead ++ trimStart cs ∧
    ∀ c ∈ (trimStart cs).head?, isWhiteSpace c = false := by
  refine ⟨cs.takeWhile isWhiteSpace, fun c hc => List.mem_takeWhile_imp hc,
    List.takeWhile_append_dropWhile.symm, fun c hc => ?_⟩
  have hne : cs.dropWhile isWhiteSpace ≠ [] := by
    intro h
    rw [trimStart, h] at hc
    cases hc
  have hhead := List.head_dropWhile_not isWhiteSpace hne
  rw [trimStart, List.head?_eq_some_head hne] at hc
  cases hc
  exact hhead

theorem trimEnd_split (cs : List Char) : ∃ trail, Spaces trail ∧ cs = trimEnd cs ++ trail ∧
    ∀ c ∈ (trimEnd cs).getLast?, isWhiteSpace c = false := by
  obtain ⟨lead, hlead, hsplit, hfirst⟩ := trimStart_split cs.reverse
  refine ⟨lead.reverse, hlead.reverse, ?_, ?_⟩
  · have h := congrArg List.reverse hsplit
    rwa [List.reverse_reverse, List.reverse_append] at h
  · rwa [trimEnd, List.getLast?_reverse]

/-- **A text is what is left of it, between white space.** -/
theorem trim_split (cs : List Char) : ∃ lead trail, Spaces lead ∧ Spaces trail ∧
    cs = lead ++ (trim cs ++ trail) ∧ trimStart cs = trim cs ++ trail ∧
    (∀ c ∈ (trim cs).head?, isWhiteSpace c = false) ∧
    ∀ c ∈ (trim cs).getLast?, isWhiteSpace c = false := by
  obtain ⟨lead, hlead, hsplit, hfirst⟩ := trimStart_split cs
  obtain ⟨trail, htrail, hsplit', hlast⟩ := trimEnd_split (trimStart cs)
  refine ⟨lead, trail, hlead, htrail, ?_, hsplit', fun c hc => hfirst c ?_, hlast⟩
  · exact hsplit.trans (congrArg (lead ++ ·) hsplit')
  · rw [hsplit', List.head?_append]
    show c ∈ (trim cs).head?.or _
    rw [show (trim cs).head? = some c from hc]
    rfl

/-- Between white space there is what starts and ends with other characters. -/
theorem trim_between {lead trail : List Char} (hlead : Spaces lead) (htrail : Spaces trail)
    (hne : cs ≠ []) (hfirst : ∀ c ∈ cs.head?, isWhiteSpace c = false)
    (hlast : ∀ c ∈ cs.getLast?, isWhiteSpace c = false) :
    trim (lead ++ (cs ++ trail)) = cs ∧ trimStart (lead ++ (cs ++ trail)) = cs ++ trail := by
  have hstart : trimStart (lead ++ (cs ++ trail)) = cs ++ trail := by
    rw [trimStart_spaces hlead]
    refine trimStart_eq fun c hc => hfirst c ?_
    obtain ⟨d, ds, rfl⟩ := List.exists_cons_of_ne_nil hne
    exact hc
  refine ⟨?_, hstart⟩
  rw [trim, hstart, trimEnd_spaces htrail, trimEnd_eq hlast]

end Text

/-! ### Words for directions -/

/-- Letters without accents and decimal digits are ASCII characters. -/
theorem Text.toNat_lt_of_isAlphanum {c : Char} (h : c.isAlphanum = true) : c.toNat < 128 := by
  have hranges : ((65 ≤ c.toNat ∧ c.toNat ≤ 90) ∨ (97 ≤ c.toNat ∧ c.toNat ≤ 122)) ∨
      (48 ≤ c.toNat ∧ c.toNat ≤ 57) := by
    have hword : (decide (c.val ≥ 65 ∧ c.val ≤ 90) || c.val ≥ 97 && c.val ≤ 122 ||
        c.val ≥ 48 && c.val ≤ 57) = true := h
    simpa [UInt32.le_iff_toNat_le] using hword
  omega

/-- What holds of the ASCII characters by their numbers holds of each. -/
theorem Text.forall_ascii {P : Char → Prop} (h : ∀ n < 128, P (Char.ofNat n)) (c : Char)
    (hc : c.toNat < 128) : P c := by
  have hp := h c.toNat hc
  rwa [Char.ofNat_toNat] at hp

/-- A letter without an accent is what it is in every class. -/
theorem Text.letter_classes {c : Char} (h : c.isAlpha = true) : isWordPart c = true ∧
    isNameStart c = true ∧ isNamePart c = true ∧ isBlank c = false ∧ c.isDigit = false := by
  have hlt : c.toNat < 128 := toNat_lt_of_isAlphanum (by rw [Char.isAlphanum, h, Bool.true_or])
  exact forall_ascii (P := fun c => c.isAlpha = true → isWordPart c = true ∧
    isNameStart c = true ∧ isNamePart c = true ∧ isBlank c = false ∧ c.isDigit = false)
    (by decide +kernel) c hlt h

/-- What starts a name is no blank and no decimal digit. -/
theorem Text.nameStart_classes {c : Char} (h : isNameStart c = true) :
    isBlank c = false ∧ c.isDigit = false := by
  constructor
  · by_contra hblank
    rw [Bool.not_eq_false] at hblank
    exact Ordering.not_break_nameStart h (List.mem_append_right _ (mem_blanks hblank))
  · by_contra hdigit
    rw [Bool.not_eq_false] at hdigit
    have hlt : c.toNat < 128 :=
      toNat_lt_of_isAlphanum (by rw [Char.isAlphanum, hdigit, Bool.or_true])
    have hstart : (c == '_' || c.isAlpha) = true := by
      simpa [isNameStart, Nat.not_lt.mpr (Nat.le_of_lt_succ hlt)] using h
    rcases Bool.or_eq_true_iff.mp hstart with hc | hc
    · rw [beq_iff_eq.mp hc] at hdigit
      cases hdigit
    · rw [(letter_classes hc).2.2.2.2] at hdigit
      cases hdigit

/-- White space is in none of the classes of words. -/
theorem Text.space_classes {c : Char} (h : isWhiteSpace c = true) :
    isWordPart c = false ∧ isNamePart c = false ∧ c.isAlpha = false := by
  have hblanks : (blanks.any fun d => isWordPart d || isNamePart d || d.isAlpha) = false := by
    decide +kernel
  have hc := List.any_eq_false.mp hblanks c (mem_blanks (Bool.or_eq_true_iff.mpr (.inl h)))
  rw [Bool.not_eq_true, Bool.or_eq_false_iff, Bool.or_eq_false_iff] at hc
  exact ⟨hc.1.1, hc.1.2, hc.2⟩

theorem Text.isWhiteSpace_of_not_blank {c : Char} (h : isBlank c = false) :
    isWhiteSpace c = false := (Bool.or_eq_false_iff.mp h).1

theorem Text.isAlpha_of_toLower {c : Char} (h : c.toLower.isAlpha = true) : c.isAlpha = true := by
  unfold Char.toLower at h
  split at h
  · rename_i hupper
    exact Bool.or_eq_true_iff.mpr (.inl (decide_eq_true hupper))
  · exact h

namespace Ordering

open Text (Spaces trim trimStart trimEnd isWhiteSpace)

variable {cs front word behind : List Char} {d : Direction} {s : Segment} {number start : Nat}

/-- The words for directions are made of letters, and are no keywords. -/
theorem Direction.letters_of_ofWord? (h : Direction.ofWord? word = some d) :
    word ≠ [] ∧ (∀ c ∈ word, c.isAlpha = true) ∧ TokenKind.keyword? word = none := by
  have spelled {s : String} (hs : String.ofList (word.map Char.toLower) = s) (hne : s.toList ≠ [])
      (hs' : s.toList.all Char.isAlpha = true) : word ≠ [] ∧ ∀ c ∈ word, c.isAlpha = true := by
    have hword : word.map Char.toLower = s.toList := by rw [← hs, String.toList_ofList]
    refine ⟨fun h0 => hne (by rw [← hword, h0]; rfl), fun c hc => ?_⟩
    exact Text.isAlpha_of_toLower (List.all_eq_true.mp hs' _ (hword ▸ List.mem_map_of_mem hc))
  unfold Direction.ofWord? at h
  unfold TokenKind.keyword?
  split at h
  case h_1 hs | h_2 hs | h_3 hs | h_4 hs =>
    obtain ⟨hne, hletters⟩ := spelled hs (by decide) (by decide)
    rw [hs]
    exact ⟨hne, hletters, rfl⟩
  case h_5 => cases h

/-! ### Clauses that end with a direction -/

/-- A clause with a word for a direction: what is in front of the word, which
ends with white space and has something else in it, the word, and white space
behind. -/
structure Directed (cs front word behind : List Char) (d : Direction) : Prop where
  split : cs = front ++ (word ++ behind)
  direction : Direction.ofWord? word = some d
  apart : endsWithSpace front = true
  some : ¬ Spaces front
  behind : Spaces behind

/-- The segment of what is left of a clause, or of the front of one. -/
def trimmed (start : Nat) (cs : List Char) (d : Direction) : Segment :=
  ⟨start + (cs.length - (trimStart cs).length),
    start + (cs.length - (trimStart cs).length) + (trim cs).length, d⟩

theorem lastWord_split (cs : List Char) :
    cs = cs.take (cs.length - (lastWord cs).length) ++ lastWord cs := by
  have front {cs as bs : List Char} (h : cs = as ++ bs) :
      cs = cs.take (cs.length - bs.length) ++ bs := by
    rw [h, List.length_append, Nat.add_sub_cancel, List.take_left]
  have hwords : cs = (cs.reverse.dropWhile Text.isWordPart).reverse ++ lastWord cs := by
    rw [lastWord, ← List.reverse_append, List.takeWhile_append_dropWhile, List.reverse_reverse]
  exact front hwords

/-- A word behind white space is the last one. -/
theorem lastWord_append (hword : ∀ c ∈ word, Text.isWordPart c = true)
    (hfront : endsWithSpace front = true) : lastWord (front ++ word) = word := by
  have hstop : front.reverse.takeWhile Text.isWordPart = [] := by
    unfold endsWithSpace at hfront
    rw [← List.head?_reverse] at hfront
    cases hrev : front.reverse with
    | nil => rfl
    | cons c cs =>
      rw [hrev] at hfront
      have hc : Text.isWordPart c = false := (Text.space_classes hfront).1
      rw [List.takeWhile_cons, hc]
      rfl
  rw [lastWord, List.reverse_append, List.takeWhile_append_of_pos fun c hc =>
    hword c (List.mem_reverse.mp hc), hstop, List.append_nil, List.reverse_reverse]

theorem trim_ne_nil (h : ¬ Spaces cs) : trim cs ≠ [] := by
  obtain ⟨lead, trail, hlead, htrail, hsplit, -⟩ := Text.trim_split cs
  intro hnil
  refine h fun c hc => ?_
  rw [hsplit, hnil, List.nil_append] at hc
  exact (List.mem_append.mp hc).elim (hlead c) (htrail c)

theorem endsWithSpace_append {as bs : List Char} (h : bs ≠ []) :
    endsWithSpace (as ++ bs) = endsWithSpace bs := by
  rw [endsWithSpace, List.getLast?_append_of_ne_nil _ h, endsWithSpace]

/-- **A clause with a direction loses the word for it.** -/
theorem segmentOf_directed (h : Directed cs front word behind d) :
    segmentOf number start cs = .ok (trimmed start front d) := by
  obtain ⟨lead, gap, hlead, hgap, hsplit, hstart, hfirst, hlast⟩ := Text.trim_split front
  obtain ⟨hword, hletters, -⟩ := Direction.letters_of_ofWord? h.direction
  have hne : trim front ≠ [] := trim_ne_nil h.some
  -- what is left of the clause goes from the front up to the word
  have hcs : cs = lead ++ ((trim front ++ gap ++ word) ++ behind) := by
    calc cs = front ++ (word ++ behind) := h.split
      _ = (lead ++ (trim front ++ gap)) ++ (word ++ behind) := congrArg (· ++ _) hsplit
      _ = lead ++ ((trim front ++ gap ++ word) ++ behind) := by simp only [List.append_assoc]
  have hbody : trim cs = trim front ++ gap ++ word ∧
      trimStart cs = (trim front ++ gap ++ word) ++ behind := by
    rw [hcs]
    refine Text.trim_between hlead h.behind (List.append_ne_nil_of_right_ne_nil _ hword) ?_ ?_
    · intro c hc
      obtain ⟨b, bs, hb⟩ := List.exists_cons_of_ne_nil hne
      rw [hb] at hc hfirst
      exact hfirst c hc
    · intro c hc
      rw [List.getLast?_append_of_ne_nil _ hword] at hc
      have hletter := hletters c (List.mem_of_getLast? hc)
      exact Text.isWhiteSpace_of_not_blank (Text.letter_classes hletter).2.2.2.1
  have hapart : endsWithSpace (trim front ++ gap) = true := by
    have h := h.apart
    rwa [hsplit, endsWithSpace_append (List.append_ne_nil_of_left_ne_nil hne _)] at h
  have hlastWord : lastWord (trim front ++ gap ++ word) = word :=
    lastWord_append (fun c hc => (Text.letter_classes (hletters c hc)).1) hapart
  have hbefore : (trim front ++ gap ++ word).take
      ((trim front ++ gap ++ word).length - word.length) = trim front ++ gap := by
    have hlen : (trim front ++ gap ++ word).length = (trim front ++ gap).length + word.length :=
      List.length_append
    rw [hlen, Nat.add_sub_cancel, List.take_left]
  have hfront : trimEnd (trim front ++ gap) = trim front := by
    rw [Text.trimEnd_spaces hgap, Text.trimEnd_eq hlast]
  have hlen : cs.length - (trimStart cs).length = front.length - (trimStart front).length := by
    have h1 := congrArg List.length hcs
    have h2 := congrArg List.length hsplit
    rw [hbody.2, hstart]
    simp only [List.length_append] at h1 h2 ⊢
    omega
  unfold segmentOf
  dsimp only
  rw [hbody.1, hlastWord, hbefore, h.direction, hapart, hfront, hlen]
  have hnonempty : (trim front ++ gap ++ word).isEmpty = false :=
    List.isEmpty_eq_false_iff.mpr (List.append_ne_nil_of_right_ne_nil _ hword)
  rw [hnonempty]
  rfl

/-- **A clause without a direction is kept**, but for the white space around it. -/
theorem segmentOf_undirected (h : ¬ ∃ front word behind d, Directed cs front word behind d)
    (hs : segmentOf number start cs = .ok s) :
    trim cs ≠ [] ∧ s = trimmed start cs .ascending := by
  obtain ⟨lead, trail, hlead, htrail, hsplit, hstart, hfirst, hlast⟩ := Text.trim_split cs
  unfold segmentOf at hs
  dsimp only at hs
  split at hs
  · cases hs
  · rename_i hempty
    have hne : trim cs ≠ [] := fun hnil => hempty (by rw [hnil]; rfl)
    refine ⟨hne, ?_⟩
    split at hs
    · rename_i d hd
      split at hs
      · rename_i hapart
        have hword := lastWord_split (trim cs)
        generalize (trim cs).take ((trim cs).length - (lastWord (trim cs)).length) = front
          at hapart hword
        have hfront : front ≠ [] := by
          rintro rfl
          cases hapart
        have hother : ¬ Spaces front := by
          obtain ⟨c, cs', rfl⟩ := List.exists_cons_of_ne_nil hfront
          intro hspaces
          have hc : isWhiteSpace c = false := by
            refine hfirst c ?_
            rw [hword]
            rfl
          rw [hspaces c List.mem_cons_self] at hc
          cases hc
        refine absurd ⟨lead ++ front, lastWord (trim cs), trail, d, ?_, hd, ?_, ?_, htrail⟩ h
        · rw [List.append_assoc, ← List.append_assoc front, ← hword]
          exact hsplit
        · rw [endsWithSpace_append hfront]
          exact hapart
        · exact fun hspaces => hother fun c hc => hspaces c (List.mem_append_right _ hc)
      · exact (Except.ok.inj hs).symm
    · exact (Except.ok.inj hs).symm

end Ordering
end QueryExpr
