/-
# Reading token after token

Each step of a scanner passes the blanks in front and then comes to the end of
the text, to a fault, or to a token, behind which it goes on. Read to the end,
it yields the tokens of its text, and no more of them than there are characters.

Key definitions: `Scanner.Outcome`, `Scanner.Reads`.
Key theorems: `lexeme_fault`, `lexeme_kind`, `Scanner.scan_outcome`,
`Scanner.reads_rest`, `Scanner.Reads.length_le`.
-/
import Mathlib.Data.List.TakeWhile
import QueryExpr.Proofs.RenderedTokens

namespace QueryExpr

open Lexeme

/-! ### Lexemes and faults -/

namespace Lexeme

variable {cs : List Char} {cause : Cause} {n : Nat}

theorem exponentLength_fault (h : exponentLength cs = .error n) : 0 < n ∧ n ≤ cs.length := by
  unfold exponentLength at h
  split at h
  · cases h
  · rename_i c cs
    split at h
    · dsimp only at h
      split at h <;> cases h
      have hsign := measure_signLength.le cs
      rw [List.length_cons]
      omega
    · cases h

theorem decimal_fault (h : decimal cs = .error (cause, n)) : 0 < n ∧ n ≤ cs.length := by
  have hcount : Measure (count Char.isDigit) := measure_count (by decide)
  have hwhole := hcount.le cs
  unfold decimal at h
  dsimp only at h
  split at h
  · rename_i fault hfault
    cases h
    have hfraction := measure_fractionLength.le (cs.drop (count Char.isDigit cs))
    obtain ⟨hpos, hle⟩ := exponentLength_fault hfault
    rw [List.length_drop] at hfraction hle
    omega
  · split at h
    · cases h
    · split at h <;> cases h

theorem number_fault (h : number cs = .error (cause, n)) : 0 < n ∧ n ≤ cs.length := by
  rw [number_eq] at h
  split at h
  · rename_i hx
    unfold hexadecimal at h
    dsimp only at h
    split at h <;> cases h
    match cs, hx with
    | _ :: _ :: _, _ => exact ⟨Nat.two_pos, Nat.succ_le_succ (Nat.succ_le_succ (Nat.zero_le _))⟩
  · exact decimal_fault h

end Lexeme

section

variable {c : Char} {cs : List Char} {l : Lexeme} {cause : Cause} {n : Nat}

/-- A fault covers some of the characters there are. -/
theorem lexeme_fault (h : lexeme c cs = .error (cause, n)) : 0 < n ∧ n ≤ cs.length + 1 := by
  unfold lexeme at h
  split at h
  · cases h
  · split at h
    · split at h <;> cases h
      exact ⟨Nat.succ_pos _, Nat.le_refl _⟩
    · split at h
      · exact number_fault h
      · split at h <;> cases h
        exact ⟨Nat.one_pos, Nat.succ_le_succ (Nat.zero_le _)⟩

theorem lexeme_kind (h : lexeme c cs = .ok l) : l.kind ≠ .endOfText := by
  unfold lexeme at h
  split at h
  · rename_i hs
    cases h
    have hsym := symbol?_kind hs
    rintro rfl
    cases hsym
  · split at h
    · split at h <;> cases h
      dsimp only
      split <;> decide
    · split at h
      · rcases (number_spelled h).1 with hk | hk <;> rw [hk] <;> decide
      · split at h <;> cases h
        dsimp only [word]
        cases hk : TokenKind.keyword? (c :: cs.takeWhile Text.isNamePart) with
        | none => decide
        | some k =>
          have hkeyword := TokenKind.keyword?_isKeyword hk
          rintro rfl
          cases hkeyword

end

/-! ### Reading on -/

section

variable {c : Char} {bs cs : List Char} {l : Lexeme} {cause : Cause} {n : Nat}

theorem readTokens_blanks (position : Nat) (hb : ∀ b ∈ bs, Text.isBlank b = true) :
    readTokens position 0 (bs ++ cs) = readTokens (position + bs.length) 0 cs := by
  induction bs generalizing position with
  | nil => rfl
  | cons b bs ih =>
    rw [List.cons_append, readTokens, if_pos (hb b (.head _)), ih _ fun b h => hb b (.tail _ h),
      List.length_cons, Nat.add_assoc, Nat.add_comm 1]

theorem readTokens_fault (position : Nat) (hc : ¬ Text.isBlank c = true)
    (h : lexeme c cs = .error (cause, n)) :
    readTokens position 0 (c :: cs) = ⟨[], .error ⟨cause, ⟨position, n⟩⟩⟩ := by
  rw [readTokens, if_neg hc, h]

theorem readTokens_lexeme (position : Nat) (hc : ¬ Text.isBlank c = true)
    (h : lexeme c cs = .ok l) :
    readTokens position 0 (c :: cs) =
      ⟨.ofLexeme position (c :: cs) l ::
          (readTokens (position + l.length) 0 ((c :: cs).drop l.length)).list,
        (readTokens (position + l.length) 0 ((c :: cs).drop l.length)).ending⟩ := by
  obtain ⟨n, hn, hle, -⟩ := lexeme_cut h
  have hskip : readTokens (position + 1) (l.length - 1) cs =
      readTokens (position + l.length) 0 ((c :: cs).drop l.length) := by
    have hskip := readTokens_skip (position + 1) (cs.take n) (cs.drop n)
    rw [List.take_append_drop, List.length_take, Nat.min_eq_left hle] at hskip
    rw [hn, Nat.add_sub_cancel, hskip, List.drop_succ_cons, Nat.add_assoc, Nat.add_comm 1]
  rw [readTokens, if_neg hc, h]
  dsimp only
  rw [hskip]

end

namespace Scanner

/-- What a step of a scanner comes to. Past the blanks there is the end of the
text, a fault, or a token. -/
inductive Outcome (s : Scanner) : Except Failure TokenKind × Scanner → Prop
  | ending {bs : List Char} (hrest : s.rest = bs) (hb : ∀ b ∈ bs, Text.isBlank b = true) :
      Outcome s (.ok .endOfText, ⟨[], s.position + bs.length, .endAt (s.position + bs.length)⟩)
  | fault {bs cs : List Char} {c : Char} {cause : Cause} {n : Nat} (hrest : s.rest = bs ++ c :: cs)
      (hb : ∀ b ∈ bs, Text.isBlank b = true) (hc : ¬ Text.isBlank c = true)
      (h : lexeme c cs = .error (cause, n)) :
      Outcome s (.error ⟨cause, ⟨s.position + bs.length, n⟩⟩,
        behind s.current.kind (s.position + bs.length) (c :: cs) "" n)
  | token {bs cs : List Char} {c : Char} {l : Lexeme} (hrest : s.rest = bs ++ c :: cs)
      (hb : ∀ b ∈ bs, Text.isBlank b = true) (hc : ¬ Text.isBlank c = true)
      (h : lexeme c cs = .ok l) :
      Outcome s (.ok l.kind, ⟨(c :: cs).drop l.length, s.position + bs.length + l.length,
        .ofLexeme (s.position + bs.length) (c :: cs) l⟩)

theorem scan_outcome (s : Scanner) : s.Outcome s.scan := by
  have hrest : s.rest = s.rest.takeWhile Text.isBlank ++ s.rest.dropWhile Text.isBlank :=
    List.takeWhile_append_dropWhile.symm
  have hb : ∀ b ∈ s.rest.takeWhile Text.isBlank, Text.isBlank b = true := fun b =>
    List.mem_takeWhile_imp
  have hfirst : s.rest.length - (s.rest.dropWhile Text.isBlank).length =
      (s.rest.takeWhile Text.isBlank).length := by
    have := congrArg List.length hrest
    rw [List.length_append] at this
    omega
  unfold scan
  dsimp only
  rw [hfirst]
  generalize s.rest.takeWhile Text.isBlank = bs at *
  cases hcs : s.rest.dropWhile Text.isBlank with
  | nil =>
    rw [hcs, List.append_nil] at hrest
    exact .ending hrest hb
  | cons c cs =>
    have hc : ¬ Text.isBlank c = true := by
      have hne : s.rest.dropWhile Text.isBlank ≠ [] := by rw [hcs]; exact List.cons_ne_nil _ _
      have hhead := List.head_dropWhile_not Text.isBlank hne
      simp only [hcs, List.head_cons] at hhead
      exact Bool.not_eq_true _ ▸ hhead
    rw [hcs] at hrest
    dsimp only
    split
    · rename_i h
      exact .fault hrest hb hc h
    · rename_i h
      exact .token hrest hb hc h

/-- Reading on to the end: the tokens that steps of the scanner come to one
after the other, and the end of the text or the fault that the last step comes
to. -/
inductive Reads : Scanner → List Token → Except Failure Token → Prop
  | ending {s s' : Scanner} (h : s.scan = (.ok .endOfText, s')) : Reads s [] (.ok s'.current)
  | fault {s s' : Scanner} {f : Failure} (h : s.scan = (.error f, s')) : Reads s [] (.error f)
  | token {s s' : Scanner} {k : TokenKind} {ts : List Token} {ending : Except Failure Token}
      (h : s.scan = (.ok k, s')) (hk : k ≠ .endOfText) (next : Reads s' ts ending) :
      Reads s (s'.current :: ts) ending

/-- A scanner yields the tokens of the text that it reads. -/
theorem reads_rest (s : Scanner) :
    Reads s (readTokens s.position 0 s.rest).list
      ((readTokens s.position 0 s.rest).ending.map .endAt) := by
  -- each token makes the rest shorter
  induction hn : s.rest.length using Nat.strongRecOn generalizing s with
  | ind n ih =>
    have hscan := s.scan_outcome
    generalize ho : s.scan = o at hscan
    cases hscan with
    | @ending bs hrest hb =>
      have hread : readTokens s.position 0 s.rest = ⟨[], .ok (s.position + bs.length)⟩ := by
        rw [hrest, ← List.append_nil bs, readTokens_blanks _ hb, List.append_nil, readTokens_nil]
      rw [hread]
      exact .ending ho
    | fault hrest hb hc h =>
      rw [hrest, readTokens_blanks _ hb, readTokens_fault _ hc h]
      exact .fault ho
    | token hrest hb hc h =>
      obtain ⟨m, hm, -, -⟩ := lexeme_cut h
      rw [hrest, readTokens_blanks _ hb, readTokens_lexeme _ hc h]
      refine .token ho (lexeme_kind h) (ih _ ?_ _ rfl)
      rw [← hn, hrest, hm, List.drop_succ_cons, List.length_append, List.length_drop,
        List.length_cons]
      omega

/-- A scanner yields no more tokens than there are characters. -/
theorem Reads.length_le {s : Scanner} {ts : List Token} {ending : Except Failure Token}
    (h : s.Reads ts ending) : ts.length ≤ s.rest.length := by
  induction h with
  | ending | fault => exact Nat.zero_le _
  | @token s s' k ts ending h hk next ih =>
    have hscan := s.scan_outcome
    rw [h] at hscan
    cases hscan with
    | ending => exact absurd rfl hk
    | token hrest hb hc hl =>
      obtain ⟨n, hn, -, -⟩ := lexeme_cut hl
      rw [hn, List.drop_succ_cons, List.length_drop] at ih
      rw [hrest, List.length_append, List.length_cons, List.length_cons]
      omega

end Scanner
end QueryExpr
