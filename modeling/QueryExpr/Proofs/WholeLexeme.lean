/-
# Texts that are one token

The text of a token, cut out of what it is part of, is that token as a whole.
Numbers and words stand for their texts.

Key definitions: `Lexeme.whole?`, `Token.Genuine`, `TokenKind.Spells`.
Key theorems: `Lexeme.whole?_of_lexeme`, `Lexeme.whole?_value`,
`genuine_readTokens`.
-/
import QueryExpr.Proofs.LexemeCut

namespace QueryExpr

open Lexeme

/-- What is written with symbols is no name. -/
theorem TokenKind.not_isNameLike {k : TokenKind} (h : k.symbolText?.isSome = true) :
    k.isNameLike = false := by
  cases k <;> first | rfl | cases h

namespace Lexeme

/-- The token that a text is as a whole: its kind, and what it stands for. -/
def whole? : List Char → Option (TokenKind × List Char)
  | [] => none
  | c :: cs =>
    if Text.isBlank c then none
    else
      match lexeme c cs with
      | .ok l => if l.length = cs.length + 1 then some (l.kind, l.value) else none
      | .error _ => none

variable {c : Char} {cs rest w : List Char} {k : TokenKind} {v : List Char}

theorem whole?_of_lexeme {l : Lexeme} (hb : ¬ Text.isBlank c = true) (h : lexeme c cs = .ok l) :
    whole? ((c :: cs).take l.length) = some (l.kind, l.value) := by
  obtain ⟨n, hn, hle, hcut⟩ := lexeme_cut h
  have hcut := hcut [] apart_nil
  rw [List.append_nil] at hcut
  rw [hn, List.take_succ_cons, whole?, if_neg hb, hcut]
  dsimp only
  rw [if_pos (by rw [hn, List.length_take, Nat.min_eq_left hle])]

theorem whole?_cons (h : whole? (c :: cs) = some (k, v)) :
    ¬ Text.isBlank c = true ∧ lexeme c cs = .ok ⟨k, v, cs.length + 1⟩ := by
  rw [whole?] at h
  split at h
  · cases h
  · rename_i hb
    refine ⟨hb, ?_⟩
    split at h
    · rename_i l hl
      split at h <;> cases h
      rename_i hlen
      rw [hl, ← hlen]
    · cases h

theorem symbol?_kind {next : Option Char} {n : Nat} (h : symbol? c next = some (k, n)) :
    k.symbolText?.isSome = true := by
  unfold symbol? at h
  split at h <;> (try split at h) <;> (try split at h) <;> cases h <;> rfl

theorem number_spelled {l : Lexeme} (h : number cs = .ok l) :
    (l.kind = .integer ∨ l.kind = .real) ∧ l.value = cs.take l.length := by
  have decimal : ∀ {l}, decimal cs = .ok l →
      (l.kind = .integer ∨ l.kind = .real) ∧ l.value = cs.take l.length := by
    intro l h
    unfold Lexeme.decimal at h
    dsimp only at h
    split at h
    · cases h
    · split at h
      · cases h
        exact ⟨.inr rfl, rfl⟩
      · split at h <;> cases h
        · exact ⟨.inr rfl, rfl⟩
        · exact ⟨.inl rfl, rfl⟩
  rw [number_eq] at h
  split at h
  · unfold hexadecimal at h
    dsimp only at h
    split at h <;> cases h
    exact ⟨.inl rfl, rfl⟩
  · exact decimal h

/-- Numbers and words stand for what they are written as. -/
theorem whole?_value (h : whole? w = some (k, v))
    (hk : k = .integer ∨ k = .real ∨ k.isNameLike = true) : v = w := by
  cases w with
  | nil => cases h
  | cons c cs =>
    obtain ⟨-, h⟩ := whole?_cons h
    unfold lexeme at h
    split at h
    · rename_i hs
      cases h
      have hsym := symbol?_kind hs
      rcases hk with rfl | rfl | hk
      · cases hsym
      · cases hsym
      · rw [TokenKind.not_isNameLike hsym] at hk
        cases hk
    · split at h
      · split at h <;> cases h
        split at hk <;> rcases hk with hk | hk | hk <;> cases hk
      · split at h
        · have hv := (number_spelled h).2
          exact hv.trans (List.take_of_length_le (Nat.le_refl _))
        · split at h
          · unfold word at h
            injection h with h
            injection h with _ hv hlen
            rw [← hv]
            have hpre := List.takeWhile_prefix (l := cs) Text.isNamePart
            rw [hpre.eq_of_length (Nat.succ.inj hlen)]
          · cases h

end Lexeme

/-- The token is the one that its text is. -/
def Token.Genuine (t : Token) : Prop :=
  whole? t.written.toList = some (t.kind, t.value.toList)

/-- A word that stands for itself as a token of the kind. -/
def TokenKind.Spells (k : TokenKind) (s : String) : Prop := whole? s.toList = some (k, s.toList)

instance (k : TokenKind) (s : String) : Decidable (k.Spells s) :=
  inferInstanceAs (Decidable (_ = _))

theorem Token.Genuine.spells {t : Token} (h : t.Genuine)
    (hk : t.kind = .integer ∨ t.kind = .real ∨ t.kind.isNameLike = true) :
    t.value = t.written ∧ t.kind.Spells t.value := by
  have hv : t.value = t.written := String.toList_inj.mp (whole?_value h hk)
  refine ⟨hv, ?_⟩
  show whole? t.value.toList = some (t.kind, t.value.toList)
  exact (congrArg (fun s : String => whole? s.toList) hv).trans h

/-- **Every token of a text is the one that its text is.** -/
theorem genuine_readTokens : ∀ (position skip : Nat) (cs : List Char),
    ∀ t ∈ (readTokens position skip cs).list, t.Genuine
  | position, skip, [], t, ht => by
    rw [readTokens_nil] at ht
    cases ht
  | position, skip + 1, _ :: cs, t, ht => genuine_readTokens (position + 1) skip cs t ht
  | position, 0, c :: cs, t, ht => by
    unfold readTokens at ht
    split at ht
    · exact genuine_readTokens (position + 1) 0 cs t ht
    · rename_i hb
      split at ht
      · cases ht
      · rename_i l hl
        rcases List.mem_cons.mp ht with rfl | ht
        · show whole? (String.ofList _).toList = some (l.kind, (String.ofList l.value).toList)
          rw [String.toList_ofList, String.toList_ofList]
          exact whole?_of_lexeme hb hl
        · exact genuine_readTokens (position + 1) _ cs t ht

end QueryExpr
