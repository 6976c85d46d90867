/-
# Quoted literals, written and read

A text is quoted by writing a quote on both sides of it and each quote in it
twice. A quoted text is read as one literal that stands for the text, as long as
no further quote follows: one character behind a quote tells whether it is the
last one. And a literal that was read is written in no other way.

Key definitions: `Quote`, `Quote.doubled`, `Quote.enclosed`.
Key theorems: `Quote.lexeme_enclosed`, `Quote.scan_enclosed`,
`Quote.written_of_genuine`.
-/
import QueryExpr.Proofs.ScannedText

namespace QueryExpr

open Lexeme

/-- A token that was scanned is the one that its text is. -/
theorem Scanner.genuine_of_scan {s s' : Scanner} {k : TokenKind}
    (h : s.scan = (.ok k, s')) (hk : k ≠ .endOfText) :
    s'.current.kind = k ∧ s'.current.Genuine := by
  have hscan := s.scan_outcome
  rw [h] at hscan
  cases hscan with
  | ending => exact absurd rfl hk
  | token hrest hb hc hl =>
    refine ⟨rfl, ?_⟩
    show whole? (String.ofList _).toList = some (_, (String.ofList _).toList)
    rw [String.toList_ofList, String.toList_ofList]
    exact whole?_of_lexeme hc hl

/-- A quote that literals are written between. -/
inductive Quote
  | double
  | single
  deriving DecidableEq, Repr

namespace Quote

/-- The quote as it is written. -/
def char : Quote → Char
  | .double => '"'
  | .single => '\''

/-- The kind of the literals between such quotes. -/
def kind : Quote → TokenKind
  | .double => .string
  | .single => .char

/-- A text with each of its quotes written twice. -/
def doubled (q : Quote) : List Char → List Char
  | [] => []
  | c :: cs => if c = q.char then c :: c :: q.doubled cs else c :: q.doubled cs

/-- A text as a quoted literal. -/
def enclosed (q : Quote) (value : List Char) : List Char :=
  q.char :: (q.doubled value ++ [q.char])

variable {q : Quote} {value cs post : List Char} {n : Nat} {l : Lexeme} {c : Char}

theorem enclosed_append (q : Quote) (value post : List Char) :
    q.enclosed value ++ post = q.char :: (q.doubled value ++ q.char :: post) := by
  rw [enclosed, List.cons_append, List.append_assoc, List.singleton_append]

theorem length_enclosed (q : Quote) (value : List Char) :
    (q.enclosed value).length = (q.doubled value).length + 2 := by
  rw [enclosed, List.length_cons, List.length_append, List.length_singleton]

theorem not_blank (q : Quote) : ¬ Text.isBlank q.char = true := by
  cases q <;> decide +kernel

/-! ### Reading what was written -/

theorem body_doubled (hpost : post.head? ≠ some q.char) : ∀ value : List Char,
    quotedBody? q.char (q.doubled value ++ q.char :: post) =
      some (value, (q.doubled value).length + 1)
  | [] => quotedBody?_closed fun d hd hq => hpost (hq ▸ hd)
  | c :: cs => by
    have ih := body_doubled hpost cs
    by_cases hc : c = q.char
    · rw [doubled, if_pos hc, hc, List.cons_append, List.cons_append, quotedBody?_doubled, ih]
      rfl
    · rw [doubled, if_neg hc, List.cons_append, quotedBody?_other (by simpa using hc), ih]
      rfl

/-- A quoted text that no further quote follows is read as that text. -/
theorem lexeme_enclosed (hpost : post.head? ≠ some q.char) :
    lexeme q.char (q.doubled value ++ q.char :: post) =
      .ok ⟨q.kind, value, (q.enclosed value).length⟩ := by
  have hbody := body_doubled hpost value
  rw [length_enclosed]
  cases q <;> simp only [char] at hbody <;> simp [lexeme, symbol?, char, kind, hbody]

/-- **A quoted text is scanned as one literal** that covers it and stands for it. -/
theorem scan_enclosed {s : Scanner} {bs : List Char}
    (hrest : s.rest = bs ++ (q.enclosed value ++ post)) (hb : ∀ b ∈ bs, Text.isBlank b = true)
    (hpost : post.head? ≠ some q.char) :
    s.scan = (.ok q.kind, ⟨post, s.position + bs.length + (q.enclosed value).length,
      ⟨q.kind, ⟨s.position + bs.length, (q.enclosed value).length⟩, String.ofList value,
        String.ofList (q.enclosed value)⟩⟩) := by
  have hcs : s.rest.dropWhile Text.isBlank =
      q.char :: (q.doubled value ++ q.char :: post) := by
    rw [hrest, List.dropWhile_append_of_pos hb, enclosed_append,
      List.dropWhile_cons_of_neg q.not_blank]
  have hskip : s.rest.length - (q.enclosed value ++ post).length = bs.length := by
    rw [hrest, List.length_append, Nat.add_sub_cancel]
  rw [Scanner.scan, hcs]
  dsimp only
  rw [lexeme_enclosed hpost, ← enclosed_append, hskip]
  dsimp only [Scanner.behind]
  rw [List.drop_left, List.take_left]

/-! ### Writing what was read -/

theorem doubled_of_body (n : Nat) : ∀ {cs value : List Char},
    quotedBody? q.char cs = some (value, n) → cs.take n = q.doubled value ++ [q.char] := by
  induction n using Nat.strongRecOn with
  | _ n ih =>
    intro cs value h
    rcases quotedBody?_cases h with ⟨c, ds, v, k, hc, rfl, hb, rfl, rfl⟩ |
      ⟨ds, v, k, rfl, hb, rfl, rfl⟩ | ⟨ds, rfl, rfl, rfl⟩
    · rw [List.take_succ_cons, ih k (by omega) hb, doubled, if_neg hc, List.cons_append]
    · rw [List.take_succ_cons, List.take_succ_cons, ih k (by omega) hb, doubled, if_pos rfl,
        List.cons_append, List.cons_append]
    · rfl

/-- Only what starts with a quote is a literal. -/
theorem quotes_of_lexeme (h : lexeme c cs = .ok l) (hk : l.kind = q.kind) :
    c = q.char ∧ ∃ n, quotedBody? c cs = some (l.value, n) ∧ l.length = n + 1 := by
  unfold lexeme at h
  split at h
  · rename_i hs
    cases h
    have hsym := symbol?_kind hs
    subst hk
    cases q <;> cases hsym
  · split at h
    · rename_i hq
      split at h <;> cases h
      rename_i value n hbody
      refine ⟨?_, n, hbody, rfl⟩
      rcases Bool.or_eq_true_iff.mp hq with hc | hc <;> obtain rfl := beq_iff_eq.mp hc <;>
        cases q <;> first | rfl | cases hk
    · split at h
      · rcases (number_spelled h).1 with hn | hn <;> rw [hn] at hk <;> cases q <;> cases hk
      · split at h <;> cases h
        dsimp only [word] at hk
        cases hw : TokenKind.keyword? (c :: cs.takeWhile Text.isNamePart) with
        | none =>
          rw [hw] at hk
          cases q <;> cases hk
        | some k =>
          have hkeyword := TokenKind.keyword?_isKeyword hw
          rw [hw] at hk
          obtain rfl : k = q.kind := hk
          cases q <;> cases hkeyword

/-- **A literal is written as what it stands for, in quotes.** -/
theorem written_of_genuine {t : Token} (h : t.Genuine) (hk : t.kind = q.kind) :
    t.written = String.ofList (q.enclosed t.value.toList) := by
  refine String.toList_inj.mp ?_
  rw [String.toList_ofList]
  unfold Token.Genuine at h
  cases hw : t.written.toList with
  | nil =>
    rw [hw] at h
    cases h
  | cons c cs =>
    rw [hw] at h
    obtain ⟨rfl, n, hbody, hlen⟩ := quotes_of_lexeme (whole?_cons h).2 hk
    dsimp only at hbody hlen
    have hall : cs.take n = cs := List.take_of_length_le (by omega)
    rw [enclosed, ← doubled_of_body n hbody, hall]

end Quote
end QueryExpr
