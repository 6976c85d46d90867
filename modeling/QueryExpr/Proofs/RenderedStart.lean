/-
# How rendered expressions start

The first token of a rendered expression does not close a bracket. It is a
number only if the expression starts with one, so that a minus sign in front of
another leaf is no part of it. And an expression whose text did not start with
a parenthesis does not get one in front if it binds more strongly than `in`.

Key definitions: `TokenKind.isClosing`, `Form.Unwrapped`.
Key theorems: `Derives.starts`, `Derives.not_number`, `Derives.unwrapped`.
-/
import QueryExpr.Proofs.ReadingPieces

namespace QueryExpr

namespace TokenKind

/-- Whether a token of the kind ends what is read as an expression. -/
def isClosing : TokenKind → Bool
  | .comma | .closeParen | .closeBracket | .closeBrace | .colon | .asWord | .endOfText => true
  | _ => false

end TokenKind

variable {g : Grammar} {form : Form} {e : Expr} {ps : List String} {w : String} {v : Literal}

theorem ne_nil_of_follow (h : (follow ps).isClosing = false) : ps ≠ [] := by
  rintro rfl
  cases h

theorem follow_wrapped (needed : Bool) (h : (follow ps).isClosing = false) (qs : List String) :
    follow (wrapped needed ps ++ qs) = if needed then .openParen else follow ps := by
  cases needed with
  | true => exact follow_word (TokenKind.shows_symbol rfl) _
  | false => exact follow_append (ne_nil_of_follow h) qs

theorem wrapped_starts (needed : Bool) (h : (follow ps).isClosing = false) (qs : List String) :
    (follow (wrapped needed ps ++ qs)).isClosing = false := by
  rw [follow_wrapped needed h]
  cases needed with
  | true => rfl
  | false => exact h

theorem follow_minus (h : Word w) : follow ["-" ++ w] = .minus := by
  unfold follow
  rw [List.flatMap_singleton, wordsOf_minus h]
  exact (TokenKind.shows_symbol (k := .minus) rfl).kindOf

/-- What a token of a number stands for is a number. -/
theorem isNumber_of_numberOf {t : Token} {negative : Bool} {s : Span}
    (h : Reader.numberOf t negative = .ok v) : (Expr.literal v w s).isNumber = true := by
  unfold Reader.numberOf at h
  dsimp only at h
  split at h
  · split at h <;> cases h
    rfl
  · split at h <;> cases h
    rfl

/-- A literal starts with a minus sign or with the token that it is. -/
theorem Literal.Spelled.follow (h : v.Spelled w) : follow [w] ∈
    [.integer, .real, .minus, .string, .char, TokenKind.trueWord, .falseWord, .nullWord] := by
  cases h with
  | number ht hk hv =>
    rw [follow_word ht.shows]
    rcases hk with hk | hk <;> rw [hk] <;> decide
  | negative ht hk hv =>
    rw [follow_minus ht.shows.word]
    decide
  | string ht hk | char ht hk | true ht hk | false ht hk | null ht hk =>
    rw [follow_word ht.shows, hk]
    decide

theorem Literal.Spelled.not_number (h : v.Spelled w) {s : Span}
    (hnot : (Expr.literal v w s).isNumber = .false) :
    QueryExpr.follow [w] ≠ .integer ∧ QueryExpr.follow [w] ≠ .real := by
  cases h with
  | number ht hk hv =>
    rw [isNumber_of_numberOf hv] at hnot
    cases hnot
  | negative ht hk hv =>
    rw [follow_minus ht.shows.word]
    decide
  | string ht hk | char ht hk | true ht hk | false ht hk | null ht hk =>
    rw [follow_word ht.shows, hk]
    decide

/-- **A rendered expression does not start with the end of a list.** -/
theorem Derives.starts (h : Derives g form e) : (follow e.pieces).isClosing = false := by
  have name {n : String} {ps : List String} (hn : TokenKind.identifier.Spells n) :
      (follow (n :: ps)).isClosing = false := by
    rw [follow_word hn.shows]
    rfl
  have keyword {k : TokenKind} {n : String} {ps : List String} (hk : k.keywordText? = some n)
      (hnot : k.isClosing = false) : (follow (n :: ps)).isClosing = false := by
    rw [follow_word (TokenKind.shows_keyword hk)]
    exact hnot
  induction h with
  | literal hv =>
    have hclosing : ∀ k ∈ [.integer, .real, .minus, .string, .char, TokenKind.trueWord, .falseWord,
        .nullWord], k.isClosing = false := by decide
    exact hclosing _ hv.follow
  | it => exact keyword (k := .itWord) rfl rfl
  | name hn | typeName hn | call hn | conversion hn => exact name hn
  | iif => exact keyword (k := .iifWord) rfl rfl
  | newRecord | newArray => exact keyword (k := .newWord) rfl rfl
  | parens _ ih | target _ ih | operand _ ih | chain _ ih | expression _ ih => exact ih
  | member _ _ ih | callOn _ _ _ ih | index _ _ _ ih | binary _ _ _ _ ih | inList _ _ _ _ ih
  | inSource _ _ _ _ _ ih | conditional _ _ _ ih => exact wrapped_starts _ ih _
  | @unary _ _ _ op =>
    obtain ⟨k, hshows, hop⟩ := op.shows
    rw [Expr.pieces, follow_word hshows]
    cases k <;> first | rfl | cases hop

/-- A leaf that is no number does not start with one. -/
theorem Derives.not_number (h : Derives g form e) (hleaf : e.isLeaf = true)
    (hnot : e.isNumber = false) : follow e.pieces ≠ .integer ∧ follow e.pieces ≠ .real := by
  induction h with
  | literal hv => exact hv.not_number hnot
  | it =>
    rw [Expr.pieces, follow_word (TokenKind.shows_keyword (k := .itWord) rfl)]
    decide
  | name hn | typeName hn =>
    rw [Expr.pieces, follow_word hn.shows]
    decide
  | parens _ ih | target _ ih | operand _ ih | chain _ ih | expression _ ih =>
    exact ih hleaf hnot
  | _ => cases hleaf

/-! ### Without parentheses -/

theorem Expr.needsParens_eq_false {op : BinaryOp} {left : Expr} : needsParens op left = false ↔
    op.level.rank ≤ left.level.rank ∧ ¬ (op = .coalesce ∧ left.level = .coalescing) := by
  simp [needsParens]

/-- What is read from a text that does not start with a parenthesis binds as
strongly as the form tells, and is not rendered with one in front; of a chain,
if its operators bind more strongly than `in`. -/
def Form.Unwrapped (e : Expr) : Form → Prop
  | .expression _ => True
  | .primary _ k | .suffixed _ _ k => k ≠ .openParen →
    e.level = .primary ∧ follow e.pieces ≠ .openParen
  | .unary _ k => k ≠ .openParen →
    Level.unary.rank ≤ e.level.rank ∧ follow e.pieces ≠ .openParen
  | .chain _ _ bound top k => k ≠ .openParen → Level.relational.rank ≤ bound.rank →
    bound.rank < Level.unary.rank →
    bound.rank < e.level.rank ∧ top.rank ≤ e.level.rank ∧ follow e.pieces ≠ .openParen

theorem Derives.unwrapped (h : Derives g form e) : form.Unwrapped e := by
  have name {n : String} {ps : List String} (hn : TokenKind.identifier.Spells n) :
      follow (n :: ps) ≠ .openParen := by
    rw [follow_word hn.shows]
    decide
  have keyword {k : TokenKind} {n : String} {ps : List String} (hk : k.keywordText? = some n) :
      follow (n :: ps) ≠ .openParen := by
    rw [follow_word (TokenKind.shows_keyword hk)]
    rintro rfl
    cases hk
  have suffixed {t : Expr} {qs : List String} (hs : (follow t.pieces).isClosing = false)
      (h : t.level = .primary ∧ follow t.pieces ≠ .openParen) :
      follow (wrapped (t.level != .primary) t.pieces ++ qs) ≠ .openParen := by
    rw [h.1, follow_wrapped _ hs]
    exact h.2
  induction h with
  | literal hv =>
    refine fun _ => ⟨rfl, fun heq => absurd hv.follow ?_⟩
    rw [Expr.pieces] at heq
    rw [heq]
    decide
  | it => exact fun _ => ⟨rfl, keyword (k := .itWord) rfl⟩
  | name hn | typeName hn | call hn | conversion hn => exact fun _ => ⟨rfl, name hn⟩
  | iif => exact fun _ => ⟨rfl, keyword (k := .iifWord) rfl⟩
  | newRecord | newArray => exact fun _ => ⟨rfl, keyword (k := .newWord) rfl⟩
  | parens => exact fun h => absurd rfl h
  | target _ ih => exact ih
  | operand _ ih =>
    intro hk
    obtain ⟨hlevel, hfollow⟩ := ih hk
    rw [hlevel]
    exact ⟨by decide, hfollow⟩
  | member ht _ ih | callOn ht _ _ ih | index ht _ _ ih =>
    exact fun hk => ⟨rfl, suffixed ht.starts (ih hk)⟩
  | @unary _ _ _ op =>
    refine fun _ => ⟨Nat.le_refl _, ?_⟩
    obtain ⟨k, hshows, hop⟩ := op.shows
    rw [Expr.pieces, follow_word hshows]
    rintro rfl
    cases hop
  | chain _ ih =>
    intro hk _ hb
    obtain ⟨hlevel, hfollow⟩ := ih hk
    exact ⟨by omega, hlevel, hfollow⟩
  | @binary _ _ _ b _ _ _ _ op left _ _ hleft hb htop _ ih =>
    intro hk hlow hb'
    obtain ⟨hlevel, hle, hfollow⟩ := ih hk hlow hb'
    have hne : op ≠ .coalesce := by
      rintro rfl
      exact absurd (Nat.lt_of_le_of_lt hlow hb) (by decide)
    have hneeds : Expr.needsParens op left = false :=
      Expr.needsParens_eq_false.mpr ⟨Nat.le_trans htop hle, fun h => absurd h.1 hne⟩
    refine ⟨hb, ?_, ?_⟩
    · rw [BinaryOp.bound, if_neg hne]
      exact Nat.le_refl _
    · rw [Expr.pieces, follow_wrapped _ hleft.starts, hneeds]
      exact hfollow
  | inList _ hb | inSource _ hb => exact fun _ hlow => absurd hb (Nat.not_lt.mpr hlow)
  | expression | conditional => trivial

end QueryExpr
