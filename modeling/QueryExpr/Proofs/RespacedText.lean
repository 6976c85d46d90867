/-
# Texts with other blanks between their tokens

Where a token ends may depend on what is behind it, but not on whether a blank is: the
text of a token is that token alone, and in front of a blank. So a text has the same
tokens, up to their places, as these tokens written with single blanks between them, and
reading makes the same of both (`tokens_respaced`).

That reading makes the same of tokens that differ in their places is a case of moving
them: all places may be moved to one.

Key definitions: `Token.content`, `Expr.outcome`.
Key theorems: `Token.Genuine.readTokens_eq`, `content_spaced`, `Expr.relocate_zero`,
`Expr.outcome_congr`, `tokens_respaced`.
-/
import QueryExpr.Proofs.PlacedReading
import QueryExpr.Proofs.RenderedTokens
import QueryExpr.Proofs.ScannedText

namespace QueryExpr

open Lexeme

variable {t : Token} {ts us : List Token} {text rest : List Char} {stop position : Nat}

/-! ### Tokens without their places -/

/-- What a token is without its place: its kind, what it stands for and how it is
written. -/
def Token.content (t : Token) : TokenKind × String × String := (t.kind, t.value, t.written)

/-- A token whose place is moved to the start. -/
theorem Token.relocate_zero_congr {u : Token} (h : t.content = u.content) :
    t.relocate (fun _ => 0) = u.relocate (fun _ => 0) := by
  obtain ⟨k, s, v, w⟩ := t
  obtain ⟨k', s', v', w'⟩ := u
  obtain ⟨rfl, rfl, rfl⟩ : k = k' ∧ v = v' ∧ w = w' := by simpa [content] using h
  rfl

theorem relocate_zero_congr (h : ts.map Token.content = us.map Token.content) :
    ts.map (Token.relocate fun _ => 0) = us.map (Token.relocate fun _ => 0) := by
  induction ts generalizing us with
  | nil => rw [List.map_eq_nil_iff.mp h.symm]
  | cons t ts ih =>
    obtain ⟨u, us, rfl, htu, hrest⟩ := List.map_eq_cons_iff.mp h.symm
    rw [List.map_cons, List.map_cons, Token.relocate_zero_congr htu.symm, ih hrest.symm]

/-! ### Tokens in front of a blank -/

/-- A token is read from its text in front of a blank, and then what is behind it. -/
theorem Token.Genuine.readTokens_eq (h : t.Genuine) (position : Nat) (hr : Apart rest) :
    readTokens position 0 (t.written.toList ++ rest) =
      ⟨⟨t.kind, ⟨position, t.written.toList.length⟩, t.value, t.written⟩ ::
          (readTokens (position + t.written.toList.length) 0 rest).list,
        (readTokens (position + t.written.toList.length) 0 rest).ending⟩ := by
  unfold Genuine at h
  cases hw : t.written.toList with
  | nil =>
    rw [hw] at h
    cases h
  | cons c cs =>
    rw [hw] at h
    obtain ⟨hb, hlex⟩ := whole?_cons h
    obtain ⟨n, hn, -, hcut⟩ := lexeme_cut hlex
    obtain rfl : cs.length = n := Nat.succ.inj hn
    have hlex' := hcut rest hr
    rw [List.take_length] at hlex'
    have htake : (c :: (cs ++ rest)).take (cs.length + 1) = c :: cs := by
      rw [List.take_succ_cons, List.take_left]
    have hdrop : (c :: (cs ++ rest)).drop (cs.length + 1) = rest := by
      rw [List.drop_succ_cons, List.drop_left]
    rw [List.cons_append, readTokens_lexeme position hb hlex', ofLexeme]
    dsimp only
    rw [htake, hdrop, ← hw, String.ofList_toList, String.ofList_toList, hw, List.length_cons]

/-- Tokens written with blanks between them are read again. -/
theorem content_spaced : ∀ {ts : List Token} (position : Nat), (∀ t ∈ ts, t.Genuine) →
    (readTokens position 0 (spaced (ts.map Token.written))).list.map Token.content =
        ts.map Token.content ∧
      ∃ stop, (readTokens position 0 (spaced (ts.map Token.written))).ending = .ok stop
  | [], position, _ => ⟨rfl, position, rfl⟩
  | [t], position, h => by
    have hread := (h t List.mem_cons_self).readTokens_eq position apart_nil
    rw [List.append_nil, readTokens_nil] at hread
    rw [List.map_singleton, spaced, hread]
    exact ⟨rfl, _, rfl⟩
  | t :: u :: ts, position, h => by
    obtain ⟨ht, hrest⟩ := List.forall_mem_cons.mp h
    have hread := ht.readTokens_eq position (apart_blank (spaced ((u :: ts).map Token.written)))
    rw [readTokens_blank] at hread
    obtain ⟨hlist, hending⟩ :=
      content_spaced (position + t.written.toList.length + 1) hrest
    have hspaced : spaced ((t :: u :: ts).map Token.written) =
        t.written.toList ++ ' ' :: spaced ((u :: ts).map Token.written) := rfl
    rw [hspaced, hread]
    refine ⟨?_, hending⟩
    rw [List.map_cons, hlist]
    rfl

/-! ### Expressions without their places -/

namespace Expr

mutual
/-- An expression whose parts are all moved to the start has no places left. -/
theorem relocate_zero : ∀ e : Expr, e.relocate (fun _ => 0) = e.bare
  | .literal _ _ _ | .name _ | .typeName _ => rfl
  | .member e _ _ => by rw [relocate, bare, relocate_zero e]; rfl
  | .index e es _ => by rw [relocate, bare, relocate_zero e, relocateAll_zero es]; rfl
  | .call _ es _ => by rw [relocate, bare, relocateAll_zero es]; rfl
  | .callOn e _ es _ => by rw [relocate, bare, relocate_zero e, relocateAll_zero es]; rfl
  | .conversion _ es _ => by rw [relocate, bare, relocateAll_zero es]; rfl
  | .unary _ e _ => by rw [relocate, bare, relocate_zero e]; rfl
  | .binary _ l r _ => by rw [relocate, bare, relocate_zero l, relocate_zero r]; rfl
  | .conditional c a b _ => by
    rw [relocate, bare, relocate_zero c, relocate_zero a, relocate_zero b]
    rfl
  | .inList e es _ => by rw [relocate, bare, relocate_zero e, relocateAll_zero es]; rfl
  | .inSource e source _ => by rw [relocate, bare, relocate_zero e, relocate_zero source]; rfl
  | .newRecord _ es _ => by rw [relocate, bare, relocateAll_zero es]; rfl
  | .newArray _ es _ => by rw [relocate, bare, relocateAll_zero es]; rfl

theorem relocateAll_zero : ∀ es : List Expr, relocateAll (fun _ => 0) es = bareAll es
  | [] => rfl
  | e :: es => by rw [relocateAll, bareAll, relocate_zero e, relocateAll_zero es]
end

/-- What a text spells, or what is wrong with it, without the places. -/
def outcome (g : Grammar) (text : List Char) : Except Cause Expr :=
  ((parse g text).mapError Failure.cause).map bare

theorem bare_of_relocate_zero {x y : Except Failure Expr}
    (h : relocated (fun _ => 0) (relocate fun _ => 0) x =
      relocated (fun _ => 0) (relocate fun _ => 0) y) :
    (x.mapError Failure.cause).map bare = (y.mapError Failure.cause).map bare := by
  cases x with
  | error f =>
    cases y with
    | error f' => exact congrArg (Except.error ·.cause) (Except.error.inj h)
    | ok e' => cases h
  | ok e =>
    cases y with
    | error f' => cases h
    | ok e' =>
      have hbare : e.bare = e'.bare := by
        rw [← relocate_zero, ← relocate_zero]
        exact Except.ok.inj h
      exact congrArg Except.ok hbare

/-- **Reading makes the same of texts with the same tokens**, up to the places. -/
theorem outcome_congr {text' : List Char} {stop' : Nat} (g : Grammar)
    (hok : (tokens text).ending = .ok stop) (hok' : (tokens text').ending = .ok stop')
    (h : (tokens text).list.map Token.content = (tokens text').list.map Token.content) :
    outcome g text = outcome g text' := by
  -- all places are moved to the start
  have moved (text : List Char) : relocated (fun _ => 0) (relocate fun _ => 0) (parse g text) =
      ofTokensBy (fun a b => pure (Span.ofBounds a b)) g 0 ((tokens text).relocate fun _ => 0) := by
    have hrow := tokens_eq_tokensIn text ▸ row_tokensIn text 0 text.length
    have hstart : stretchStart text 0 text.length = 0 := Nat.zero_min _
    have heq := (ofTokensBy_relocate (f := fun _ => 0) monotone_const (fun _ _ _ => rfl) g hrow).1
    rw [hstart] at heq
    exact heq.symm
  have htokens : (tokens text).relocate (fun _ => 0) = (tokens text').relocate (fun _ => 0) := by
    rw [Tokens.relocate, Tokens.relocate, relocate_zero_congr h, hok, hok']
    rfl
  refine bare_of_relocate_zero ?_
  rw [moved, moved, htokens]

end Expr

/-! ### Blanks between tokens -/

/-- **Tokens do not depend on the blanks around them.** A text without a fault has the same
tokens as these tokens written with single blanks between them, each of them is the one
token of its text, and reading makes the same of both texts, up to the places. -/
theorem tokens_respaced (hok : (tokens text).ending = .ok stop) :
    (∃ stop', (tokens (spaced ((tokens text).list.map Token.written))).ending = .ok stop') ∧
    (tokens (spaced ((tokens text).list.map Token.written))).list.map Token.content =
      (tokens text).list.map Token.content ∧
    (∀ t ∈ (tokens text).list, tokens t.written.toList =
      ⟨[{ t with span := ⟨0, t.written.length⟩ }], .ok t.written.length⟩) ∧
    ∀ g, Expr.outcome g (spaced ((tokens text).list.map Token.written)) = Expr.outcome g text := by
  have hgenuine : ∀ t ∈ (tokens text).list, t.Genuine := genuine_readTokens 0 0 text
  obtain ⟨hcontent, stop', hok'⟩ := content_spaced 0 hgenuine
  refine ⟨⟨stop', hok'⟩, hcontent, fun t ht => ?_, fun g => Expr.outcome_congr g hok' hok hcontent⟩
  have hread := (hgenuine t ht).readTokens_eq 0 apart_nil
  rw [List.append_nil, readTokens_nil, Nat.zero_add, String.length_toList] at hread
  exact hread

/-- A number in front of a member access, a doubled quote, a suffix and a sign of two
characters, without a blank between them. -/
theorem tokens_respaced_dense :
    (tokens "1.ToString()+'a''b'>=0x1FuL".toList).ending = .ok 27 ∧
    Expr.outcome ⟨9, fun _ => false⟩ "1 . ToString ( ) + 'a''b' >= 0x1FuL".toList =
      Expr.outcome ⟨9, fun _ => false⟩ "1.ToString()+'a''b'>=0x1FuL".toList := by
  have hok : (tokens "1.ToString()+'a''b'>=0x1FuL".toList).ending = .ok 27 := by decide +kernel
  have hspaced : spaced ((tokens "1.ToString()+'a''b'>=0x1FuL".toList).list.map Token.written) =
      "1 . ToString ( ) + 'a''b' >= 0x1FuL".toList := by decide +kernel
  have hall := (tokens_respaced hok).2.2.2 ⟨9, fun _ => false⟩
  rw [hspaced] at hall
  exact ⟨hok, hall⟩

end QueryExpr
