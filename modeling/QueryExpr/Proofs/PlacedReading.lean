/-
# Where expressions are read

The tokens of a stretch of text are in a row. So an expression that is read from
them is laid out in the stretch, and a failure is found there; the parser makes
no span of positions out of order; and on tokens that are all moved to the right
it comes to the same, moved.

Key theorems: `row_tokensIn`, `tokensIn_eq_relocate`, `Expr.ofTokensBy_eq`,
`Expr.relocate_failure`, `Expr.ofTokens_add`, `Expr.fits_of_parseIn`.
-/
import QueryExpr.Proofs.TiledText
import QueryExpr.Proofs.TrackedReading

namespace QueryExpr

variable {f : Nat → Nat} {hi start n : Nat} {text : List Char}

/-! ### Tokens of a stretch -/

theorem Tiling.row {first : Nat} {ts : List Token} {ending : Except Failure Nat}
    (h : Tiling text first hi ts (ending.map .endAt)) : Row hi ending first ts := by
  obtain ⟨hpos, hinside, hapart, -, -, hending, hlast, -⟩ := h
  induction ts generalizing first with
  | nil => cases ending <;> exact hending
  | cons t ts ih =>
    rw [List.pairwise_cons] at hapart
    refine ⟨(hinside t (.head _)).1, hpos t (.head _), ih (fun u hu => hpos u (.tail _ hu))
      (fun u hu => ⟨hapart.1 u hu, (hinside u (.tail _ hu)).2⟩) hapart.2
      ⟨hlast t (.head _), hending.2⟩ fun u hu => hlast u (.tail _ hu)⟩

theorem row_tokensIn (text : List Char) (start stop : Nat) :
    Row (min stop text.length) (tokensIn text start stop).ending (stretchStart text start stop)
      (tokensIn text start stop).list :=
  (Scanner.tiling_tokensIn text start stop).row

theorem tokens_eq_tokensIn (text : List Char) : tokens text = tokensIn text 0 text.length := by
  rw [tokensIn, stretch, stretchStart, List.take_length, Nat.zero_min]
  rfl

/-- Tokens where no position moves stay as they are. -/
theorem Row.relocate_eq {ending : Except Failure Nat} (hf : ∀ p, start ≤ p → p ≤ hi → f p = p) :
    ∀ {a : Nat} {ts : List Token}, start ≤ a → Row hi ending a ts →
      ts.map (Token.relocate f) = ts ∧ relocated f f ending = ending
  | a, [], ha, h => by
    refine ⟨rfl, ?_⟩
    cases ending with
    | ok p => exact congrArg Except.ok (hf p (Nat.le_trans ha h.1) h.2)
    | error failure =>
      have hle := failure.span.start_le_stop
      have hspan : failure.span.relocate f = failure.span :=
        Span.relocate_of_fixed (hf _ (Nat.le_trans ha h.1) (Nat.le_trans hle h.2))
          (hf _ (Nat.le_trans ha (Nat.le_trans h.1 hle)) h.2)
      rw [relocated, Failure.relocate, hspan]
  | a, t :: ts, ha, ⟨hstart, hpos, hrest⟩ => by
    have hle : t.span.start ≤ t.stop := t.span.start_le_stop
    have hstop : start ≤ t.stop := Nat.le_trans ha (Nat.le_trans hstart hle)
    obtain ⟨hts, hending⟩ := Row.relocate_eq hf hstop hrest
    have hspan : t.span.relocate f = t.span :=
      Span.relocate_of_fixed (hf _ (Nat.le_trans ha hstart) (Nat.le_trans hle hrest.le))
        (hf _ hstop hrest.le)
    refine ⟨?_, hending⟩
    rw [List.map_cons, hts, Token.relocate, hspan]

/-- A text that is read from further to the right has the same tokens, moved. -/
theorem readTokens_add (n : Nat) : ∀ (position skip : Nat) (cs : List Char),
    readTokens (position + n) skip cs = (readTokens position skip cs).relocate (· + n)
  | position, skip, [] => by rw [readTokens_nil, readTokens_nil]; rfl
  | position, skip + 1, _ :: cs => by
    rw [readTokens, readTokens, Nat.add_right_comm, readTokens_add n (position + 1) skip cs]
  | position, 0, c :: cs => by
    rw [readTokens, readTokens, Nat.add_right_comm]
    split
    · exact readTokens_add n (position + 1) 0 cs
    · cases lexeme c cs with
      | error fault =>
        show Tokens.mk [] (.error ⟨_, ⟨position + n, _⟩⟩) = _
        rw [Tokens.relocate, relocated, Failure.relocate_add]
        rfl
      | ok l =>
        dsimp only
        rw [readTokens_add n (position + 1), Tokens.relocate, Tokens.relocate, List.map_cons,
          Token.relocate, Span.relocate_add]
        rfl

/-- A stretch has the tokens of its text alone, moved to where it starts. -/
theorem tokensIn_eq_relocate {start stop : Nat} (h : start ≤ stop) (h' : stop ≤ text.length) :
    tokensIn text start stop = (tokens (stretch text start stop)).relocate (· + start) := by
  have hadd := readTokens_add start 0 0 (stretch text start stop)
  rw [Nat.zero_add] at hadd
  rw [tokensIn, stretchStart, Nat.min_eq_left h', Nat.min_eq_left h, hadd, tokens]

/-! ### What the tokens spell -/

namespace Expr

variable {g : Grammar} {ts : Tokens} {e : Expr} {failure : Failure}

/-- The parser comes to the same however it makes the spans between positions
in order: it makes no others. -/
theorem ofTokensBy_eq {bounds : Nat → Nat → Reader Span}
    (hb : ∀ a b, a ≤ b → bounds a b = pure (Span.ofBounds a b)) (g : Grammar)
    (hrow : Row hi ts.ending start ts.list) :
    ofTokensBy bounds g start ts = ofTokens g start ts := by
  have hid : ∀ p, start ≤ p → p ≤ hi → id p = p := fun _ _ _ => rfl
  obtain ⟨heq, hfits⟩ := ofTokensBy_relocate monotone_id hb g hrow
  obtain ⟨hlist, hending⟩ := hrow.relocate_eq hid (Nat.le_refl _)
  rw [Tokens.relocate, hlist, hending] at heq
  rw [id] at heq
  rw [heq]
  cases h : ofTokens g start ts with
  | error failure =>
    rw [relocated, Failure.relocate, Span.relocate_of_fixed rfl rfl]
  | ok e => rw [relocated, (hfits e h).relocate_eq hid]

/-- A failure that a map of positions does not move. -/
theorem relocate_failure (hf : Monotone f) (hfixed : ∀ p, start ≤ p → p ≤ hi → f p = p)
    (hrow : Row hi ts.ending start ts.list) (h : ofTokens g start ts = .error failure) :
    failure.relocate f = failure := by
  have heq := (ofTokensBy_relocate hf (fun _ _ _ => rfl) g hrow).1
  obtain ⟨hlist, hending⟩ := hrow.relocate_eq hfixed (Nat.le_refl _)
  have hstart : f start = start := hfixed start (Nat.le_refl _) hrow.le
  rw [Tokens.relocate, hlist, hending, hstart] at heq
  rw [ofTokensBy_eq (fun _ _ _ => rfl) g hrow, h] at heq
  exact (Except.error.inj heq).symm

/-- On tokens moved to the right the parser comes to the same, moved. -/
theorem ofTokens_add {hi' : Nat} (g : Grammar) (n : Nat) (hrow : Row hi ts.ending start ts.list)
    (hrow' : Row hi' (ts.relocate (· + n)).ending (start + n) (ts.relocate (· + n)).list) :
    ofTokens g (start + n) (ts.relocate (· + n)) =
      relocated (· + n) (shift n) (ofTokens g start ts) := by
  have heq := (ofTokensBy_relocate (monotone_add n) (fun _ _ _ => rfl) g hrow).1
  rw [ofTokensBy_eq (fun _ _ _ => rfl) g hrow'] at heq
  exact heq

theorem fits_of_parseIn {start stop : Nat} (h : parseIn g text start stop = .ok e) :
    e.Fits (stretchStart text start stop) (min stop text.length) :=
  (ofTokensBy_relocate monotone_id (fun _ _ _ => rfl) g (row_tokensIn text start stop)).2 e h

end Expr
end QueryExpr
