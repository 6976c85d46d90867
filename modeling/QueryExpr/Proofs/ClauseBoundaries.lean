/-
# Clauses are cut at tokens

The clauses of an ordering are found character by character, its tokens in a way
of their own. If the text has no fault, both agree on it: it is cut at the commas
among its tokens that stand in no brackets.

What keeps the two in step is that a quoted literal is closed where its token
ends; a quote written twice closes it and opens it again.

Key definitions: `Ordering.topCommas`, `Ordering.cuts`.
Key theorems: `Ordering.clausesFrom_literal`, `Ordering.clausesFrom_token`,
`Ordering.clauses_eq_cuts`.
-/
import QueryExpr.Ordering.Split
import QueryExpr.Proofs.ScannedText
import QueryExpr.Proofs.TokenMarks

namespace QueryExpr
namespace Ordering

open Lexeme

variable {c : Char} {cs : List Char} {l : Lexeme} {start depth : Nat} {taken : List Char}

/-- The positions of the commas that stand in no brackets, when `depth` brackets
are open in front of the tokens. -/
def topCommas : (depth : Nat) → List Token → List Nat
  | _, [] => []
  | depth, t :: ts =>
    if t.kind = .comma ∧ depth = 0 then t.span.start :: topCommas 0 ts
    else topCommas (t.kind.deepen depth) ts

theorem topCommas_comma {t : Token} {ts : List Token} (h : t.kind = .comma) :
    topCommas 0 (t :: ts) = t.span.start :: topCommas 0 ts := by
  rw [topCommas, if_pos ⟨h, rfl⟩]

theorem topCommas_other {t : Token} {ts : List Token} {depth : Nat}
    (h : ¬ (t.kind = .comma ∧ depth = 0)) :
    topCommas depth (t :: ts) = topCommas (t.kind.deepen depth) ts := by
  rw [topCommas, if_neg h]

/-- The pieces that the characters from `start` on are cut into at the
positions, each with where it starts. What they are cut at is left out. -/
def cuts (start : Nat) (cs : List Char) : List Nat → List (Nat × List Char)
  | [] => [(start, cs)]
  | p :: ps => (start, cs.take (p - start)) :: cuts (p + 1) (cs.drop (p + 1 - start)) ps

/-! ### Walking over both -/

/-- What does not count belongs to the clause at hand. -/
theorem clausesFrom_plain {bs : List Char} (h : Plain bs) :
    clausesFrom start taken depth none (bs ++ cs) =
      clausesFrom start (bs.reverse ++ taken) depth none cs := by
  induction bs generalizing taken with
  | nil => rfl
  | cons b bs ih =>
    obtain ⟨hb, hbs⟩ := List.forall_mem_cons.mp h
    have hstep : clausesFrom start taken depth none (b :: (bs ++ cs)) =
        clausesFrom start (b :: taken) depth none (bs ++ cs) := by
      simp only [marks, List.mem_cons, List.not_mem_nil, or_false, not_or] at hb
      obtain ⟨h1, h2, h3, h4, h5, h6, h7, h8, h9⟩ := hb
      simp [clausesFrom, h1, h2, h3, h4, h5, h6, h7, h8, h9]
    rw [List.cons_append, hstep, ih hbs, List.reverse_cons, List.append_assoc]
    rfl

/-- A quoted literal belongs to the clause at hand, whatever is in it. -/
theorem clausesFrom_literal {quote : Char} (hq : quote = '"' ∨ quote = '\'') (n : Nat) :
    ∀ {cs value taken}, quotedBody? quote cs = some (value, n) →
      clausesFrom start taken depth (some quote) cs =
        clausesFrom start ((cs.take n).reverse ++ taken) depth none (cs.drop n) := by
  induction n using Nat.strongRecOn with
  | _ n ih =>
    intro cs value taken h
    rcases quotedBody?_cases h with ⟨c, ds, v, k, hc, rfl, hb, rfl, rfl⟩ |
      ⟨ds, v, k, rfl, hb, rfl, rfl⟩ | ⟨ds, rfl, rfl, rfl⟩
    · have hstep : clausesFrom start taken depth (some quote) (c :: ds) =
          clausesFrom start (c :: taken) depth (some quote) ds := by
        simp [clausesFrom, hc]
      rw [hstep, ih k (by omega) hb]
      simp
    · -- the first quote closes the literal, the second one opens it again
      have hstep : clausesFrom start taken depth (some quote) (quote :: quote :: ds) =
          clausesFrom start (quote :: quote :: taken) depth (some quote) ds := by
        simp [clausesFrom, hq]
      rw [hstep, ih k (by omega) hb]
      simp
    · simp [clausesFrom]

/-- A token leaves the clause at hand as it is, unless it is a comma in no
brackets. -/
theorem clausesFrom_token (hl : lexeme c cs = .ok l) (h : ¬ (l.kind = .comma ∧ depth = 0)) :
    clausesFrom start taken depth none (c :: cs) =
      clausesFrom start (((c :: cs).take l.length).reverse ++ taken) (l.kind.deepen depth) none
        ((c :: cs).drop l.length) := by
  cases Scanned.of_lexeme hl with
  | opening hc hlen hk hcomma =>
    rw [hk, hlen]
    simp only [List.mem_cons, List.not_mem_nil, or_false] at hc
    rcases hc with rfl | rfl | rfl <;> simp [clausesFrom]
  | closing hc hlen hk hcomma =>
    rw [hk, hlen]
    simp only [List.mem_cons, List.not_mem_nil, or_false] at hc
    rcases hc with rfl | rfl | rfl <;> simp [clausesFrom]
  | comma hc hlen hk =>
    subst hc
    have h0 : depth ≠ 0 := fun h0 => h ⟨hk, h0⟩
    have hdeepen : l.kind.deepen depth = depth := by
      rw [hk]
      rfl
    rw [hdeepen, hlen]
    simp [clausesFrom, h0]
  | literal hc hbody hlen hk hcomma =>
    have hopen : clausesFrom start taken depth none (c :: cs) =
        clausesFrom start (c :: taken) depth (some c) cs := by
      simp [clausesFrom, hc]
    rw [hk, hlen, hopen, clausesFrom_literal hc _ hbody, List.take_succ_cons,
      List.drop_succ_cons, List.reverse_cons, List.append_assoc]
    rfl
  | solid h hk hcomma => rw [hk, ← clausesFrom_plain h.plain, List.take_append_drop]

/-- A comma in no brackets ends the clause at hand. -/
theorem clausesFrom_comma (start : Nat) (taken : List Char) (hl : lexeme c cs = .ok l)
    (hk : l.kind = .comma) :
    c = ',' ∧ l.length = 1 ∧ clausesFrom start taken 0 none (c :: cs) =
      (start, taken.reverse) :: clausesFrom (start + taken.length + 1) [] 0 none cs := by
  cases Scanned.of_lexeme hl with
  | opening _ _ _ hcomma | closing _ _ _ hcomma | literal _ _ _ _ hcomma | solid _ _ hcomma =>
    exact absurd hk hcomma
  | comma hc hlen _ =>
    subst hc
    exact ⟨rfl, hlen, by simp [clausesFrom]⟩

theorem cuts_at (start : Nat) (as : List Char) (c : Char) (cs : List Char) (ps : List Nat) :
    cuts start (as ++ c :: cs) ((start + as.length) :: ps) =
      (start, as) :: cuts (start + as.length + 1) cs ps := by
  have hpast : start + as.length + 1 - start = (as ++ [c]).length := by
    rw [List.length_append, List.length_singleton]
    omega
  have hfront : as ++ c :: cs = (as ++ [c]) ++ cs := by rw [List.append_assoc]; rfl
  rw [cuts, Nat.add_sub_cancel_left, List.take_left, hpast, hfront, List.drop_left]

theorem blanks_in_front (cs : List Char) : ∃ bs ds, cs = bs ++ ds ∧
    (∀ b ∈ bs, Text.isBlank b = true) ∧ ∀ d ∈ ds.head?, ¬ Text.isBlank d = true := by
  refine ⟨cs.takeWhile Text.isBlank, cs.dropWhile Text.isBlank,
    List.takeWhile_append_dropWhile.symm, fun b hb => List.mem_takeWhile_imp hb, ?_⟩
  intro d hd
  have hne : cs.dropWhile Text.isBlank ≠ [] := by
    intro h
    rw [h] at hd
    cases hd
  have hhead := List.head_dropWhile_not Text.isBlank hne
  rw [List.head?_eq_some_head hne] at hd
  cases hd
  exact Bool.not_eq_true _ ▸ hhead

/-- **The clauses of what is left of a text are cut at its tokens**, if it has no
fault. The induction is on the number of characters left. -/
theorem clausesFrom_eq_cuts (n : Nat) : ∀ {cs : List Char} {start depth stop : Nat}
    {taken : List Char}, cs.length = n →
    (readTokens (start + taken.length) 0 cs).ending = .ok stop →
    clausesFrom start taken depth none cs = cuts start (taken.reverse ++ cs)
      (topCommas depth (readTokens (start + taken.length) 0 cs).list) := by
  induction n using Nat.strongRecOn with
  | _ n ih =>
    intro cs start depth stop taken hn hend
    obtain ⟨bs, ds, rfl, hb, hd⟩ := blanks_in_front cs
    have htaken : start + taken.length + bs.length = start + (bs.reverse ++ taken).length := by
      rw [List.length_append, List.length_reverse]
      omega
    have hfront : taken.reverse ++ (bs ++ ds) = (bs.reverse ++ taken).reverse ++ ds := by
      rw [List.reverse_append, List.reverse_reverse, List.append_assoc]
    rw [readTokens_blanks _ hb, htaken] at hend ⊢
    rw [clausesFrom_plain fun b hb' => not_mark_blank (hb b hb'), hfront]
    rw [List.length_append] at hn
    -- from here on the blanks are part of what is taken
    generalize bs.reverse ++ taken = taken at *
    cases ds with
    | nil =>
      rw [readTokens_nil, List.append_nil]
      rfl
    | cons c ds =>
      cases hl : lexeme c ds with
      | error fault =>
        rw [readTokens_fault _ (hd c rfl) hl] at hend
        cases hend
      | ok l =>
        obtain ⟨m, hm, hle, -⟩ := lexeme_cut hl
        rw [readTokens_lexeme _ (hd c rfl) hl] at hend ⊢
        dsimp only at hend ⊢
        generalize ht : Token.ofLexeme (start + taken.length) (c :: ds) l = t
        have hkind : t.kind = l.kind := by
          rw [← ht]
          rfl
        have hplace : t.span.start = start + taken.length := by
          rw [← ht]
          rfl
        by_cases hcomma : l.kind = .comma ∧ depth = 0
        · obtain ⟨hk, rfl⟩ := hcomma
          obtain ⟨rfl, hlen, hclauses⟩ := clausesFrom_comma start taken hl hk
          rw [topCommas_comma (hkind.trans hk), hplace, hclauses]
          rw [hlen, List.drop_succ_cons, List.drop_zero] at hend ⊢
          have hat := cuts_at start taken.reverse ',' ds
            (topCommas 0 (readTokens (start + taken.length + 1) 0 ds).list)
          rw [List.length_reverse] at hat
          refine Eq.trans ?_ hat.symm
          have hshort : ds.length < n := by
            rw [← hn, List.length_cons]
            omega
          have hrest := @ih ds.length hshort ds (start + taken.length + 1) 0 stop [] rfl hend
          rw [hrest]
          rfl
        · rw [topCommas_other (hkind ▸ hcomma), hkind, clausesFrom_token hl hcomma]
          have hlen : start + taken.length + l.length =
              start + (((c :: ds).take l.length).reverse ++ taken).length := by
            rw [List.length_append, List.length_reverse, List.length_take, List.length_cons]
            omega
          have hchars : taken.reverse ++ c :: ds =
              (((c :: ds).take l.length).reverse ++ taken).reverse ++ (c :: ds).drop l.length := by
            rw [List.reverse_append, List.reverse_reverse, List.append_assoc,
              List.take_append_drop]
          rw [hlen] at hend ⊢
          rw [hchars]
          refine ih _ ?_ rfl hend
          rw [← hn, hm, List.drop_succ_cons, List.length_drop, List.length_cons]
          omega

/-- **The clauses of a text without a fault are cut at its tokens**: at the
commas that stand in no brackets. -/
theorem clauses_eq_cuts {text : List Char} {stop : Nat} (h : (tokens text).ending = .ok stop) :
    clauses text = cuts 0 text (topCommas 0 (tokens text).list) :=
  clausesFrom_eq_cuts _ rfl h

end Ordering
end QueryExpr
