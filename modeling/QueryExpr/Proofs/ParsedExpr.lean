/-
# What texts spell

Every expression that the parser reads has a derivation. Each step of the
parser is followed from the cursors it may start at, with so many tokens ahead
and so much room left below the limit; a step that fails comes to nothing.

Key definitions: `Reader.Derived`.
Key theorems: `Reader.derived_expression`, `Expr.derives_of_parse`,
`Expr.regular_of_parse`.
-/
import QueryExpr.Proofs.Derivation
import QueryExpr.Proofs.ReadingOutcomes

namespace QueryExpr

theorem Token.Genuine.named {t : Token} (h : t.Genuine) (hk : t.kind.isNameLike = true) :
    Named t.value := ⟨t.kind, hk, (h.spells (.inr (.inr hk))).2⟩

namespace Reader

open Step (Ensures ensures_pure)
open Cursor (At)

variable {g : Grammar} {N n r q : Nat} {k : TokenKind} {t : Token}

/-! ### Literals -/

section
variable (ht : t.kind ≠ .endOfText)
include ht

/-- Reading a literal from the token at hand passes the token. -/
theorem ensures_literal {v : Literal} (hv : v.Spelled t.written) :
    Ensures (fun c => c.At g n r q ∧ c.current = t) (literal v)
      fun e d => Derives g (.primary r k) e ∧ d.At g (n - 1) r q :=
  ensuresAt_current ((ensures_advance ht).andThen fun _ _ => ensures_pure fun _ hd =>
    ⟨.literal hv, hd⟩)

theorem ensures_character (hg : t.Genuine) (hk : t.kind = .char) :
    Ensures (fun c => c.At g n r q ∧ c.current = t) character
      fun e d => Derives g (.primary r k) e ∧ d.At g (n - 1) r q := by
  refine ensuresAt_current ?_
  split
  · rename_i x hx
    exact ensures_literal ht (.char hg hk hx)
  · exact ensures_fail _ _ _

omit ht in
/-- A number is what a token spells, behind a minus sign or not. -/
theorem ensures_number (hg : t.Genuine) (hk : t.kind = .integer ∨ t.kind = .real)
    (minus : Option Nat) :
    Ensures (fun c => c.At g n r q ∧ c.current = t) (number minus)
      fun e d => Derives g (.primary r k) e ∧ d.At g (n - 1) r q := by
  have hne : t.kind ≠ .endOfText := by rcases hk with hk | hk <;> rw [hk] <;> decide
  have hvalue : t.value = t.written := (hg.spells (or_assoc.mp (.inl hk))).1
  refine ensuresAt_current ?_
  dsimp only
  split
  · exact ensures_fail _ _ _
  · rename_i v hv
    refine (ensures_advance hne).andThen fun _ _ => ensures_pure fun d hd => ⟨.literal ?_, hd⟩
    cases minus with
    | none => exact hvalue ▸ .number hg hk hv
    | some start => exact hvalue ▸ .negative hg hk hv

end

/-! ### Names, calls and constructions -/

/-- With less than `N` tokens ahead the reader reads expressions with a
derivation, and passes a token. -/
def Derived (g : Grammar) (N : Nat) (expr : Reader Expr) : Prop :=
  ∀ n ≤ N, ∀ r q, Ensures (At g n r q) expr
    fun e d => Derives g (.expression r) e ∧ d.At g (n - 1) r q

section
variable {expr : Reader Expr} (he : Derived g N expr) (fuel : Nat)
include he

theorem Derived.leaves (hn : n ≤ N) : Leaves (At g n r q) expr (Derives g (.expression r)) :=
  (he n hn r q).mono fun _ _ h => ⟨h.1, h.2.mono (Nat.sub_le n 1)⟩

theorem Derived.arguments (hn : n ≤ N) (close : TokenKind) :
    Leaves (At g n r q) (listUpTo close expr fuel)
      fun es => ∀ e ∈ es, Derives g (.expression r) e :=
  leaves_listUpTo close (he.leaves hn) fuel

variable (hg : t.Genuine) (hn : n ≤ N + 1)
include hg hn

theorem ensures_named (hk : t.kind = .identifier) :
    Ensures (fun c => c.At g n r q ∧ c.current = t) (named g expr fuel)
      fun e d => Derives g (.primary r .identifier) e ∧ d.At g (n - 1) r q := by
  have hne : t.kind ≠ .endOfText := by rw [hk]; decide
  have hs : TokenKind.identifier.Spells t.value := hk ▸ (hg.spells (by rw [hk]; decide)).2
  have hn : n - 1 ≤ N := by omega
  refine ensuresAt_name ((ensures_advance hne).andThen fun _ _ => ensures_kind fun t' =>
    Ensures.from ?_ fun _ h => h.1)
  dsimp only
  split
  · rename_i known hknown
    split
    · refine leaves_advance.andThen fun _ _ => (he.arguments fuel hn _).andThen fun es hes => ?_
      exact ensures_spanFrom fun s => ensures_pure fun d hd => ⟨.conversion hs hknown hes, hd⟩
    · exact ensures_pure fun d hd => ⟨.typeName hs hknown, hd⟩
  · rename_i hunknown
    split
    · refine leaves_advance.andThen fun _ _ => (he.arguments fuel hn _).andThen fun es hes => ?_
      exact ensures_spanFrom fun s => ensures_pure fun d hd => ⟨.call hs hunknown hes, hd⟩
    · exact ensures_pure fun d hd => ⟨.name hs hunknown, hd⟩

omit hg in
theorem ensures_iif (hne : t.kind ≠ .endOfText) :
    Ensures (fun c => c.At g n r q ∧ c.current = t) (iif expr fuel)
      fun e d => Derives g (.primary r .iifWord) e ∧ d.At g (n - 1) r q := by
  have hn : n - 1 ≤ N := by omega
  refine ensuresAt_current ((ensures_advance hne).andThen fun _ _ => ?_)
  refine (leaves_expect _).andThen fun _ _ => (he.arguments fuel hn _).andThen fun es hes => ?_
  exact ensures_spanFrom fun s => ensures_pure fun d hd => ⟨.iif hes, hd⟩

omit hg hn in
/-- Each value of a projection has a name. -/
theorem leaves_projection (hn : n ≤ N) : Leaves (At g n r q) (projection expr)
    fun x => Named x.1.text ∧ Derives g (.expression r) x.2 := by
  refine ensures_kind fun t => ensures_get fun _ => Ensures.from ?_ fun _ h => h.1
  split
  · rename_i hk
    have hk : t.kind.isNameLike = true := (Bool.and_eq_true_iff.mp hk).1
    refine ensures_genuine (TokenKind.isNameLike_ne hk) fun hg => ensuresAt_name ?_
    refine Ensures.from ?_ fun _ h => h.1
    refine leaves_advance.andThen fun _ _ => leaves_advance.andThen fun _ _ => ?_
    exact (he.leaves hn).andThen fun e h => ensures_pure fun c hc => ⟨⟨hg.named hk, h⟩, hc⟩
  · refine Ensures.from ((he.leaves hn).andThen fun e h => ensures_kind fun t' =>
      Ensures.from ?_ fun _ h => h.1) fun _ h => h.1
    split
    · have rest {t' : Token} (hk : t'.kind.isNameLike = true) :
          Ensures (fun c => c.At g n r q ∧ c.current = t') (do
            let n ← name
            advance
            return (n, e))
          fun x d => (Named x.1.text ∧ Derives g (.expression r) x.2) ∧ d.At g n r q := by
        refine ensures_genuine (TokenKind.isNameLike_ne hk) fun hg => ensuresAt_name ?_
        refine Ensures.from (leaves_advance.andThen fun _ _ => ensures_pure fun c hc => ?_)
          fun _ h => h.1
        exact ⟨⟨hg.named hk, h⟩, hc⟩
      refine leaves_advance.andThen fun _ _ => ensures_kind fun t' => ?_
      dsimp only
      split
      · exact Ensures.from (ensures_current fun _ => ensures_fail_bind _ _ _) fun _ h => h.1
      · rename_i hk
        exact rest (by simpa using hk)
    · split
      · rename_i text htext
        exact ensures_pure fun c hc => ⟨⟨h.named htext, h⟩, hc⟩
      · exact ensures_fail _ _ _

omit hg hn in
theorem leaves_newRecord (hn : n ≤ N) (start : Nat) (close : TokenKind) :
    Leaves (At g n r q) (newRecord expr fuel start close) (Derives g (.primary r .newWord)) := by
  refine (leaves_listUpTo close (leaves_projection he hn) fuel).andThen fun xs hxs => ?_
  refine ensures_spanFrom fun s => ensures_pure fun c hc => ⟨.newRecord (by simp) ?_ ?_, hc⟩
  · intro n hn
    obtain ⟨x, hx, rfl⟩ := List.mem_map.mp hn
    exact (hxs x hx).1
  · intro e he
    obtain ⟨x, hx, rfl⟩ := List.mem_map.mp he
    exact (hxs x hx).2

omit hg hn in
theorem leaves_newArray (hn : n ≤ N) (start : Nat) {type : Option TypeName}
    (htype : ∀ t ∈ type, TypeName.Elementary t) :
    Leaves (At g n r q) (newArray expr fuel start type) (Derives g (.primary r .newWord)) := by
  refine (leaves_expect _).andThen fun _ _ => (he.arguments fuel hn _).andThen fun es hes => ?_
  exact ensures_spanFrom fun s => ensures_pure fun c hc => ⟨.newArray htype hes, hc⟩

omit hg in
theorem ensures_construction (hne : t.kind ≠ .endOfText) :
    Ensures (fun c => c.At g n r q ∧ c.current = t) (construction expr fuel)
      fun e d => Derives g (.primary r .newWord) e ∧ d.At g (n - 1) r q := by
  have hn : n - 1 ≤ N := by omega
  refine ensuresAt_current ((ensures_advance hne).andThen fun _ _ => ensures_current fun t' => ?_)
  split
  · refine Ensures.from ?_ fun _ h => h.1
    exact leaves_advance.andThen fun _ _ => leaves_newRecord he fuel hn _ _
  · refine Ensures.from ?_ fun _ h => h.1
    exact leaves_advance.andThen fun _ _ => leaves_newRecord he fuel hn _ _
  · refine Ensures.from ?_ fun _ h => h.1
    refine leaves_advance.andThen fun _ _ => (leaves_expect _).andThen fun _ _ => ?_
    exact leaves_newArray he fuel hn _ fun _ h => by cases h
  · rename_i hk
    split
    · rename_i p hp
      refine ensures_genuine (by rw [hk]; decide) fun hg => Ensures.from ?_ fun _ h => h.1
      have htype : ∀ T ∈ some (⟨⟨t'.value, t'.span⟩, .prim p⟩ : TypeName),
          TypeName.Elementary T := by
        intro T hT
        cases hT
        exact ⟨hk ▸ (hg.spells (by rw [hk]; decide)).2, p, rfl, hp⟩
      refine leaves_advance.andThen fun _ _ => ensures_kind fun _ => Ensures.from ?_ fun _ h => h.1
      dsimp only
      split
      · refine leaves_advance.andThen fun _ _ => (leaves_expect _).andThen fun _ _ => ?_
        exact leaves_newArray he fuel hn _ htype
      · exact leaves_newArray he fuel hn _ htype
    · exact ensures_fail _ _ _
  · exact ensures_fail _ _ _

/-! ### From primary expressions to conditionals -/

omit hg in
theorem ensures_primary : Ensures (fun c => c.At g n r q ∧ c.current = t) (primary g expr fuel)
    fun e d => Derives g (.primary r t.kind) e ∧ d.At g (n - 1) r q := by
  refine ensuresAt_current ?_
  generalize hk : t.kind = k
  have hne : k ≠ .endOfText → t.kind ≠ .endOfText := fun h => hk ▸ h
  split
  case h_1 =>
    exact ensures_genuine (hne (by decide)) fun hg => ensures_number hg (.inl hk) none
  case h_2 =>
    exact ensures_genuine (hne (by decide)) fun hg => ensures_number hg (.inr hk) none
  case h_3 =>
    exact ensures_genuine (hne (by decide)) fun hg =>
      ensures_literal (hne (by decide)) (.string hg hk)
  case h_4 =>
    exact ensures_genuine (hne (by decide)) fun hg => ensures_character (hne (by decide)) hg hk
  case h_5 =>
    exact ensures_genuine (hne (by decide)) fun hg =>
      ensures_literal (hne (by decide)) (.true hg hk)
  case h_6 =>
    exact ensures_genuine (hne (by decide)) fun hg =>
      ensures_literal (hne (by decide)) (.false hg hk)
  case h_7 =>
    exact ensures_genuine (hne (by decide)) fun hg =>
      ensures_literal (hne (by decide)) (.null hg hk)
  case h_8 =>
    exact (ensures_advance (hne (by decide))).andThen fun _ _ => ensures_pure fun d hd => ⟨.it, hd⟩
  case h_9 => exact ensures_iif he fuel hn (hne (by decide))
  case h_10 => exact ensures_construction he fuel hn (hne (by decide))
  case h_11 =>
    have hn : n - 1 ≤ N := by omega
    refine (ensures_advance (hne (by decide))).andThen fun _ _ =>
      (he.leaves hn).andThen fun e h => ?_
    exact (leaves_expect _).andThen fun _ _ => ensures_pure fun d hd => ⟨.parens h, hd⟩
  case h_12 => exact ensures_genuine (hne (by decide)) fun hg => ensures_named he fuel hg hn hk
  case h_13 => exact ensures_unexpected _

end

section
variable {expr : Reader Expr} (he : Derived g N expr) (hn : n ≤ N) {target : Expr}
include he hn

theorem leaves_memberSuffix (fuel : Nat) {r' : Nat}
    (ht : Derives g (.suffixed r (r' + 1) k) target) :
    Leaves (At g n r' q) (memberSuffix expr fuel target) (Derives g (.suffixed r r' k)) := by
  have rest {t' : Token} (hk : t'.kind.isNameLike = true) :
      Ensures (fun c => c.At g n r' q ∧ c.current = t') (do
        let n ← name
        advance
        if (← kind) == .openParen then
          advance
          let arguments ← listUpTo .closeParen expr fuel
          return .callOn target n arguments (← spanFrom target.span.start)
        else return .member target n (.ofBounds target.span.start n.span.stop))
      fun e d => Derives g (.suffixed r r' k) e ∧ d.At g n r' q := by
    refine ensures_genuine (TokenKind.isNameLike_ne hk) fun hg => ensuresAt_name ?_
    refine Ensures.from ?_ fun _ h => h.1
    refine leaves_advance.andThen fun _ _ => ensures_kind fun _ => Ensures.from ?_ fun _ h => h.1
    split
    · refine leaves_advance.andThen fun _ _ => (he.arguments fuel hn _).andThen fun es hes => ?_
      exact ensures_spanFrom fun s => ensures_pure fun d hd =>
        ⟨.callOn ht (hg.named hk) hes, hd⟩
    · exact ensures_pure fun d hd => ⟨.member ht (hg.named hk), hd⟩
  refine leaves_advance.andThen fun _ _ => ensures_kind fun t' => ?_
  dsimp only
  split
  · exact Ensures.from (ensures_current fun _ => ensures_fail_bind _ _ _) fun _ h => h.1
  · rename_i hk
    exact rest (by simpa using hk)

theorem leaves_indexSuffix (fuel : Nat) {r' : Nat}
    (ht : Derives g (.suffixed r (r' + 1) k) target) :
    Leaves (At g n r' q) (indexSuffix expr fuel target) (Derives g (.suffixed r r' k)) := by
  refine ensures_current fun t' => Ensures.from ?_ fun _ h => h.1
  refine leaves_advance.andThen fun _ _ => (he.arguments fuel hn _).andThen fun es hes => ?_
  dsimp only
  split
  · exact ensures_fail_bind _ _ _
  · rename_i hempty
    have hes0 : es ≠ [] := by
      rintro rfl
      exact hempty rfl
    exact ensures_spanFrom fun s => ensures_pure fun d hd => ⟨.index ht hes0 hes, hd⟩

end

/-- Each suffix takes one level of the room at the start of the chain. -/
theorem ensures_suffixChain {expr : Reader Expr} (he : Derived g N expr) (hn : n ≤ N) :
    ∀ (fuel : Nat) {l : Nat} {target : Expr}, Derives g (.suffixed r l k) target → l ≤ r →
      Ensures (At g n l (r - l)) (suffixChain g expr fuel target) fun e d =>
        ∃ l, l ≤ r ∧ (∃ l, Derives g (.suffixed r l k) e) ∧ d.At g n l (r - l)
  | 0, l, _, ht, hl => ensures_pure fun c hc => ⟨l, hl, ⟨l, ht⟩, hc⟩
  | fuel + 1, l, target, ht, hl => by
    -- behind a suffix that took a level the chain goes on
    have link {m : Reader Expr} (hm : ∀ l', l = l' + 1 →
        Leaves (At g n l' (r - l')) m (Derives g (.suffixed r l' k))) :
        Ensures (At g n l (r - l)) (charge g.limit >>= fun _ => m >>= suffixChain g expr fuel)
          fun e d => ∃ l, l ≤ r ∧ (∃ l, Derives g (.suffixed r l k) e) ∧ d.At g n l (r - l) := by
      refine ensures_charge fun l' hl' => ?_
      have hq : r - l + 1 = r - l' := by omega
      rw [hq]
      exact (hm l' hl').andThen fun e h => ensures_suffixChain he hn fuel h (by omega)
    refine ensures_kind fun t => Ensures.from ?_ fun _ h => h.1
    split
    · exact link fun l' hl' => leaves_memberSuffix he hn fuel (hl' ▸ ht)
    · exact link fun l' hl' => leaves_indexSuffix he hn fuel (hl' ▸ ht)
    · exact ensures_current fun _ => ensures_fail _ _ _
    · exact ensures_pure fun c hc => ⟨l, hl, ⟨l, ht⟩, hc⟩

theorem leaves_suffixes {expr : Reader Expr} (he : Derived g N expr) (hn : n ≤ N) (fuel : Nat)
    {e : Expr} (h : Derives g (.primary r k) e) :
    Leaves (At g n r q) (suffixes g expr fuel e) (Derives g (.unary r k)) := by
  have chain := ensures_suffixChain he hn fuel (Derives.target h) (Nat.le_refl r)
  rw [Nat.sub_self] at chain
  intro c hc x d heq
  have := ensures_charging (Q := Derives g (.unary r k)) (p := fun _ => True) (t := c.current)
    ((chain.from fun _ h => h.1).mono fun x d h => by
      obtain ⟨l, hl, ⟨l', hx⟩, hd⟩ := h
      exact ⟨l, hl, .operand hx, trivial, hd⟩) c ⟨hc, rfl⟩ x d heq
  exact ⟨this.1, this.2.2⟩

theorem ensures_operand {expr : Reader Expr} (he : Derived g N expr) (hn : n ≤ N + 1) (fuel : Nat) :
    Ensures (fun c => c.At g n r q ∧ c.current = t) (primary g expr fuel >>= suffixes g expr fuel)
      fun e d => Derives g (.unary r t.kind) e ∧ d.At g (n - 1) r q :=
  (ensures_primary he fuel hn).andThen fun _ h => leaves_suffixes he (by omega) fuel h

theorem ensures_unary {expr : Reader Expr} (he : Derived g N expr) :
    ∀ (fuel : Nat) {n r : Nat} {t : Token}, n ≤ N + 1 →
      Ensures (fun c => c.At g n r q ∧ c.current = t) (unary g expr fuel)
        fun e d => Derives g (.unary r t.kind) e ∧ d.At g (n - 1) r q
  | 0, n, r, t, hn => ensures_operand he hn 0
  | fuel + 1, n, r, t, hn => by
    refine ensuresAt_current ?_
    split
    · exact ensures_operand he hn fuel
    · rename_i op hop
      have hne : t.kind ≠ .endOfText := by
        intro h
        rw [h] at hop
        cases hop
      refine ensures_get fun c => ?_
      dsimp only
      split
      · -- the number behind the minus sign is known before the sign is passed
        rename_i hnext
        have hnext : c.next? = some .integer ∨ c.next? = some .real := by
          simpa using (Bool.and_eq_true_iff.mp hnext).2
        refine (ensures_advance_to (p := True) (I := fun d => d.At g (n - 1) r q ∧
          (d.current.kind = .integer ∨ d.current.kind = .real)) fun d h => ?_).andThen fun _ _ => ?_
        · obtain ⟨⟨hd, hcur⟩, rfl⟩ := h
          exact ⟨trivial, hd.passed (hcur ▸ hne),
            hnext.imp Cursor.kind_of_next? Cursor.kind_of_next?⟩
        · intro d hd
          have hg : d.current.Genuine := hd.1.genuine_current (by
            rcases hd.2 with h | h <;> rw [h] <;> decide)
          refine (ensures_number (k := t.kind) hg hd.2 _).andThen (fun e h => ?_) d ⟨hd.1, rfl⟩
          exact (leaves_suffixes he (by omega) fuel h).mono fun e d h =>
            ⟨h.1, h.2.mono (Nat.sub_le _ _)⟩
      · refine Ensures.from ?_ fun _ h => h.1
        refine (ensures_advance hne).andThen fun _ _ => ?_
        refine (ensures_within (j := n - 1) (p := fun _ => True)
          (Q := fun r' e => ∃ k, Derives g (.unary r' k) e) fun r' _ c hc e d heq => ?_).andThen
          fun e h => ensures_pure fun d hd => ?_
        · obtain ⟨h, hd⟩ := ensures_unary he fuel (by omega) c ⟨hc, rfl⟩ e d heq
          exact ⟨⟨_, h⟩, trivial, hd.mono (Nat.sub_le _ _)⟩
        · obtain ⟨r', rfl, k', h⟩ := h
          exact ⟨.unary hop h, hd.2⟩

/-! ### Chains of operators -/

mutual
/-- A chain of operators ends where none follows that binds more strongly. -/
theorem ensures_climb {expr : Reader Expr} (he : Derived g N expr) :
    ∀ (fuel : Nat) {bound : Level} {n r q : Nat} {t : Token}, n ≤ N + 1 → n ≤ fuel + 1 →
      Ensures (fun c => c.At g n r q ∧ c.current = t) (climb g expr fuel bound)
        fun e d => (∃ l top, Derives g (.chain r l bound top t.kind) e) ∧
          bound.Ends d.current.kind ∧ d.At g (n - 1) r q
  | 0, bound, n, r, q, t, hn, hfuel =>
    (ensures_unary he 0 hn).mono fun e d h => absurd h.2.pos (by omega)
  | fuel + 1, bound, n, r, q, t, hn, hfuel => by
    refine ensures_charging ((ensures_unary he (fuel + 1) hn).andThen fun e h => ?_)
    have chain := ensures_climbChain he fuel (n := n - 1) (by omega) (by omega)
      (Nat.le_refl r) (.chain (b := bound) h)
    rw [Nat.sub_self] at chain
    exact chain.from fun c hc => ⟨hc, Level.ends_unary _⟩

/-- Each operator takes one level of the room at the start of the chain, and
its right operand is read one level deeper. -/
theorem ensures_climbChain {expr : Reader Expr} (he : Derived g N expr) :
    ∀ (fuel : Nat) {bound top : Level} {n r l : Nat} {k : TokenKind} {left : Expr},
      n ≤ N → n ≤ fuel + 1 → l ≤ r → Derives g (.chain r l bound top k) left →
      Ensures (fun c => c.At g n l (r - l) ∧ top.Ends c.current.kind)
        (climbChain g expr fuel bound left)
        fun e d => ∃ l, l ≤ r ∧ (∃ l top, Derives g (.chain r l bound top k) e) ∧
          bound.Ends d.current.kind ∧ d.At g n l (r - l)
  | 0, bound, top, n, r, l, k, left, hn, hfuel, hl, h => by
    rw [climbChain]
    refine ensures_pure fun c hc => ⟨l, hl, ⟨l, top, h⟩, ?_, hc.1⟩
    have hfew := hc.1.few
    rw [Cursor.kind_of_ahead (List.eq_nil_of_length_eq_zero (by omega))]
    exact fun _ h => by cases h
  | fuel + 1, bound, top, n, r, l, k, left, hn, hfuel, hl, h => by
    rw [climbChain]
    refine ensures_current fun t => ?_
    split
    · rename_i hnone
      refine ensures_pure fun c hc => ⟨l, hl, ⟨l, top, h⟩, fun level hlevel => ?_, hc.1.1⟩
      rw [hc.2, hnone] at hlevel
      cases hlevel
    · rename_i level hlevel
      split
      · rename_i hle
        refine ensures_pure fun c hc => ⟨l, hl, ⟨l, top, h⟩, fun level' hlevel' => ?_, hc.1.1⟩
        rw [hc.2, hlevel] at hlevel'
        cases hlevel'
        exact hle
      · rename_i hle
        have hb : bound.rank < level.rank := Nat.lt_of_not_le hle
        have hne : t.kind ≠ .endOfText := by
          intro h
          rw [h] at hlevel
          cases hlevel
        -- the operator binds no more strongly than the chain so far
        refine (ensures_advance_to (p := level.rank ≤ top.rank) (I := At g (n - 1) l (r - l))
          fun c hc => ⟨hc.1.2 level (hc.2 ▸ hlevel), hc.1.1.passed (hc.2 ▸ hne)⟩).andThen
            fun _ htop => ensures_charge fun l' hl' => ?_
        have hq : r - l + 1 = r - l' := by omega
        have hle' : l' ≤ r := by omega
        have next {top : Level} {whole : Expr} (h : Derives g (.chain r l' bound top k) whole) :
            Ensures (fun c => top.Ends c.current.kind ∧ c.At g (n - 1) l' (r - l'))
              (climbChain g expr fuel bound whole) fun e d =>
                ∃ l, l ≤ r ∧ (∃ l top, Derives g (.chain r l bound top k) e) ∧
                  bound.Ends d.current.kind ∧ d.At g n l (r - l) := by
          have rest := ensures_climbChain he fuel (n := n - 1) (by omega) (by omega) hle' h
          refine (rest.from fun c hc => hc.symm).mono fun e d hd => ?_
          obtain ⟨l, hl, he, hends, hd⟩ := hd
          exact ⟨l, hl, he, hends, hd.mono (Nat.sub_le n 1)⟩
        rw [hq]
        split
        · rename_i op hop
          obtain ⟨hlop, hbound⟩ := BinaryOp.level_of_token hop
          obtain rfl : level = op.level := Option.some.inj (hlevel.symm.trans hlop)
          rw [hbound _ hlevel]
          refine (ensures_within (j := n - 1) (p := op.bound.Ends)
            (Q := fun r' e => ∃ l top k, Derives g (.chain r' l op.bound top k) e)
            fun r' hr' c hc e d heq => ?_).andThen fun right hright => ?_
          · obtain ⟨⟨l, top, he⟩, hends, hd⟩ :=
              ensures_climb he fuel (by omega) (by omega) c ⟨hc, rfl⟩ e d heq
            exact ⟨⟨l, top, _, he⟩, hends, hd.mono (Nat.sub_le _ 1)⟩
          · obtain ⟨l'', hl'', _, _, _, hright⟩ := hright
            subst hl''
            subst hl'
            exact next (.binary h hb htop hright)
        · rename_i hop
          obtain rfl := BinaryOp.relational_of_token hlevel hop
          subst hl'
          refine ensures_kind fun t' => ?_
          split
          · refine Ensures.from ?_ fun _ h => h.1
            refine leaves_advance.andThen fun _ _ => (he.arguments fuel (by omega) _).andThen
              fun es hes => ensures_spanFrom fun s => ?_
            exact (next (.inList h hb htop hes)).from fun c hc => ⟨Level.ends_unary _, hc⟩
          · rename_i hparen
            refine (ensures_climb he fuel (by omega) (by omega)).andThen fun source hsource => ?_
            obtain ⟨_, _, hsource⟩ := hsource
            refine ensures_spanFrom fun s =>
              (next (.inSource h hb htop hsource (by simpa using hparen))).from fun c hc => ?_
            exact ⟨hc.1, hc.2.mono (Nat.sub_le _ 1)⟩
end

/-! ### Expressions -/

theorem ensures_conditional {branch : Reader Expr} (he : Derived g N branch) :
    Derived g (N + 1) (conditional g branch N) := by
  intro n hn r q
  refine (ensures_within (j := n - 1) (p := fun _ => True)
    (Q := fun r' e => Derives g (.expression (r' + 1)) e) fun r' hr' c hc => ?_).mono
    fun e d h => ?_
  · have hn' : n - 1 ≤ N := by omega
    refine (ensures_climb he N (n := n) (q := q) hn hn).andThen (fun condition hc => ?_) c ⟨hc, rfl⟩
    obtain ⟨l, top, hc⟩ := hc
    refine ensures_kind fun t => Ensures.from (P := At g (n - 1) r' q) ?_ fun _ h => h.1.2
    split
    · refine leaves_advance.andThen fun _ _ => (he.leaves hn').andThen fun a ha => ?_
      refine (leaves_expect _).andThen fun _ _ => (he.leaves hn').andThen fun b hb => ?_
      exact ensures_pure fun d hd => ⟨.conditional hc ha hb, trivial, hd⟩
    · exact ensures_pure fun d hd => ⟨.expression hc, trivial, hd⟩
  · obtain ⟨⟨r', rfl, h⟩, -, hd⟩ := h
    exact ⟨h, hd⟩

/-- **Every expression that is read has a derivation**, by induction on the
fuel, which bounds the number of tokens ahead. -/
theorem derived_expression : ∀ fuel : Nat, Derived g fuel (expression g fuel)
  | 0 => fun _ _ _ _ => ensures_unexpected _
  | fuel + 1 => ensures_conditional (derived_expression fuel)

end Reader

namespace Expr

theorem derives_of_tokens {g : Grammar} {start : Nat} {ts : Tokens} {e : Expr}
    (hts : ∀ t ∈ ts.list, t.Genuine) (h : ofTokens g start ts = .ok e) :
    Derives g (.expression g.limit) e := by
  have hstart : (Cursor.atStart start ts).At g (ts.list.length + 1) g.limit 0 :=
    ⟨Nat.lt_succ_self _, hts, Nat.zero_add _, rfl⟩
  have hwhole : Step.Ensures ((Cursor.At g (ts.list.length + 1) g.limit 0))
      (Reader.whole g (ts.list.length + 1)) fun e _ => Derives g (.expression g.limit) e := by
    refine Reader.ensures_meetFault.andThen fun _ _ =>
      (Reader.derived_expression _ _ (Nat.le_refl _) _ _).andThen fun e h =>
        Reader.ensures_kind fun t => ?_
    dsimp only
    split
    · exact (Reader.ensures_unexpected fun _ _ => False).bind fun _ _ h => h.elim
    · exact Step.ensures_pure fun _ _ => h
  exact hwhole _ hstart e (Reader.whole g (ts.list.length + 1) (Cursor.atStart start ts)).2
    (Prod.ext h rfl)

/-- **Every expression that a text spells has a derivation**, with the room
that the limit of the nesting leaves. -/
theorem derives_of_parse {g : Grammar} {text : List Char} {e : Expr}
    (h : parse g text = .ok e) : Derives g (.expression g.limit) e :=
  derives_of_tokens (genuine_readTokens 0 0 text) h

/-- Every text spells a regular expression, or none. -/
theorem regular_of_parse {g : Grammar} {text : List Char} {e : Expr}
    (h : parse g text = .ok e) : e.Regular (· ≠ implicitName) := (derives_of_parse h).regular

/-- What is told of the outcome of reading a text is told of an expression. -/
theorem exists_of_parse_map {α : Type} {g : Grammar} {text : List Char} {f : Expr → α} {x : α}
    (h : (parse g text).toOption.map f = some x) : ∃ e, parse g text = .ok e ∧ f e = x := by
  cases hp : parse g text with
  | error failure =>
    rw [hp] at h
    cases h
  | ok e =>
    rw [hp] at h
    exact ⟨e, rfl, Option.some.inj h⟩

end Expr
end QueryExpr
