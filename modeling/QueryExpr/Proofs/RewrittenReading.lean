/-
# Reading what is written another way

What is written in place of a name may take more room below the limit of the
nesting than the name did, but it can be read with room enough: an expression
written another way is what a text can stand for, if that is so at each place
where something else is written. No parenthesis comes to stand where there was
none, which a sequence behind `in` would not bear.

Key definitions: `Readable`, `Rewriting.Legible`.
Key theorems: `Derives.rewrite`, `Expr.parse_rewrite`.
-/
import QueryExpr.Proofs.ReadBackExpr
import QueryExpr.Proofs.RewrittenExpr

namespace QueryExpr

variable {g : Grammar} {e : Expr} {es : List Expr} {k : TokenKind} {w : Rewriting} {o : Options}

/-! ### Names of types -/

theorem Expr.allNames_iff {Q : String → Prop} {T : TypeName → Prop} :
    Expr.AllNames Q T es ↔ ∀ e ∈ es, e.Names Q T := by
  induction es with
  | nil => simp [Expr.AllNames]
  | cons e es ih => simp [Expr.AllNames, ih]

/-- What is read as the name of a type is one. -/
theorem Derives.names {Q : String → Prop} {T : TypeName → Prop} {form : Form}
    (h : Derives g form e) (hnames : e.Names Q T) :
    e.Names Q fun t => T t ∧ g.typeOf? t.name.text = some t.known := by
  have all {es : List Expr} (hnames : Expr.AllNames Q T es)
      (ih : ∀ e ∈ es, e.Names Q T →
        e.Names Q fun t => T t ∧ g.typeOf? t.name.text = some t.known) :
      Expr.AllNames Q (fun t => T t ∧ g.typeOf? t.name.text = some t.known) es :=
    Expr.allNames_iff.mpr fun e he => ih e he (Expr.allNames_iff.mp hnames e he)
  induction h with
  | literal | it | name => exact hnames
  | typeName _ hu => exact ⟨hnames, hu⟩
  | call _ _ _ ih | iif _ ih => exact ⟨hnames.1, all hnames.2 ih⟩
  | conversion _ hu _ ih => exact ⟨⟨hnames.1, hu⟩, all hnames.2 ih⟩
  | newRecord _ _ _ ih | newArray _ _ ih => exact all hnames ih
  | parens _ ih | target _ ih | operand _ ih | chain _ ih | expression _ ih | unary _ _ ih =>
    exact ih hnames
  | member _ _ ih => exact ⟨ih hnames.1, hnames.2⟩
  | callOn _ _ _ ih ihs => exact ⟨ih hnames.1, hnames.2.1, all hnames.2.2 ihs⟩
  | index _ _ _ ih ihs | inList _ _ _ _ ih ihs => exact ⟨ih hnames.1, all hnames.2 ihs⟩
  | binary _ _ _ _ ih ih' | inSource _ _ _ _ _ ih ih' => exact ⟨ih hnames.1, ih' hnames.2⟩
  | conditional _ _ _ ih iha ihb => exact ⟨ih hnames.1, iha hnames.2.1, ihb hnames.2.2⟩

/-! ### Room enough -/

/-- The expression is one, wherever there is room enough. -/
def ReadableExpression (g : Grammar) (e : Expr) : Prop :=
  ∃ enough, ∀ r, enough ≤ r → Derives g (.expression r) e

/-- The expression can be followed by suffixes, whatever room has to be left. -/
def ReadableSuffixed (g : Grammar) (k : TokenKind) (e : Expr) : Prop :=
  ∃ used enough, ∀ l, enough ≤ l → Derives g (.suffixed (l + used) l k) e

/-- The expression can be an operand, wherever there is room enough. -/
def ReadableUnary (g : Grammar) (k : TokenKind) (e : Expr) : Prop :=
  ∃ enough, ∀ r, enough ≤ r → Derives g (.unary r k) e

/-- The expression can be followed by operators, whatever room has to be left. -/
def ReadableChain (g : Grammar) (b top : Level) (k : TokenKind) (e : Expr) : Prop :=
  ∃ used enough, ∀ l, enough ≤ l → Derives g (.chain (l + used) l b top k) e

/-- What the form says of the expression goes for it with room enough, and it
starts with no parenthesis unless the form does. -/
def Readable (g : Grammar) : Form → Expr → Prop
  | .expression _, e => ReadableExpression g e
  | .primary _ k, e | .suffixed _ _ k, e =>
    ∃ k', (k' = .openParen → k = .openParen) ∧ ReadableSuffixed g k' e
  | .unary _ k, e => ∃ k', (k' = .openParen → k = .openParen) ∧ ReadableUnary g k' e
  | .chain _ _ b top k, e =>
    ∃ k', (k' = .openParen → k = .openParen) ∧ ReadableChain g b top k' e

section
variable {e' e'' : Expr} {b top top' : Level} {k' : TokenKind} {n : Name} {span : Span}

/-- Several expressions are ones wherever there is room enough for each. -/
theorem readable_all (h : ∀ e ∈ es, ReadableExpression g e) :
    ∃ enough, ∀ r, enough ≤ r → ∀ e ∈ es, Derives g (.expression r) e := by
  induction es with
  | nil => exact ⟨0, fun _ _ => List.forall_mem_nil _⟩
  | cons e es ih =>
    obtain ⟨⟨enough, he⟩, hes⟩ := List.forall_mem_cons.mp h
    obtain ⟨enough', hes⟩ := ih hes
    refine ⟨max enough enough', fun r hr => List.forall_mem_cons.mpr ⟨?_, ?_⟩⟩
    · exact he r (Nat.le_trans (Nat.le_max_left _ _) hr)
    · exact hes r (Nat.le_trans (Nat.le_max_right _ _) hr)

namespace ReadableSuffixed

theorem of_primary (h : ∀ r, Derives g (.primary r k) e) : ReadableSuffixed g k e :=
  ⟨0, 0, fun l _ => .target (h l)⟩

/-- What is made of expressions without taking room of its own. -/
theorem of_all (hes : ∀ e ∈ es, ReadableExpression g e)
    (h : ∀ r, (∀ e ∈ es, Derives g (.expression r) e) → Derives g (.primary r k) e) :
    ReadableSuffixed g k e := by
  obtain ⟨enough, hes⟩ := readable_all hes
  exact ⟨0, enough, fun l hl => .target (h l (hes l hl))⟩

/-- A suffix takes one level of the room that is left. -/
theorem suffix (h : ReadableSuffixed g k e) (enough : Nat)
    (hsuffix : ∀ r l, enough ≤ l → Derives g (.suffixed r (l + 1) k) e →
      Derives g (.suffixed r l k) e') : ReadableSuffixed g k e' := by
  obtain ⟨used, enough', he⟩ := h
  refine ⟨used + 1, max enough enough', fun l hl => ?_⟩
  have htarget := he (l + 1) (by omega)
  rw [Nat.add_right_comm] at htarget
  exact hsuffix _ l (by omega) htarget

theorem member (h : ReadableSuffixed g k e) (hn : Named n.text) :
    ReadableSuffixed g k (.member e n span) :=
  h.suffix 0 fun _ _ _ htarget => .member htarget hn

theorem callOn (h : ReadableSuffixed g k e) (hn : Named n.text)
    (hes : ∀ e ∈ es, ReadableExpression g e) : ReadableSuffixed g k (.callOn e n es span) := by
  obtain ⟨enough, hes⟩ := readable_all hes
  exact h.suffix enough fun _ l hl htarget => .callOn htarget hn (hes l hl)

theorem index (h : ReadableSuffixed g k e) (hne : es ≠ [])
    (hes : ∀ e ∈ es, ReadableExpression g e) : ReadableSuffixed g k (.index e es span) := by
  obtain ⟨enough, hes⟩ := readable_all hes
  exact h.suffix enough fun _ l hl htarget => .index htarget hne (hes l hl)

theorem operand (h : ReadableSuffixed g k e) : ReadableUnary g k e := by
  obtain ⟨used, enough, he⟩ := h
  refine ⟨enough + used, fun r hr => ?_⟩
  have hsuffixed := he (r - used) (by omega)
  rw [Nat.sub_add_cancel (by omega)] at hsuffixed
  exact .operand hsuffixed

end ReadableSuffixed

namespace ReadableUnary

theorem unary {op : UnaryOp} (hop : UnaryOp.ofToken? k = some op) (h : ReadableUnary g k' e) :
    ReadableUnary g k (.unary op e span) := by
  obtain ⟨enough, he⟩ := h
  refine ⟨enough + 1, fun r hr => ?_⟩
  obtain ⟨r, rfl⟩ := Nat.exists_eq_add_of_le' hr
  exact .unary hop (he (r + enough) (Nat.le_add_left _ _))

theorem chain (h : ReadableUnary g k e) : ReadableChain g b .unary k e := by
  obtain ⟨enough, he⟩ := h
  exact ⟨0, enough, fun l hl => .chain (he l hl)⟩

end ReadableUnary

namespace ReadableChain

/-- With room enough, some of it is left. -/
theorem within (h : ReadableChain g b top k e) :
    ∃ enough, ∀ r, enough ≤ r → ∃ l, Derives g (.chain r l b top k) e := by
  obtain ⟨used, enough, he⟩ := h
  refine ⟨enough + used, fun r hr => ⟨r - used, ?_⟩⟩
  have hchain := he (r - used) (by omega)
  rw [Nat.sub_add_cancel (by omega)] at hchain
  exact hchain

/-- An operator takes one level of the room that is left. -/
theorem link (h : ReadableChain g b top k e) (enough : Nat)
    (hlink : ∀ r l, enough ≤ l → Derives g (.chain r (l + 1) b top k) e →
      Derives g (.chain r l b top' k) e') : ReadableChain g b top' k e' := by
  obtain ⟨used, enough', he⟩ := h
  refine ⟨used + 1, max enough enough', fun l hl => ?_⟩
  have hchain := he (l + 1) (by omega)
  rw [Nat.add_right_comm] at hchain
  exact hlink _ l (by omega) hchain

theorem binary {op : BinaryOp} (h : ReadableChain g b top k e)
    (hb : b.rank < op.level.rank) (htop : op.level.rank ≤ top.rank)
    (h' : ReadableChain g op.bound top' k' e') :
    ReadableChain g b op.bound k (.binary op e e' span) := by
  obtain ⟨enough, h'⟩ := h'.within
  refine h.link (enough + 1) fun r l hl hleft => ?_
  obtain ⟨l, rfl⟩ := Nat.exists_eq_add_of_le' (Nat.le_trans (Nat.le_add_left 1 enough) hl)
  obtain ⟨l', hright⟩ := h' l (by omega)
  exact .binary hleft hb htop hright

theorem inList (h : ReadableChain g b top k e) (hb : b.rank < Level.relational.rank)
    (htop : Level.relational.rank ≤ top.rank) (hes : ∀ e ∈ es, ReadableExpression g e) :
    ReadableChain g b .unary k (.inList e es span) := by
  obtain ⟨enough, hes⟩ := readable_all hes
  exact h.link enough fun r l hl hchain => .inList hchain hb htop (hes l hl)

theorem inSource (h : ReadableChain g b top k e) (hb : b.rank < Level.relational.rank)
    (htop : Level.relational.rank ≤ top.rank) (h' : ReadableChain g .relational top' k' e')
    (hnot : k' ≠ .openParen) : ReadableChain g b .relational k (.inSource e e' span) := by
  obtain ⟨enough, h'⟩ := h'.within
  refine h.link enough fun r l hl hchain => ?_
  obtain ⟨l', hsource⟩ := h' l hl
  exact .inSource hchain hb htop hsource hnot

theorem expression (h : ReadableChain g .lowest top k e) : ReadableExpression g e := by
  obtain ⟨enough, h⟩ := h.within
  refine ⟨enough + 1, fun r hr => ?_⟩
  obtain ⟨r, rfl⟩ := Nat.exists_eq_add_of_le' (Nat.le_trans (Nat.le_add_left 1 enough) hr)
  obtain ⟨l, hchain⟩ := h r (by omega)
  exact .expression hchain

theorem conditional (h : ReadableChain g .lowest top k e) (h' : ReadableExpression g e')
    (h'' : ReadableExpression g e'') : ReadableExpression g (.conditional e e' e'' span) := by
  obtain ⟨enough, h⟩ := h.within
  obtain ⟨enough', h'⟩ := h'
  obtain ⟨enough'', h''⟩ := h''
  refine ⟨enough + enough' + enough'' + 1, fun r hr => ?_⟩
  obtain ⟨r, rfl⟩ := Nat.exists_eq_add_of_le' (Nat.le_trans (Nat.le_add_left 1 _) hr)
  obtain ⟨l, hchain⟩ := h r (by omega)
  exact .conditional hchain (h' r (by omega)) (h'' r (by omega))

end ReadableChain
end

/-! ### Another way -/

/-- What another way of writing has to keep to for what it writes to be read. -/
structure Rewriting.Legible (w : Rewriting) (g : Grammar) : Prop where
  named (c n : String) : Named n → Named (w.names c n)
  name (it : Symbol) {n : Name} : TokenKind.identifier.Spells n.text → g.typeOf? n.text = none →
    ∃ k, k ≠ .openParen ∧ ReadableSuffixed g k (w.name it n)
  typeName (it : Symbol) {type : TypeName} : TokenKind.identifier.Spells type.name.text →
    g.typeOf? type.name.text = some type.known →
    ∃ k, k ≠ .openParen ∧ ReadableSuffixed g k (w.typeName it type)
  call (it : Symbol) {n : Name} {es : List Expr} (span : Span) :
    TokenKind.identifier.Spells n.text → g.typeOf? n.text = none →
    (∀ e ∈ es, ReadableExpression g e) →
    ∃ k, k ≠ .openParen ∧ ReadableSuffixed g k (w.call it n es span)
  conversion (it : Symbol) {type : TypeName} {es : List Expr} (span : Span) :
    TokenKind.identifier.Spells type.name.text → g.typeOf? type.name.text = some type.known →
    (∀ e ∈ es, ReadableExpression g e) →
    ∃ k, k ≠ .openParen ∧ ReadableSuffixed g k (w.conversion it type es span)

namespace Rewriting.Legible

theorem named_nameIn (hw : w.Legible g) {n : String} (hn : Named n) (t : Ty) :
    Named (t.nameIn w.names n) := by
  unfold Ty.nameIn
  split
  · rename_i u _
    cases u with
    | cls c => exact hw.named c n hn
    | _ => exact hn
  · exact hn

theorem named_callName (hw : w.Legible g) {n : String} (hn : Named n) (t : Ty) :
    Named (Check.callName w.names t n) := by
  unfold Check.callName
  split
  · exact hn
  · exact hw.named_nameIn hn t

end Rewriting.Legible

namespace Expr

theorem length_rewriteAll : ∀ (es : List Expr) (c : Context),
    (rewriteAll w o es c).length = es.length
  | [], _ => rfl
  | _ :: es, _ => congrArg (· + 1) (length_rewriteAll es _)

theorem mem_rewriteAll {e' : Expr} : ∀ {es : List Expr} {c : Context},
    e' ∈ rewriteAll w o es c → ∃ e ∈ es, ∃ d, e' = e.rewrite w o d
  | e :: es, c, h => by
    rcases List.mem_cons.mp h with rfl | h
    · exact ⟨e, List.mem_cons_self, c, rfl⟩
    · obtain ⟨e, he, hd⟩ := mem_rewriteAll h
      exact ⟨e, List.mem_cons_of_mem _ he, hd⟩

end Expr

/-- **What is read, written another way, can be read**, with room enough. -/
theorem Derives.rewrite (hw : w.Legible g) {form : Form} (h : Derives g form e) :
    ∀ c : Context, Readable g form (e.rewrite w o c) := by
  -- what is written for a name starts with no parenthesis
  have other {k k' : TokenKind} {e : Expr} (h : k ≠ .openParen ∧ ReadableSuffixed g k e) :
      ∃ k, (k = .openParen → k' = .openParen) ∧ ReadableSuffixed g k e :=
    ⟨k, fun heq => absurd heq h.1, h.2⟩
  have all {r : Nat} {es : List Expr}
      (ih : ∀ e ∈ es, ∀ c, Readable g (.expression r) (e.rewrite w o c)) (c : Context) :
      ∀ e ∈ Expr.rewriteAll w o es c, ReadableExpression g e := by
    intro e' he'
    obtain ⟨e, he, d, rfl⟩ := Expr.mem_rewriteAll he'
    exact ih e he d
  intro c
  induction h generalizing c with
  | literal hv => exact ⟨_, id, .of_primary fun _ => .literal hv⟩
  | it => exact ⟨_, id, .of_primary fun _ => .it⟩
  | name hn hu =>
    unfold Expr.rewrite
    split
    · obtain ⟨k, h⟩ := hw.name _ hn hu
      exact other h
    · exact ⟨_, id, .of_primary fun _ => .name hn hu⟩
  | typeName hn hu =>
    unfold Expr.rewrite
    split
    · obtain ⟨k, h⟩ := hw.typeName _ hn hu
      exact other h
    · exact ⟨_, id, .of_primary fun _ => .typeName hn hu⟩
  | call hn hu _ ih =>
    unfold Expr.rewrite
    split
    · obtain ⟨k, h⟩ := hw.call _ _ hn hu (all ih _)
      exact other h
    · exact ⟨_, id, .of_all (all ih c) fun _ => .call hn hu⟩
  | iif _ ih => exact ⟨_, id, .of_all (all ih c) fun _ => .iif⟩
  | conversion hn hu _ ih =>
    unfold Expr.rewrite
    split
    · obtain ⟨k, h⟩ := hw.conversion _ _ hn hu (all ih _)
      exact other h
    · exact ⟨_, id, .of_all (all ih c) fun _ => .conversion hn hu⟩
  | newRecord hl hns _ ih =>
    refine ⟨_, id, .of_all (all ih c) fun _ => .newRecord ?_ hns⟩
    rw [hl, Expr.length_rewriteAll]
  | newArray ht _ ih => exact ⟨_, id, .of_all (all ih c) fun _ => .newArray ht⟩
  | parens _ ih =>
    obtain ⟨enough, h⟩ := ih c
    exact ⟨_, id, 0, enough, fun l hl => .target (.parens (h l hl))⟩
  | target _ ih => exact ih c
  | member _ hn ih =>
    obtain ⟨k, hk, h⟩ := ih c
    unfold Expr.rewrite
    split
    · exact ⟨k, hk, h.member (hw.named_nameIn hn _)⟩
    · exact ⟨k, hk, h.member hn⟩
  | callOn _ hn _ ih ihs =>
    obtain ⟨k, hk, h⟩ := ih c
    unfold Expr.rewrite
    split
    · exact ⟨k, hk, h.callOn (hw.named_callName hn _) (all ihs _)⟩
    · exact ⟨k, hk, h.callOn hn (all ihs _)⟩
  | @index _ _ _ t es _ _ hne _ ih ihs =>
    obtain ⟨k, hk, h⟩ := ih c
    have hne' : Expr.rewriteAll w o es (Check.expr o t c).2 ≠ [] := by
      rw [ne_eq, ← List.length_eq_zero_iff, Expr.length_rewriteAll, List.length_eq_zero_iff]
      exact hne
    exact ⟨k, hk, h.index hne' (all ihs _)⟩
  | operand _ ih =>
    obtain ⟨k, hk, h⟩ := ih c
    exact ⟨k, hk, h.operand⟩
  | unary hop _ ih =>
    obtain ⟨_, -, h⟩ := ih c
    exact ⟨_, id, .unary hop h⟩
  | chain _ ih =>
    obtain ⟨k, hk, h⟩ := ih c
    exact ⟨k, hk, h.chain⟩
  | binary _ hb htop _ ih ih' =>
    obtain ⟨k, hk, h⟩ := ih c
    obtain ⟨_, -, h'⟩ := ih' _
    exact ⟨k, hk, h.binary hb htop h'⟩
  | inList _ hb htop _ ih ihs =>
    obtain ⟨k, hk, h⟩ := ih c
    exact ⟨k, hk, h.inList hb htop (all ihs _)⟩
  | inSource _ hb htop _ hnot ih ih' =>
    obtain ⟨k, hk, h⟩ := ih c
    obtain ⟨k', hk', h'⟩ := ih' _
    exact ⟨k, hk, h.inSource hb htop h' fun heq => hnot (hk' heq)⟩
  | expression _ ih =>
    obtain ⟨_, -, h⟩ := ih c
    exact h.expression
  | conditional _ _ _ iha ihb ihb' =>
    obtain ⟨_, -, h⟩ := iha c
    exact h.conditional (ihb _) (ihb' _)

/-- Its rendering spells it, up to places, under any limit that leaves room. -/
theorem Expr.parse_rewrite (hw : w.Legible g) {text : List Char} (h : parse g text = .ok e)
    (o : Options) (c : Context) :
    let e' := e.rewrite w o c
    Spells e'.rendered e'.words ∧
      ∀ (text' : List Char) (limit : Nat), Spells text' e'.words →
        2 * (tokens text').list.length + 1 ≤ limit →
          ∃ e'', parse ⟨limit, g.declared⟩ text' = .ok e'' ∧ e''.bare = e'.bare := by
  obtain ⟨enough, hread⟩ := (derives_of_parse h).rewrite (o := o) hw c
  have hderives := hread enough (Nat.le_refl _)
  exact ⟨hderives.spells, fun text' limit hs hlimit => parse_of_spells hderives rfl hs hlimit⟩

end QueryExpr
