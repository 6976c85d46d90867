/-
# What an expression is read from

How a text comes to stand for an expression, told as a derivation: for each
step of reading, what it yields is made of what the steps inside it yield. A
derivation keeps what reading depends on and the tree forgets: how much room
is left below the limit of the nesting, the kind of the first token, and how
strongly the operators of a chain bind.

Key definitions: `Literal.Spelled`, `BinaryOp.level`, `BinaryOp.bound`, `Form`,
`Derives`.
Key theorems: `Derives.regular`.
-/
import QueryExpr.Expr.Parse
import QueryExpr.Proofs.RegularExpr
import QueryExpr.Proofs.WholeLexeme
import QueryExpr.Scope

namespace QueryExpr

/-- What a literal is written as: a token, or a minus sign and a number. -/
inductive Literal.Spelled : Literal → String → Prop
  | number {t : Token} {v : Literal} : t.Genuine → t.kind = .integer ∨ t.kind = .real →
      Reader.numberOf t false = .ok v → Spelled v t.written
  | negative {t : Token} {v : Literal} : t.Genuine → t.kind = .integer ∨ t.kind = .real →
      Reader.numberOf t true = .ok v → Spelled v ("-" ++ t.written)
  | string {t : Token} : t.Genuine → t.kind = .string → Spelled (.string t.value) t.written
  | char {t : Token} {c : Char} : t.Genuine → t.kind = .char → t.value.toList = [c] →
      Spelled (.char c) t.written
  | true {t : Token} : t.Genuine → t.kind = .trueWord → Spelled (.boolean true) t.written
  | false {t : Token} : t.Genuine → t.kind = .falseWord → Spelled (.boolean false) t.written
  | null {t : Token} : t.Genuine → t.kind = .nullWord → Spelled .null t.written

/-- A word that can name a member or a property of a record. -/
def Named (s : String) : Prop := ∃ k : TokenKind, k.isNameLike = true ∧ k.Spells s

/-- The name of a type whose arrays can be made. -/
def TypeName.Elementary (type : TypeName) : Prop :=
  TokenKind.identifier.Spells type.name.text ∧
    ∃ p, type.known = .prim p ∧ KnownType.ofName? type.name.text = some (.prim p)

namespace BinaryOp

/-- How strongly the operator binds. -/
def level : BinaryOp → Level
  | .coalesce => .coalescing
  | .or => .disjunction
  | .and => .conjunction
  | .equal | .notEqual => .equality
  | .less | .lessEqual | .greater | .greaterEqual => .relational
  | .add | .subtract => .additive
  | .multiply | .divide | .modulo => .multiplicative

/-- The level that the operators inside its right operand have to pass. -/
def bound (op : BinaryOp) : Level := if op = .coalesce then .conditional else op.level

theorem level_of_token {k : TokenKind} {op : BinaryOp} (h : ofToken? k = some op) :
    k.level? = some op.level ∧ ∀ level, k.level? = some level → k.rightBound level = op.bound := by
  cases k <;> cases h <;> exact ⟨rfl, fun level h => by cases h; rfl⟩

/-- What has a level and is no operator with two operands is `in`. -/
theorem relational_of_token {k : TokenKind} {level : Level} (h : k.level? = some level)
    (hop : ofToken? k = none) : level = .relational := by
  cases k <;> cases h <;> first | rfl | cases hop

end BinaryOp

/-- What is read: with how much room, and of a chain, how much of it is left;
for a chain of operators also the bound they have to pass and the level that
the next one may not; and the kind of the token it starts with. -/
inductive Form
  | expression (room : Nat)
  | primary (room : Nat) (first : TokenKind)
  | suffixed (room left : Nat) (first : TokenKind)
  | unary (room : Nat) (first : TokenKind)
  | chain (room left : Nat) (bound top : Level) (first : TokenKind)

/-- The expression is what a text can stand for, read as the form says. -/
inductive Derives (g : Grammar) : Form → Expr → Prop
  | literal {r k v w s} : v.Spelled w → Derives g (.primary r k) (.literal v w s)
  | it {r s} : Derives g (.primary r .itWord) (.name ⟨"it", s⟩)
  | name {r n} : TokenKind.identifier.Spells n.text → g.typeOf? n.text = none →
      Derives g (.primary r .identifier) (.name n)
  | typeName {r type} : TokenKind.identifier.Spells type.name.text →
      g.typeOf? type.name.text = some type.known →
      Derives g (.primary r .identifier) (.typeName type)
  | call {r n es s} : TokenKind.identifier.Spells n.text → g.typeOf? n.text = none →
      (∀ e ∈ es, Derives g (.expression r) e) → Derives g (.primary r .identifier) (.call n es s)
  | iif {r es s s'} : (∀ e ∈ es, Derives g (.expression r) e) →
      Derives g (.primary r .iifWord) (.call ⟨"iif", s⟩ es s')
  | conversion {r type es s} : TokenKind.identifier.Spells type.name.text →
      g.typeOf? type.name.text = some type.known → (∀ e ∈ es, Derives g (.expression r) e) →
      Derives g (.primary r .identifier) (.conversion type es s)
  | newRecord {r ns es s} : ns.length = es.length → (∀ n ∈ ns, Named n.text) →
      (∀ e ∈ es, Derives g (.expression r) e) → Derives g (.primary r .newWord) (.newRecord ns es s)
  | newArray {r type es s} : (∀ t ∈ type, TypeName.Elementary t) →
      (∀ e ∈ es, Derives g (.expression r) e) →
      Derives g (.primary r .newWord) (.newArray type es s)
  | parens {r e} : Derives g (.expression r) e → Derives g (.primary r .openParen) e
  | target {r k e} : Derives g (.primary r k) e → Derives g (.suffixed r r k) e
  | member {r l k t n s} : Derives g (.suffixed r (l + 1) k) t → Named n.text →
      Derives g (.suffixed r l k) (.member t n s)
  | callOn {r l k t n es s} : Derives g (.suffixed r (l + 1) k) t → Named n.text →
      (∀ e ∈ es, Derives g (.expression l) e) → Derives g (.suffixed r l k) (.callOn t n es s)
  | index {r l k t es s} : Derives g (.suffixed r (l + 1) k) t → es ≠ [] →
      (∀ e ∈ es, Derives g (.expression l) e) → Derives g (.suffixed r l k) (.index t es s)
  | operand {r l k e} : Derives g (.suffixed r l k) e → Derives g (.unary r k) e
  | unary {r k k' op e s} : UnaryOp.ofToken? k = some op → Derives g (.unary r k') e →
      Derives g (.unary (r + 1) k) (.unary op e s)
  | chain {r b k e} : Derives g (.unary r k) e → Derives g (.chain r r b .unary k) e
  | binary {r l l' b top top' k k' op left right s} : Derives g (.chain r (l + 2) b top k) left →
      b.rank < op.level.rank → op.level.rank ≤ top.rank →
      Derives g (.chain l l' op.bound top' k') right →
      Derives g (.chain r (l + 1) b op.bound k) (.binary op left right s)
  | inList {r l b top k e es s} : Derives g (.chain r (l + 1) b top k) e →
      b.rank < Level.relational.rank → Level.relational.rank ≤ top.rank →
      (∀ e ∈ es, Derives g (.expression l) e) →
      Derives g (.chain r l b .unary k) (.inList e es s)
  | inSource {r l l' b top top' k k' e source s} : Derives g (.chain r (l + 1) b top k) e →
      b.rank < Level.relational.rank → Level.relational.rank ≤ top.rank →
      Derives g (.chain l l' .relational top' k') source → k' ≠ .openParen →
      Derives g (.chain r l b .relational k) (.inSource e source s)
  | expression {r l top k e} : Derives g (.chain r l .lowest top k) e →
      Derives g (.expression (r + 1)) e
  | conditional {r l top k c a b s} : Derives g (.chain r l .lowest top k) c →
      Derives g (.expression r) a → Derives g (.expression r) b →
      Derives g (.expression (r + 1)) (.conditional c a b s)

/-- The word `it` is a keyword. -/
theorem not_spells_implicitName : ¬ TokenKind.identifier.Spells implicitName := by
  decide +kernel

/-- **Whatever is read is regular**: every value of a projection has a name,
and no call is one of `it`, since the word is a keyword. -/
theorem Derives.regular {g : Grammar} {form : Form} {e : Expr} (h : Derives g form e) :
    e.Regular (· ≠ implicitName) := by
  induction h with
  | literal | it | name | typeName => trivial
  | call hn _ _ ih =>
    exact ⟨fun heq => not_spells_implicitName (heq ▸ hn), Expr.allRegular_iff.mpr ih⟩
  | iif _ ih =>
    have hne : "iif" ≠ implicitName := by decide
    exact ⟨hne, Expr.allRegular_iff.mpr ih⟩
  | conversion _ _ _ ih | newArray _ _ ih => exact Expr.allRegular_iff.mpr ih
  | newRecord hl _ _ ih => exact ⟨hl, Expr.allRegular_iff.mpr ih⟩
  | parens _ ih | target _ ih | operand _ ih | chain _ ih | expression _ ih => exact ih
  | member _ _ ih | unary _ _ ih => exact ih
  | callOn _ _ _ ih ihs | index _ _ _ ih ihs => exact ⟨ih, Expr.allRegular_iff.mpr ihs⟩
  | binary _ _ _ _ ih ih' => exact ⟨ih, ih'⟩
  | inList _ _ _ _ ih ihs => exact ⟨ih, Expr.allRegular_iff.mpr ihs⟩
  | inSource _ _ _ _ _ ih ih' => exact ⟨ih, ih'⟩
  | conditional _ _ _ ih iha ihb => exact ⟨ih, iha, ihb⟩

/-- The name that a projected expression gives to its property is one. -/
theorem Derives.named {g : Grammar} {form : Form} {e : Expr} {text : String}
    (h : Derives g form e) (htext : e.propertyName? = some text) : Named text := by
  induction h with
  | it =>
    have hit : (("it".map Char.toLower) == "it") = true := by decide +kernel
    rw [Expr.propertyName?, if_pos hit] at htext
    cases htext
  | name hn =>
    rw [Expr.propertyName?] at htext
    split at htext
    · cases htext
    · cases htext
      exact ⟨.identifier, rfl, hn⟩
  | member _ hn =>
    cases htext
    exact hn
  | parens _ ih | target _ ih | operand _ ih | chain _ ih | expression _ ih => exact ih htext
  | _ => cases htext

end QueryExpr
