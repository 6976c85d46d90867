/-
# Regular expressions of the grammar

A tree may hold more than a text can spell. In a regular one every value of a
projection has a name, and the names of calls are of a given kind.

Key definitions: `Expr.Regular`.
Key theorems: `Expr.Regular.mono`.
-/
import QueryExpr.Expr

namespace QueryExpr.Expr

mutual
/-- Every value of a projection has a name, and calls have names of the given
kind. -/
def Regular (call : String → Prop) : Expr → Prop
  | .literal _ _ _ | .name _ | .typeName _ => True
  | .member target _ _ => target.Regular call
  | .index target arguments _ => target.Regular call ∧ AllRegular call arguments
  | .call n arguments _ => call n.text ∧ AllRegular call arguments
  | .callOn target _ arguments _ => target.Regular call ∧ AllRegular call arguments
  | .conversion _ arguments _ => AllRegular call arguments
  | .unary _ operand _ => operand.Regular call
  | .binary _ left right _ => left.Regular call ∧ right.Regular call
  | .conditional c a b _ => c.Regular call ∧ a.Regular call ∧ b.Regular call
  | .inList operand candidates _ => operand.Regular call ∧ AllRegular call candidates
  | .inSource operand source _ => operand.Regular call ∧ source.Regular call
  | .newRecord names values _ => names.length = values.length ∧ AllRegular call values
  | .newArray _ elements _ => AllRegular call elements
termination_by structural e => e

/-- All of the expressions are regular. -/
def AllRegular (call : String → Prop) : List Expr → Prop
  | [] => True
  | e :: es => e.Regular call ∧ AllRegular call es
termination_by structural es => es
end

theorem allRegular_iff {call : String → Prop} {es : List Expr} :
    AllRegular call es ↔ ∀ e ∈ es, e.Regular call := by
  induction es with
  | nil => simp [AllRegular]
  | cons e es ih => simp [AllRegular, ih]

mutual
/-- Names of a kind are names of any wider kind. -/
theorem Regular.mono {call call' : String → Prop} (hc : ∀ n, call n → call' n) :
    ∀ e : Expr, e.Regular call → e.Regular call'
  | .literal .., _ | .name _, _ | .typeName _, _ => trivial
  | .member e _ _, h => Regular.mono hc e h
  | .index e es _, h => ⟨Regular.mono hc e h.1, AllRegular.mono hc es h.2⟩
  | .call n es _, h => ⟨hc n.text h.1, AllRegular.mono hc es h.2⟩
  | .callOn e _ es _, h => ⟨Regular.mono hc e h.1, AllRegular.mono hc es h.2⟩
  | .conversion _ es _, h => AllRegular.mono hc es h
  | .unary _ e _, h => Regular.mono hc e h
  | .binary _ l r _, h => ⟨Regular.mono hc l h.1, Regular.mono hc r h.2⟩
  | .conditional c a b _, h =>
    ⟨Regular.mono hc c h.1, Regular.mono hc a h.2.1, Regular.mono hc b h.2.2⟩
  | .inList e es _, h => ⟨Regular.mono hc e h.1, AllRegular.mono hc es h.2⟩
  | .inSource e s _, h => ⟨Regular.mono hc e h.1, Regular.mono hc s h.2⟩
  | .newRecord _ es _, h => ⟨h.1, AllRegular.mono hc es h.2⟩
  | .newArray _ es _, h => AllRegular.mono hc es h

theorem AllRegular.mono {call call' : String → Prop} (hc : ∀ n, call n → call' n) :
    ∀ es : List Expr, AllRegular call es → AllRegular call' es
  | [], _ => trivial
  | e :: es, h => ⟨Regular.mono hc e h.1, AllRegular.mono hc es h.2⟩
end

end QueryExpr.Expr
