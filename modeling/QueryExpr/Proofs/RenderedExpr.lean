/-
# Expressions as texts

An expression written out again. Literals, names and the names of types are
written as they were, operators with their first spelling. A left operand, and
what a suffix follows, stand between parentheses only if they have to; what
follows `in` never does, for a parenthesis there starts a list; every other
operand does unless it is a leaf, and so does a number behind a minus sign,
which would become part of it.

The text is given by its pieces, which are written with blanks between them. A
number may have a minus sign of its own, so that a piece is one word or two.

Key definitions: `Expr.bare`, `Expr.level`, `Expr.pieces`, `Expr.rendered`,
`Expr.words`.
Key theorems: `Expr.bareAll_eq_map`, `Expr.piecesAll_eq_map`.
-/
import QueryExpr.Proofs.Derivation

namespace QueryExpr

/-- The name without its place. -/
def Name.bare (n : Name) : Name := ⟨n.text, .empty 0⟩

/-- The name of a type without its place. -/
def TypeName.bare (type : TypeName) : TypeName := ⟨type.name.bare, type.known⟩

/-- Pieces with commas between them. -/
def commas : List (List String) → List String
  | [] => []
  | [ps] => ps
  | ps :: pss => ps ++ "," :: commas pss

/-- Pieces between brackets, with commas between them. -/
def enclosed (opening : String) (pss : List (List String)) (close : String) : List String :=
  opening :: (commas pss ++ [close])

/-- Pieces between parentheses, if there have to be some. -/
def wrapped (needed : Bool) (ps : List String) : List String :=
  if needed then "(" :: (ps ++ [")"]) else ps

/-- Pieces with blanks between them. -/
def spaced : List String → List Char
  | [] => []
  | [p] => p.toList
  | p :: ps => p.toList ++ ' ' :: spaced ps

/-- The words of a piece: a minus sign is a word of its own. -/
def wordsOf (p : String) : List String :=
  match p.toList with
  | '-' :: c :: cs => ["-", String.ofList (c :: cs)]
  | _ => [p]

namespace Expr

mutual
/-- The expression without the places of its parts. -/
def bare : Expr → Expr
  | .literal v w _ => .literal v w (.empty 0)
  | .name n => .name n.bare
  | .typeName type => .typeName type.bare
  | .member e n _ => .member e.bare n.bare (.empty 0)
  | .index e es _ => .index e.bare (bareAll es) (.empty 0)
  | .call n es _ => .call n.bare (bareAll es) (.empty 0)
  | .callOn e n es _ => .callOn e.bare n.bare (bareAll es) (.empty 0)
  | .conversion type es _ => .conversion type.bare (bareAll es) (.empty 0)
  | .unary op e _ => .unary op e.bare (.empty 0)
  | .binary op l r _ => .binary op l.bare r.bare (.empty 0)
  | .conditional c a b _ => .conditional c.bare a.bare b.bare (.empty 0)
  | .inList e es _ => .inList e.bare (bareAll es) (.empty 0)
  | .inSource e source _ => .inSource e.bare source.bare (.empty 0)
  | .newRecord ns es _ => .newRecord (ns.map Name.bare) (bareAll es) (.empty 0)
  | .newArray type es _ => .newArray (type.map TypeName.bare) (bareAll es) (.empty 0)
termination_by structural e => e

/-- The expressions without the places of their parts. -/
def bareAll : List Expr → List Expr
  | [] => []
  | e :: es => e.bare :: bareAll es
termination_by structural es => es
end

/-- How strongly the outermost operator binds. -/
def level : Expr → Level
  | .unary _ _ _ => .unary
  | .binary op _ _ _ => op.level
  | .inList _ _ _ | .inSource _ _ _ => .relational
  | .conditional _ _ _ _ => .conditional
  | _ => .primary

/-- Whether the expression has no parts. -/
def isLeaf : Expr → Bool
  | .literal _ _ _ | .name _ | .typeName _ => true
  | _ => false

/-- Whether the expression is a number. -/
def isNumber : Expr → Bool
  | .literal (.integer _ _ _) _ _ | .literal (.real _ _) _ _ => true
  | _ => false

/-- Whether a left operand of the operator needs parentheses: if it binds less
strongly, and on the left of `??` also if it is one of `??`. -/
def needsParens (op : BinaryOp) (left : Expr) : Bool :=
  left.level.rank < op.level.rank || op == .coalesce && left.level == .coalescing

mutual
/-- The pieces that the expression is written with. -/
def pieces : Expr → List String
  | .literal _ w _ => [w]
  | .name n => [n.text]
  | .typeName type => [type.name.text]
  | .member e n _ => wrapped (e.level != .primary) e.pieces ++ [".", n.text]
  | .index e es _ => wrapped (e.level != .primary) e.pieces ++ enclosed "[" (piecesAll es) "]"
  | .call n es _ => n.text :: enclosed "(" (piecesAll es) ")"
  | .callOn e n es _ =>
    wrapped (e.level != .primary) e.pieces ++ "." :: n.text :: enclosed "(" (piecesAll es) ")"
  | .conversion type es _ => type.name.text :: enclosed "(" (piecesAll es) ")"
  | .unary op e _ => op.symbol :: wrapped (!e.isLeaf || op == .negate && e.isNumber) e.pieces
  | .binary op l r _ =>
    wrapped (needsParens op l) l.pieces ++ op.symbol :: wrapped (!r.isLeaf) r.pieces
  | .conditional c a b _ =>
    wrapped (!c.isLeaf) c.pieces ++ "?" :: (wrapped (!a.isLeaf) a.pieces ++
      ":" :: wrapped (!b.isLeaf) b.pieces)
  | .inList e es _ =>
    wrapped (e.level.rank < Level.relational.rank) e.pieces ++
      "in" :: enclosed "(" (piecesAll es) ")"
  | .inSource e source _ =>
    wrapped (e.level.rank < Level.relational.rank) e.pieces ++ "in" :: source.pieces
  | .newRecord ns es _ =>
    "new" :: enclosed "\x7b" (ns.zipWith (fun n ps => n.text :: ":" :: ps) (piecesAll es)) "\x7d"
  | .newArray type es _ =>
    "new" :: ((type.map (·.name.text)).toList ++
      "[" :: "]" :: enclosed "\x7b" (piecesAll es) "\x7d")
termination_by structural e => e

/-- The pieces that each of the expressions is written with. -/
def piecesAll : List Expr → List (List String)
  | [] => []
  | e :: es => e.pieces :: piecesAll es
termination_by structural es => es
end

/-- The text that the expression is written as. -/
def rendered (e : Expr) : List Char := spaced e.pieces

/-- The words that the expression is written with. -/
def words (e : Expr) : List String := e.pieces.flatMap wordsOf

theorem bareAll_eq_map (es : List Expr) : bareAll es = es.map bare := by
  induction es with
  | nil => rfl
  | cons e es ih => exact congrArg (e.bare :: ·) ih

theorem piecesAll_eq_map (es : List Expr) : piecesAll es = es.map pieces := by
  induction es with
  | nil => rfl
  | cons e es ih => exact congrArg (e.pieces :: ·) ih

end Expr
end QueryExpr
