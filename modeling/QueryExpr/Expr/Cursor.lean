/-
# Walking over tokens

A cursor stands at a token of a text and counts how deeply the expression
read at that place is nested. Reading is a step that moves the cursor and
yields something, or fails. The count is charged on the way in and released
on the way out, on failure as well; a chain of operators is charged link by
link and released as a whole.

A fault in the text is met only when the cursor is moved on to it.

Key definitions: `Cursor`, `Reader`, `Reader.advance`, `Reader.expect`,
`Reader.within`, `Reader.charge`, `Reader.charging`.
-/
import QueryExpr.Token.Stream

namespace QueryExpr

/-- A place among the tokens of a text: the tokens from the current one on,
how they end, where the last token passed stops, how deep the nesting is, and
how much of it the current chain has charged. -/
structure Cursor where
  ahead : List Token
  ending : Except Failure Nat
  lastStop : Nat
  depth : Nat
  charged : Nat

namespace Cursor

/-- The cursor at the first of the tokens of a text that starts at `start`. -/
def atStart (start : Nat) (ts : Tokens) : Cursor := ⟨ts.list, ts.ending, start, 0, 0⟩

/-- The current token; behind the last one it is the end. -/
def current (c : Cursor) : Token :=
  match c.ahead with
  | t :: _ => t
  | [] =>
    match c.ending with
    | .ok position => Token.endAt position
    | .error f => Token.endAt f.span.start

/-- The kind of the token behind the current one, unless it is a fault. -/
def next? (c : Cursor) : Option TokenKind :=
  match c.ahead with
  | _ :: t :: _ => some t.kind
  | _ =>
    match c.ending with
    | .ok _ => some .endOfText
    | .error _ => none

/-- The fault that the cursor stands at. -/
def fault? (c : Cursor) : Option Failure :=
  match c.ahead, c.ending with
  | [], .error f => some f
  | _, _ => none

/-- The cursor at the token behind the current one. -/
def moved (c : Cursor) : Cursor := { c with ahead := c.ahead.tail, lastStop := c.current.stop }

end Cursor

/-- A step of reading: it moves a cursor and yields something, or fails. -/
abbrev Reader := ExceptT Failure (StateM Cursor)

namespace Reader

/-- Fails for a cause at a span. -/
def fail {α : Type} (cause : Cause) (span : Span) : Reader α := throw ⟨cause, span⟩

/-- The current token. -/
def current : Reader Token := do return (← get).current

/-- The kind of the current token. -/
def kind : Reader TokenKind := do return (← current).kind

/-- Meets the fault that the cursor stands at. -/
def meetFault : Reader Unit := do
  match (← get).fault? with
  | some f => throw f
  | none => pure ()

/-- Moves on to the next token. -/
def advance : Reader Unit := do
  modify Cursor.moved
  meetFault

/-- The span from `start` up to the last token passed. -/
def spanFrom (start : Nat) : Reader Span := do return .ofBounds start (← get).lastStop

/-- Moves over a token of the given kind. -/
def expect (k : TokenKind) : Reader Unit := do
  let t ← current
  if t.kind == k then advance
  else fail (.expected ((k.symbolText?.or k.keywordText?).getD "token")) t.span

/-- Fails because of the current token. -/
def unexpected {α : Type} : Reader α := do
  let t ← current
  if t.kind == .endOfText then fail .expressionExpected t.span
  else fail (.unexpected t.written) t.span

/-- Goes one level deeper, which may pass the limit. -/
def enter (limit : Nat) : Reader Unit := do
  modify fun c => { c with depth := c.depth + 1 }
  let c ← get
  if limit < c.depth then fail (.nestedTooDeeply limit) c.current.span

/-- Does what follows in the state that a step leaves, whether or not the step
fails. -/
def andFinally {α : Type} (step : Reader α) (after : Cursor → Cursor) : Reader α := fun c =>
  let (result, c) := step c
  (result, after c)

/-- Reads one level deeper. -/
def within {α : Type} (limit : Nat) (step : Reader α) : Reader α := do
  enter limit
  andFinally step fun c => { c with depth := c.depth - 1 }

/-- Goes one level deeper until the end of the chain. -/
def charge (limit : Nat) : Reader Unit := do
  modify fun c => { c with charged := c.charged + 1 }
  enter limit

/-- Reads a chain, and takes back what its links have charged. -/
def charging {α : Type} (chain : Reader α) : Reader α := fun c =>
  andFinally chain
    (fun d => { d with depth := d.depth - d.charged, charged := c.charged })
    { c with charged := 0 }

end Reader
end QueryExpr
