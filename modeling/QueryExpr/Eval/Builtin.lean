/-
# Built-in functions on values

What the built-in properties, methods and functions come to. Those of texts
need a text to work on; positions in a text count characters from zero.

Key definitions: `Intrinsic.substring`, `Intrinsic.roundEven`,
`Intrinsic.onText`, `Intrinsic.apply`.
Key theorems: `Intrinsic.substring_append`.
-/
import QueryExpr.Term.Operator
import QueryExpr.Text.Case
import QueryExpr.Text.Search
import QueryExpr.Value

namespace QueryExpr.Intrinsic

/-- The error of a function that has nothing to work on. -/
def noTarget (op : Intrinsic) : EvalError := .nullReference op.name

/-- The argument at a place, which has to be a text. -/
def textArgument (arguments : List Value) (i : Nat) : Except EvalError (List Char) :=
  match arguments[i]? with
  | some v =>
    match v.string? with
    | some s => .ok s.toList
    | none =>
      if v.isNull then .error (.nullReference "string argument")
      else .error (.typeMismatch "String" v.typeName)
  | none => .error (.argumentCount (i + 1) arguments.length)

/-- The argument at a place, which has to be an integer or a character. -/
def integerArgument (arguments : List Value) (i : Nat) : Except EvalError Int :=
  match arguments[i]?.bind Value.integer? with
  | some n => .ok n
  | none => .error (.argumentCount (i + 1) arguments.length)

/-- What an argument searches for: a text, or one character. -/
def needle (arguments : List Value) : Except EvalError (List Char) :=
  match arguments.head? with
  | some (.scalar (.char c)) => .ok [c]
  | _ => textArgument arguments 0

/-- The characters of a text from a position on, as many as asked for. -/
def substring (cs : List Char) (start length : Int) : Except EvalError (List Char) :=
  if start < 0 || length < 0 || cs.length < start + length then
    .error (.argumentOutOfRange "Substring")
  else .ok ((cs.drop start.toNat).take length.toNat)

/-- Both parts of a text that is divided at a position give the text. -/
theorem substring_append {cs : List Char} {i : Int} (h0 : 0 ≤ i) (h1 : i ≤ cs.length) :
    ∃ front back, substring cs 0 i = .ok front ∧ substring cs i (cs.length - i) = .ok back ∧
      front ++ back = cs := by
  refine ⟨cs.take i.toNat, cs.drop i.toNat, ?_, ?_, List.take_append_drop _ _⟩
  · have h2 : ¬ (i < 0) := by omega
    have h3 : ¬ ((cs.length : Int) < i) := by omega
    simp [substring, h2, h3]
  · have h2 : ¬ (i < 0) := by omega
    have h3 : ¬ ((cs.length : Int) - i < 0) := by omega
    have h4 : ¬ ((cs.length : Int) < i + (cs.length - i)) := by omega
    have h5 : ((cs.length : Int) - i).toNat = (cs.drop i.toNat).length := by
      simp only [List.length_drop]; omega
    simp only [substring, h2, h3, h4, decide_false, Bool.or_self, Bool.false_eq_true, if_false, h5,
      List.take_length]

/-- A number made from the characters of a text, so that equal texts have
equal numbers. -/
def hash (cs : List Char) : Int :=
  cs.foldl (fun h c => (h * 16777619 + c.toNat + 1) % 4294967296) 2166136261

/-- The integer next to `x` on the side of zero. -/
def towardZero (x : Float) : Float := if x < 0.0 then x.ceil else x.floor

/-- The integer nearest to `x`, of two the even one. -/
def roundEven (x : Float) : Float :=
  if (x - towardZero x).abs == 0.5 then 2.0 * (x / 2.0).round else x.round

/-- How a rounding function rounds. -/
def rounding (op : Intrinsic) : Float → Float :=
  match op with
  | .mathFloor => Float.floor
  | .mathCeiling => Float.ceil
  | _ => roundEven

/-- The size of a number. The least integer of a type has no size of that
type, and stays. -/
def absolute (arguments : List Value) : Except EvalError Value :=
  match arguments.head? with
  | some (.scalar (.int n)) =>
    if n.type.signed then .ok (.scalar (.int (.wrap n.type n.value.natAbs)))
    else .error (.argumentCount 1 arguments.length)
  | some (.scalar (.single x)) => .ok (.scalar (.single x.abs))
  | some (.scalar (.double x)) => .ok (.scalar (.double x.abs))
  | some (.scalar (.decimal x)) => .ok (.scalar (.decimal x.abs))
  | _ => .error (.argumentCount 1 arguments.length)

/-- The less or the greater of two values. Of two that do not compare it is
the first. -/
def extreme (op : Intrinsic) (arguments : List Value) : Except EvalError Value :=
  match arguments with
  | [a, b] =>
    let o := (a.compare? b).getD .eq
    if op == .mathMin then .ok (if o != .gt then a else b) else .ok (if o != .lt then a else b)
  | _ => .error (.argumentCount 2 arguments.length)

/-- A number rounded to an integer. -/
def rounded (op : Intrinsic) (arguments : List Value) : Except EvalError Value :=
  match arguments.head? with
  | some (.scalar (.double x)) => .ok (.scalar (.double (op.rounding x)))
  | some (.scalar (.decimal x)) => .ok (.scalar (.decimal (op.rounding x)))
  | _ => .error (.argumentCount 1 arguments.length)

/-- A text of the given characters. -/
def ofChars (cs : List Char) : Value := .string (String.ofList cs)

/-- The functions on the characters of a text. -/
def onText (op : Intrinsic) (cs : List Char) (arguments : List Value) : Except EvalError Value :=
  match op with
  | .stringLength => .ok (.int32 cs.length)
  | .stringContains =>
    (textArgument arguments 0).map fun s => .boolean (Text.find? s cs).isSome
  | .stringStartsWith => (textArgument arguments 0).map fun s => .boolean (s.isPrefixOf cs)
  | .stringEndsWith => (textArgument arguments 0).map fun s => .boolean (s.isSuffixOf cs)
  | .stringIndexOf =>
    (needle arguments).map fun s =>
      match Text.find? s cs with
      | some i => .int32 i
      | none => .int32 (-1)
  | .stringSubstring => do
    let start ← integerArgument arguments 0
    let length ←
      if arguments.length == 1 then .ok (cs.length - start) else integerArgument arguments 1
    (substring cs start length).map ofChars
  | .stringToUpper => .ok (ofChars (Text.upperCase cs))
  | .stringToLower => .ok (ofChars (Text.lowerCase cs))
  | .stringTrim => .ok (ofChars (Text.trim cs))
  | _ => .error op.noTarget

/-- Applies a built-in function to its target and its arguments. -/
def apply (op : Intrinsic) (target : Value) (arguments : List Value) : Except EvalError Value :=
  match op with
  | .toString => if target.isNull then .error op.noTarget else .ok (.string target.text)
  | .equals =>
    if target.isNull then .error op.noTarget
    else .ok (.boolean (arguments.head?.any target.equals))
  | .getHashCode => .ok (.int32 (hash target.text.toList))
  | .stringIsNullOrEmpty =>
    match arguments.head? with
    | some v => .ok (.boolean (v.isNull || v.string? == some ""))
    | none => .ok (.boolean true)
  | .arrayLength =>
    match target with
    | .list _ items => .ok (.int32 items.length)
    | _ => .error op.noTarget
  | .nullableHasValue => .ok (.boolean !target.isNull)
  | .nullableValue => if target.isNull then .error op.noTarget else .ok target
  | .mathAbs => absolute arguments
  | .mathMin | .mathMax => op.extreme arguments
  | .mathFloor | .mathCeiling | .mathRound => op.rounded arguments
  | _ =>
    match target.string? with
    | some s => op.onText s.toList arguments
    | none => .error op.noTarget

end QueryExpr.Intrinsic
