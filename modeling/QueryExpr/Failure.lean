/-
# Failures of compilation

Why a text is not an expression, or not one of the wanted type. A failure is
a cause and the span it is found at. A cause belongs to one of four
categories and has a number of its own and a template of its message. The
message is the template with its numbered slots filled in one after the
other, so a slot that an argument brings in is filled as well if its number
is still to come.

Key definitions: `Cause`, `Cause.code`, `Cause.category`, `Cause.template`,
`Failure`, `Failure.message`, `fillSlots`.
Key theorems: `Cause.category_eq_lexical_iff`.
-/
import QueryExpr.Text.Span
import QueryExpr.Text.Search

namespace QueryExpr

/-- The stage that finds a failure. -/
inductive Category
  | lexical
  | grammar
  | binding
  | synthesis
  deriving DecidableEq, Repr

/-- The name of the stage in a report. -/
def Category.name : Category → String
  | .lexical => "lex error"
  | .grammar => "syntax error"
  | .binding => "bind error"
  | .synthesis => "record synthesis error"

/-- What is wrong with a text. Types, operators and tokens are named by their
display text. -/
inductive Cause
  /-- The end of the text comes before the closing quote. -/
  | unterminatedLiteral
  /-- No token starts with this character. -/
  | invalidCharacter (written : String)
  /-- An exponent has no digit. -/
  | digitExpected
  /-- The mark `0x` has no digit behind it. -/
  | hexDigitExpected
  /-- Another token stands where this one has to. -/
  | expected (token : String)
  /-- The text ends, or a list is empty, where an expression has to stand. -/
  | expressionExpected
  /-- No expression goes on with this token. -/
  | unexpected (token : String)
  /-- No name follows the dot, or the word `as`. -/
  | nameExpected
  /-- A character literal holds no character, or several. -/
  | characterCount
  /-- An integer literal is larger than its types hold. -/
  | integerLiteral (written : String)
  /-- A real literal is larger than its type holds. -/
  | realLiteral (written : String)
  /-- A projected expression has no name of its own and is given none. -/
  | asClauseMissing
  /-- The nesting passes the limit. -/
  | nestedTooDeeply (limit : Nat)
  /-- The ordering clause of this number, counted from one, is empty. -/
  | emptyClause (number : Nat)
  /-- A parenthesis follows something that is not a name. -/
  | notInvocable
  /-- The name is bound to nothing. -/
  | unknownName (name : String)
  /-- The word `it` stands for no parameter. -/
  | noImplicit (declared : Nat)
  /-- Two parameters have the same name. -/
  | duplicateName (name : String)
  /-- The type has no such member. -/
  | noMember (name type : String)
  /-- The type has no method of this name that takes the arguments. -/
  | noMethod (name type : String)
  /-- Several methods take the arguments equally well. -/
  | ambiguousMethod (name type : String)
  /-- The aggregate is not defined for the source and its argument. -/
  | noAggregate (name type : String)
  /-- The binary operator is not defined for the operands. -/
  | operandTypes (operator left right : String)
  /-- The unary operator is not defined for the operand. -/
  | operandType (operator operand : String)
  /-- A condition is not a Boolean. -/
  | booleanExpected (found : String)
  /-- Two alternatives have no common type. -/
  | noCommonType (left right : String)
  /-- The type has no indexer that takes the arguments. -/
  | noIndexer (type : String)
  /-- No conversion leads from one type to the other. -/
  | noConversion (source target : String)
  /-- The expression has another type than the one asked for. -/
  | typeMismatch (wanted found : String)
  /-- An expression is evaluated for nothing, and is not a call. -/
  | callExpected (found : String)
  /-- The predefined type has no such static member. -/
  | noStaticMember (type name : String)
  /-- The left operand of `??` can never be null. -/
  | nullableExpected (found : String)
  /-- A delegate is invoked with the wrong number of arguments. -/
  | argumentCount (delegate : String) (wanted found : Nat)
  /-- An expression without a value is used as a value. -/
  | voidValue
  /-- Two elements of an array have no common type. -/
  | noElementType (left right : String)
  /-- A delegate is given the wrong number of parameter names. -/
  | parameterCount (delegate : String) (wanted found : Nat)
  /-- The function `iif` has three arguments. -/
  | iifArguments
  /-- A conversion has one argument. -/
  | conversionArguments (target : String)
  /-- A property of a record cannot have this name. -/
  | propertyName (name : String)
  /-- Two properties of a record have the same name. -/
  | duplicateProperty (name : String)
  deriving DecidableEq, Repr

namespace Cause

/-- The number of the cause in a report. -/
def code : Cause → Nat
  | .unterminatedLiteral => 1001
  | .invalidCharacter _ => 1002
  | .digitExpected => 1003
  | .hexDigitExpected => 1004
  | .expected _ => 2001
  | .expressionExpected => 2002
  | .unexpected _ => 2003
  | .nameExpected => 2004
  | .characterCount => 2005
  | .integerLiteral _ => 2006
  | .realLiteral _ => 2007
  | .asClauseMissing => 2008
  | .nestedTooDeeply _ => 2009
  | .emptyClause _ => 2010
  | .notInvocable => 2011
  | .unknownName _ => 3001
  | .noImplicit _ => 3002
  | .duplicateName _ => 3003
  | .noMember _ _ => 3004
  | .noMethod _ _ => 3005
  | .ambiguousMethod _ _ => 3006
  | .noAggregate _ _ => 3007
  | .operandTypes _ _ _ => 3008
  | .operandType _ _ => 3009
  | .booleanExpected _ => 3010
  | .noCommonType _ _ => 3011
  | .noIndexer _ => 3012
  | .noConversion _ _ => 3013
  | .typeMismatch _ _ => 3014
  | .callExpected _ => 3015
  | .noStaticMember _ _ => 3016
  | .nullableExpected _ => 3017
  | .argumentCount _ _ _ => 3018
  | .voidValue => 3019
  | .noElementType _ _ => 3020
  | .parameterCount _ _ _ => 3021
  | .iifArguments => 3022
  | .conversionArguments _ => 3023
  | .propertyName _ => 4001
  | .duplicateProperty _ => 4002

/-- The thousands of the number tell the category. -/
def category (c : Cause) : Category :=
  match c.code / 1000 with
  | 1 => .lexical
  | 2 => .grammar
  | 3 => .binding
  | _ => .synthesis

theorem category_eq_lexical_iff (c : Cause) : c.category = .lexical ↔ c.code < 2000 := by
  cases c <;> simp [category, code]

/-- The message with numbered slots where the arguments go. -/
def template : Cause → String
  | .unterminatedLiteral => "Unterminated string literal."
  | .invalidCharacter _ => "Invalid character '\x7b0\x7d'."
  | .digitExpected => "Digit expected."
  | .hexDigitExpected => "Hexadecimal digit expected."
  | .expected _ => "'\x7b0\x7d' expected."
  | .expressionExpected => "Expression expected."
  | .unexpected _ => "Syntax error: unexpected '\x7b0\x7d'."
  | .nameExpected => "Identifier expected."
  | .characterCount => "Character literal must contain exactly one character."
  | .integerLiteral _ => "Invalid integer literal '\x7b0\x7d'."
  | .realLiteral _ => "Invalid real literal '\x7b0\x7d'."
  | .asClauseMissing => "Expression is missing an 'as' clause."
  | .nestedTooDeeply _ => "Expression is nested more than \x7b0\x7d levels deep."
  | .emptyClause _ => "Ordering clause \x7b0\x7d is empty."
  | .notInvocable => "Only named methods, delegates and conversions can be invoked."
  | .unknownName _ => "Unknown identifier '\x7b0\x7d'."
  | .noImplicit _ =>
    "No implicit parameter 'it' is available when \x7b0\x7d parameters are declared."
  | .duplicateName _ => "The identifier '\x7b0\x7d' was defined more than once."
  | .noMember _ _ => "No property or field '\x7b0\x7d' exists in type '\x7b1\x7d'."
  | .noMethod _ _ => "No applicable method '\x7b0\x7d' exists in type '\x7b1\x7d'."
  | .ambiguousMethod _ _ => "Ambiguous invocation of method '\x7b0\x7d' in type '\x7b1\x7d'."
  | .noAggregate _ _ => "No applicable aggregate method '\x7b0\x7d' exists for '\x7b1\x7d'."
  | .operandTypes _ _ _ =>
    "Operator '\x7b0\x7d' incompatible with operand types '\x7b1\x7d' and '\x7b2\x7d'."
  | .operandType _ _ => "Operator '\x7b0\x7d' incompatible with operand type '\x7b1\x7d'."
  | .booleanExpected _ => "Expression of type 'Boolean' expected, found '\x7b0\x7d'."
  | .noCommonType _ _ =>
    "Neither of the types '\x7b0\x7d' and '\x7b1\x7d' converts to the other."
  | .noIndexer _ => "No applicable indexer exists in type '\x7b0\x7d'."
  | .noConversion _ _ =>
    "A value of type '\x7b0\x7d' cannot be converted to type '\x7b1\x7d'."
  | .typeMismatch _ _ => "Expression of type '\x7b0\x7d' expected, found '\x7b1\x7d'."
  | .callExpected _ =>
    "A lambda returning 'Void' requires a method call body, " ++
      "found an expression of type '\x7b0\x7d'."
  | .noStaticMember _ _ => "Type '\x7b0\x7d' has no static member '\x7b1\x7d'."
  | .nullableExpected _ =>
    "Operator '??' requires a nullable or reference left operand, found '\x7b0\x7d'."
  | .argumentCount _ _ _ =>
    "Delegate '\x7b0\x7d' expects \x7b1\x7d arguments but \x7b2\x7d were supplied."
  | .voidValue => "An expression of type 'Void' cannot be used as a value."
  | .noElementType _ _ =>
    "No best element type found for array initializer with '\x7b0\x7d' and '\x7b1\x7d'."
  | .parameterCount _ _ _ =>
    "Delegate '\x7b0\x7d' declares \x7b1\x7d parameters but \x7b2\x7d were supplied."
  | .iifArguments => "The 'iif' function requires three arguments."
  | .conversionArguments _ => "A conversion to '\x7b0\x7d' requires exactly one argument."
  | .propertyName _ => "'\x7b0\x7d' is not a valid property name."
  | .duplicateProperty _ =>
    "Property '\x7b0\x7d' is declared more than once in a record signature."

/-- What goes into the slots, in order. -/
def arguments : Cause → List String
  | .unterminatedLiteral | .digitExpected | .hexDigitExpected | .expressionExpected
  | .nameExpected | .characterCount | .asClauseMissing | .notInvocable | .voidValue
  | .iifArguments => []
  | .invalidCharacter a | .expected a | .unexpected a | .integerLiteral a | .realLiteral a
  | .unknownName a | .duplicateName a | .booleanExpected a | .noIndexer a | .callExpected a
  | .nullableExpected a | .conversionArguments a | .propertyName a | .duplicateProperty a => [a]
  | .nestedTooDeeply n | .emptyClause n | .noImplicit n => [toString n]
  | .noMember a b | .noMethod a b | .ambiguousMethod a b | .noAggregate a b | .operandType a b
  | .noCommonType a b | .noConversion a b | .typeMismatch a b | .noStaticMember a b
  | .noElementType a b => [a, b]
  | .operandTypes a b c => [a, b, c]
  | .argumentCount d m n | .parameterCount d m n => [d, toString m, toString n]

end Cause

/-- The slot of number `i`. -/
def slot (i : Nat) : List Char := '\x7b' :: (toString i).toList ++ ['\x7d']

/-- Fills the slots from number `i` on, one argument after the other, each in
the whole of what the earlier ones left. -/
def fillSlotsFrom (i : Nat) : List (List Char) → List Char → List Char
  | [], text => text
  | a :: as, text => fillSlotsFrom (i + 1) as (Text.replace (slot i) a text)

/-- The template with its slots filled by the arguments. -/
def fillSlots (template : String) (arguments : List String) : String :=
  String.ofList (fillSlotsFrom 0 (arguments.map String.toList) template.toList)

/-- A cause, and the stretch of text it is found at. -/
structure Failure where
  cause : Cause
  span : Span
  deriving DecidableEq, Repr

namespace Failure

/-- What is wrong, in words. -/
def message (f : Failure) : String := fillSlots f.cause.template f.cause.arguments

/-- The message and where the failure starts. -/
def report (f : Failure) : String :=
  f.message ++ " (at index " ++ toString f.span.start ++ ")"

/-- The number of the cause with its mark. -/
def label (f : Failure) : String := "DX" ++ toString f.cause.code

/-- The failure moved `distance` characters to the right. -/
def shift (distance : Nat) (f : Failure) : Failure := ⟨f.cause, f.span.shift distance⟩

end Failure
end QueryExpr
