/-
# Options written as JSON

Options are read from a JSON object with a key for each option, or from a
JSON array with the options in order. A key or an entry that is left out has
its default; a key of no option is passed over with its value, which has to
be well formed. A key of an option may be there once, and its value is an
integer of 32 bits without sign or a truth value. Nothing but blanks may
follow.

Key definitions: `Json.skipValue`, `Json.stringBody?`, `PartialOptions.member?`,
`Options.ofJson?`.
-/
import QueryExpr.Options
import QueryExpr.Number.Reading
import QueryExpr.Number.Sized
import QueryExpr.Text.CharClass

namespace QueryExpr
namespace Json

/-- Drops the blanks at the start. -/
def skipBlanks (cs : List Char) : List Char :=
  cs.dropWhile fun c => c == ' ' || c == '\n' || c == '\t' || c == '\r'

/-- Drops a given text at the start. -/
def skipText? : List Char → List Char → Option (List Char)
  | [], cs => some cs
  | w :: ws, c :: cs => if w == c then skipText? ws cs else none
  | _ :: _, [] => none

/-- The character that a letter behind a backslash stands for. -/
def escape? (c : Char) : Option Char :=
  match c with
  | '"' => some '"'
  | '\\' => some '\\'
  | '/' => some '/'
  | 'b' => some (Char.ofNat 8)
  | 'f' => some (Char.ofNat 12)
  | 'n' => some '\n'
  | 'r' => some '\r'
  | 't' => some '\t'
  | _ => none

/-- The number of four hexadecimal digits at the start, and what follows. -/
def hex4? : List Char → Option (Nat × List Char)
  | a :: b :: c :: d :: cs =>
    if [a, b, c, d].all Text.isHexDigit then some (naturalOf 16 [a, b, c, d], cs) else none
  | _ => none

/-- Whether a number is the first half of a pair of code units. -/
def isHighSurrogate (n : Nat) : Bool := 0xd800 ≤ n && n < 0xdc00

/-- Whether a number is the second half of a pair of code units. -/
def isLowSurrogate (n : Nat) : Bool := 0xdc00 ≤ n && n < 0xe000

/-- The text behind an opening quote up to its closing quote, and what
follows. If `strict` holds, numbered characters have to be characters. -/
def stringBody? (strict : Bool) : (fuel : Nat) → List Char → Option (List Char × List Char)
  | 0, _ => none
  | fuel + 1, cs =>
    match cs with
    | [] => none
    | '"' :: rest => some ([], rest)
    | '\\' :: 'u' :: rest =>
      match hex4? rest with
      | none => none
      | some (n, rest) =>
        if !strict then stringBody? strict fuel rest
        else if isLowSurrogate n then none
        else if isHighSurrogate n then
          match rest with
          | '\\' :: 'u' :: rest =>
            match hex4? rest with
            | some (m, rest) =>
              if isLowSurrogate m then
                let c := Char.ofNat (0x10000 + (n - 0xd800) * 0x400 + (m - 0xdc00))
                (stringBody? strict fuel rest).map fun r => (c :: r.1, r.2)
              else none
            | none => none
          | _ => none
        else (stringBody? strict fuel rest).map fun r => (Char.ofNat n :: r.1, r.2)
    | '\\' :: c :: rest =>
      match escape? c with
      | some d => (stringBody? strict fuel rest).map fun r => (d :: r.1, r.2)
      | none => none
    | c :: rest =>
      if c == '\\' || c.toNat < 0x20 then none
      else (stringBody? strict fuel rest).map fun r => (c :: r.1, r.2)

/-- What follows the digits at the start, of which there has to be one. -/
def skipDigits? (cs : List Char) : Option (List Char) :=
  match cs with
  | c :: rest => if c.isDigit then some (rest.dropWhile Char.isDigit) else none
  | [] => none

/-- What follows an integer without needless zeros. -/
def skipInteger? : List Char → Option (List Char)
  | '0' :: cs =>
    match cs with
    | d :: _ => if d.isDigit then none else some cs
    | [] => some cs
  | cs => skipDigits? cs

/-- What follows a fraction, if there is one. -/
def skipFraction? : List Char → Option (List Char)
  | '.' :: cs => skipDigits? cs
  | cs => some cs

/-- What follows an exponent, if there is one. -/
def skipExponent? : List Char → Option (List Char)
  | c :: cs =>
    if c == 'e' || c == 'E' then
      match cs with
      | s :: rest => if s == '+' || s == '-' then skipDigits? rest else skipDigits? cs
      | [] => none
    else some (c :: cs)
  | [] => some []

/-- What follows a number. -/
def skipNumber? (cs : List Char) : Option (List Char) := do
  let digits ← skipInteger? (if cs.head? == some '-' then cs.tail else cs)
  skipExponent? (← skipFraction? digits)

mutual
/-- What follows a value. -/
def skipValue : (fuel : Nat) → List Char → Option (List Char)
  | 0, _ => none
  | fuel + 1, cs =>
    match skipBlanks cs with
    | '\x7b' :: rest =>
      match skipBlanks rest with
      | '\x7d' :: rest => some rest
      | rest => skipMembers fuel rest
    | '[' :: rest =>
      match skipBlanks rest with
      | ']' :: rest => some rest
      | rest => skipElements fuel rest
    | '"' :: rest => (stringBody? false (rest.length + 1) rest).map (·.2)
    | 't' :: rest => skipText? ['r', 'u', 'e'] rest
    | 'f' :: rest => skipText? ['a', 'l', 's', 'e'] rest
    | 'n' :: rest => skipText? ['u', 'l', 'l'] rest
    | rest => skipNumber? rest

/-- What follows the members of an object and its closing brace. -/
def skipMembers : (fuel : Nat) → List Char → Option (List Char)
  | 0, _ => none
  | fuel + 1, cs =>
    match skipBlanks cs with
    | '"' :: rest =>
      match stringBody? false (rest.length + 1) rest with
      | none => none
      | some (_, rest) =>
        match skipBlanks rest with
        | ':' :: rest =>
          match skipValue fuel rest with
          | none => none
          | some rest =>
            match skipBlanks rest with
            | ',' :: rest => skipMembers fuel rest
            | '\x7d' :: rest => some rest
            | _ => none
        | _ => none
    | _ => none

/-- What follows the elements of an array and its closing bracket. -/
def skipElements : (fuel : Nat) → List Char → Option (List Char)
  | 0, _ => none
  | fuel + 1, cs =>
    match skipValue fuel cs with
    | none => none
    | some rest =>
      match skipBlanks rest with
      | ',' :: rest => skipElements fuel rest
      | ']' :: rest => some rest
      | _ => none
end

/-- A truth value, and what follows. -/
def boolean? (cs : List Char) : Option (Bool × List Char) :=
  match skipText? ['t', 'r', 'u', 'e'] cs with
  | some rest => some (true, rest)
  | none => (skipText? ['f', 'a', 'l', 's', 'e'] cs).map fun rest => (false, rest)

/-- An integer of 32 bits without sign, fraction or exponent, and what
follows. -/
def unsigned32? (cs : List Char) : Option (Nat × List Char) :=
  match skipInteger? cs with
  | none => none
  | some rest =>
    let n := naturalOf 10 (cs.take (cs.length - rest.length))
    let continued := rest.head?.any fun c => c == '.' || c == 'e' || c == 'E'
    if IntType.holds .uint32 n && !continued then some (n, rest) else none

end Json

/-- The options that are read so far. -/
structure PartialOptions where
  maxDepth : Option Nat
  implicitMembers : Option Bool
  stringConcatenation : Option Bool

namespace PartialOptions

/-- Nothing is read yet. -/
def start : PartialOptions := ⟨none, none, none⟩

/-- The options, with defaults for those not read. -/
def complete (p : PartialOptions) : Options where
  maxDepth := p.maxDepth.getD 200
  implicitMembers := p.implicitMembers.getD true
  stringConcatenation := p.stringConcatenation.getD true

/-- Reads the value of a key, unless it has been read before. -/
def member? (p : PartialOptions) (key : String) (cs : List Char) :
    Option (PartialOptions × List Char) :=
  match key with
  | "maxRecursionDepth" =>
    if p.maxDepth.isSome then none
    else (Json.unsigned32? cs).map fun r => ({ p with maxDepth := some r.1 }, r.2)
  | "implicitMemberAccess" =>
    if p.implicitMembers.isSome then none
    else (Json.boolean? cs).map fun r => ({ p with implicitMembers := some r.1 }, r.2)
  | "stringConcatenation" =>
    if p.stringConcatenation.isSome then none
    else (Json.boolean? cs).map fun r => ({ p with stringConcatenation := some r.1 }, r.2)
  | _ => (Json.skipValue (cs.length + 1) cs).map fun rest => (p, rest)

/-- Reads the members of an object and its closing brace. -/
def members? : (fuel : Nat) → PartialOptions → List Char → Option (PartialOptions × List Char)
  | 0, _, _ => none
  | fuel + 1, p, cs =>
    match Json.skipBlanks cs with
    | '"' :: rest =>
      match Json.stringBody? true (rest.length + 1) rest with
      | none => none
      | some (key, rest) =>
        match Json.skipBlanks rest with
        | ':' :: rest =>
          match p.member? (String.ofList key) (Json.skipBlanks rest) with
          | none => none
          | some (p, rest) =>
            match Json.skipBlanks rest with
            | ',' :: rest => members? fuel p rest
            | '\x7d' :: rest => some (p, rest)
            | _ => none
        | _ => none
    | _ => none

/-- Reads the entries of an array, for the given options in order, and its
closing bracket. -/
def entries? : List String → PartialOptions → List Char → Option (PartialOptions × List Char)
  | [], _, _ => none
  | key :: keys, p, cs =>
    match p.member? key (Json.skipBlanks cs) with
    | none => none
    | some (p, rest) =>
      match Json.skipBlanks rest with
      | ',' :: rest => entries? keys p rest
      | ']' :: rest => some (p, rest)
      | _ => none

end PartialOptions

/-- The keys of the options, in order. -/
def Options.keys : List String :=
  ["maxRecursionDepth", "implicitMemberAccess", "stringConcatenation"]

/-- The options that a JSON text is written for. -/
def Options.ofJson? (text : List Char) : Option Options :=
  let read : Option (PartialOptions × List Char) :=
    match Json.skipBlanks text with
    | '\x7b' :: rest =>
      match Json.skipBlanks rest with
      | '\x7d' :: rest => some (.start, rest)
      | rest => PartialOptions.members? (rest.length + 1) .start rest
    | '[' :: rest =>
      match Json.skipBlanks rest with
      | ']' :: rest => some (.start, rest)
      | rest => PartialOptions.entries? Options.keys .start rest
    | _ => none
  match read with
  | some (p, rest) => if (Json.skipBlanks rest).isEmpty then some p.complete else none
  | none => none

end QueryExpr
