/-
# Integer literals

A text that is an integer literal and nothing else is one token, or a minus sign
and a token, and is read as the literal that the token stands for. What it compiles
to is settled by its number alone: the constant of the first type that holds the
number, among those that the suffix and the sign allow.

Numbers are bounded twice: the parser takes those of 64 bits, and the checker looks
for a type. The first bound leaves out no number that has a type.

Key definitions: `signedText`, `signedValue`, `literalTypes`.
Key theorems: `Reader.ofTokens_number`, `Reader.ofTokens_negative`, `parse_integer`,
`check_integer`, `Lambda.compile_signed`, `Lambda.compile_integer`.
-/
import Mathlib.Algebra.Group.Nat.Defs
import QueryExpr.Lambda.Compile
import QueryExpr.Proofs.ReadingSteps
import QueryExpr.Proofs.ScannedText
import QueryExpr.Proofs.SpelledIntegers

namespace QueryExpr

open Lexeme

/-! ### A text that is one operand -/

namespace Reader

variable {g : Grammar} {t : Token} {ts : List Token} {stop : Nat} {r : Except Failure Expr}
  {c d : Cursor} {minus : Option Nat}

/-- An operand that is a whole text is read as it is, or its fault is that of the text. -/
theorem whole_operand (hlimit : 1 ≤ g.limit)
    (h : unary g (expression g (ts.length + 1)) (ts.length + 1) ⟨t :: ts, .ok stop, 0, 1, 0⟩ =
      (r, d))
    (hd : ∀ e, r = .ok e → d.current.kind = .endOfText) :
    Expr.ofTokens g 0 ⟨t :: ts, .ok stop⟩ = r := by
  have hclimb : climb g (expression g (ts.length + 1)) (ts.length + 1) .lowest
      ⟨t :: ts, .ok stop, 0, 1, 0⟩ =
        (r, { d with depth := d.depth - d.charged, charged := 0 }) := by
    rw [climb]
    show andFinally _ _ _ = _
    unfold andFinally
    rw [Step.bind_apply, h]
    cases r with
    | error f => rfl
    | ok e =>
      dsimp only
      rw [climbChain_ends (fun l hl => by rw [hd e rfl] at hl; cases hl)]
  have hexpr : expression g (ts.length + 2) ⟨t :: ts, .ok stop, 0, 0, 0⟩ =
      (r, { d with depth := d.depth - d.charged - 1, charged := 0 }) := by
    rw [expression_succ, conditional, within, Step.bind_apply, enter_eq hlimit]
    show andFinally _ _ _ = _
    unfold andFinally
    rw [Step.bind_apply, hclimb]
    cases r with
    | error f => rfl
    | ok e =>
      dsimp only
      rw [kind_bind, if_neg (by show ¬ (d.current.kind == _) = true; rw [hd e rfl]; decide)]
      rfl
  have hwhole : whole g (ts.length + 2) ⟨t :: ts, .ok stop, 0, 0, 0⟩ =
      (r, { d with depth := d.depth - d.charged - 1, charged := 0 }) := by
    rw [whole, Step.bind_apply, meetFault_apply]
    dsimp only [Cursor.fault?, Option.elim]
    rw [Step.bind_apply, hexpr]
    cases r with
    | error f => rfl
    | ok e =>
      dsimp only
      rw [kind_bind, if_neg (by show ¬ (d.current.kind != _) = true; rw [hd e rfl]; decide)]
      rfl
  exact congrArg Prod.fst hwhole

/-- What the last token of a text is read as, a number behind a minus sign or not. -/
def readNumber (t : Token) (minus : Option Nat) : Except Failure Expr :=
  let span := Span.ofBounds (minus.getD t.span.start) t.stop
  match numberOf t minus.isSome with
  | .error cause => .error ⟨cause, span⟩
  | .ok value => .ok (.literal value (if minus.isSome then "-" ++ t.value else t.value) span)

theorem number_last (t : Token) (minus : Option Nat) (stop last depth charged : Nat) : ∃ d,
    number minus ⟨[t], .ok stop, last, depth, charged⟩ = (readNumber t minus, d) ∧
      ∀ e, readNumber t minus = .ok e → d.current.kind = .endOfText ∧ d.depth = depth := by
  unfold number readNumber
  rw [current_bind]
  dsimp only [Cursor.current]
  cases numberOf t minus.isSome with
  | error cause => exact ⟨_, rfl, fun e h => by cases h⟩
  | ok value => exact ⟨_, rfl, fun e _ => ⟨rfl, rfl⟩⟩

/-- Nothing follows the last operand of a text. -/
theorem suffixes_last {m : Reader Expr} (expr : Reader Expr) (fuel : Nat) (hm : m c = (r, d))
    (hd : ∀ e, r = .ok e → d.current.kind = .endOfText) : ∃ d',
    (m >>= suffixes g expr fuel) c = (r, d') ∧
      ∀ e, r = .ok e → d'.current.kind = .endOfText := by
  rw [Step.bind_apply, hm]
  cases r with
  | error f => exact ⟨d, rfl, hd⟩
  | ok e =>
    have hend : suffixChain g expr fuel e { d with charged := 0 } =
        (.ok e, { d with charged := 0 }) :=
      suffixChain_stops (by show d.current.kind.isSuffix = false; rw [hd e rfl]; rfl)
    refine ⟨d, ?_, hd⟩
    show charging _ d = _
    unfold charging andFinally
    rw [hend]
    rfl

/-- **A text that is one number is read as that number.** -/
theorem ofTokens_number (hlimit : 1 ≤ g.limit) (hk : t.kind = .integer ∨ t.kind = .real) :
    Expr.ofTokens g 0 ⟨[t], .ok stop⟩ = readNumber t none := by
  obtain ⟨d, hnumber, hd⟩ := number_last t none stop 0 1 0
  have hprimary : primary g (expression g 1) 0 ⟨[t], .ok stop, 0, 1, 0⟩ =
      (readNumber t none, d) := by
    rw [← hnumber, primary, current_bind]
    dsimp only [Cursor.current]
    rcases hk with hk | hk <;> rw [hk]
  obtain ⟨d', hsuffixes, hd'⟩ := suffixes_last (g := g) (expression g 1) 0 hprimary
    fun e he => (hd e he).1
  refine whole_operand (d := d') hlimit ?_ hd'
  have hfirst : UnaryOp.ofToken? t.kind = none := by rcases hk with hk | hk <;> rw [hk] <;> rfl
  rw [unary_operand g _ _ (c := ⟨[t], .ok stop, 0, 1, 0⟩) hfirst]
  exact hsuffixes

/-- **A number behind a minus sign is read as the negative number.** -/
theorem ofTokens_negative {m : Token} (hlimit : 1 ≤ g.limit) (hm : m.kind = .minus)
    (hk : t.kind = .integer ∨ t.kind = .real) :
    Expr.ofTokens g 0 ⟨[m, t], .ok stop⟩ = readNumber t (some m.span.start) := by
  obtain ⟨d, hnumber, hd⟩ := number_last t (some m.span.start) stop m.stop 1 0
  obtain ⟨d', hsuffixes, hd'⟩ := suffixes_last (g := g) (expression g 2) 1 hnumber
    fun e he => (hd e he).1
  refine whole_operand (d := d') hlimit ?_ hd'
  have hminus : UnaryOp.ofToken? m.kind = some .negate := by rw [hm]; rfl
  show unary g (expression g 2) 2 ⟨[m, t], .ok stop, 0, 1, 0⟩ = _
  rw [unary, current_bind]
  dsimp only [Cursor.current]
  rw [hminus]
  dsimp only
  have hnext : Cursor.next? ⟨[m, t], .ok stop, 0, 1, 0⟩ = some t.kind := rfl
  rw [get_bind, hnext, if_pos (by rcases hk with hk | hk <;> rw [hk] <;> rfl)]
  exact hsuffixes

end Reader

/-! ### The tokens of a literal -/

variable {n : Nat} {suffix : IntegerSuffix} {text bs : List Char}

/-- The token that a spelled integer is, at a position. -/
def integerAt (position : Nat) (text : List Char) : Token :=
  ⟨.integer, ⟨position, text.length⟩, String.ofList text, String.ofList text⟩

theorem readTokens_integer (h : SpelledInteger n suffix text) (position : Nat) :
    readTokens position 0 text =
      ⟨[integerAt position text], .ok (position + text.length)⟩ := by
  obtain ⟨c, cs, rfl, hc, hl⟩ := h.lexeme
  rw [readTokens_lexeme position hc hl]
  dsimp only
  rw [List.drop_length, readTokens_nil, Token.ofLexeme]
  dsimp only
  rw [List.take_length]
  rfl

theorem readTokens_negative (h : SpelledInteger n suffix text)
    (hb : ∀ b ∈ bs, Text.isBlank b = true) :
    readTokens 0 0 ('-' :: (bs ++ text)) =
      ⟨[⟨.minus, ⟨0, 1⟩, "", "-"⟩, integerAt (bs.length + 1) text],
        .ok (bs.length + 1 + text.length)⟩ := by
  have hminus : lexeme '-' (bs ++ text) = .ok ⟨.minus, [], 1⟩ := rfl
  have hdrop : ('-' :: (bs ++ text)).drop 1 = bs ++ text := rfl
  rw [readTokens_lexeme 0 (by decide +kernel) hminus]
  dsimp only
  rw [hdrop, readTokens_blanks _ hb, readTokens_integer h, Nat.zero_add, Nat.add_comm 1]
  rfl

/-! ### Compiling a literal -/

/-- An integer literal: its sign, the blanks behind that, and the number with its
suffix. -/
def signedText (blanks : Option (List Char)) (text : List Char) : List Char :=
  match blanks with
  | some bs => '-' :: (bs ++ text)
  | none => text

/-- The number that a literal stands for, behind a minus sign or not. -/
def signedValue (negative : Bool) (n : Nat) : Int := if negative then -n else n

/-- The types that an integer literal may have, the first one first. -/
def literalTypes (negative : Bool) : IntegerSuffix → List IntType
  | .none => if negative then [.int32, .int64] else [.int32, .uint32, .int64, .uint64]
  | .unsigned => if negative then [] else [.uint32, .uint64]
  | .long => if negative then [.int64] else [.int64, .uint64]
  | .unsignedLong => if negative then [] else [.uint64]

variable {blanks : Option (List Char)} {g : Grammar}

/-- A number that 64 bits hold is taken as it is, and a larger one is a fault. -/
theorem numberOf_integer (h : SpelledInteger n suffix text) (position : Nat) (negative : Bool) :
    Reader.numberOf (integerAt position text) negative =
      if IntType.holds .uint64 n then .ok (.integer n negative suffix)
      else .error (.integerLiteral (String.ofList text)) := by
  have hinteger : Reader.integerOf (integerAt position text).value.toList = (n, suffix) := by
    rw [integerAt, String.toList_ofList, h.integerOf_eq]
  unfold Reader.numberOf
  rw [if_pos (by rfl), hinteger]
  rfl

/-- A literal is read as its number, from its first character to its last one. -/
theorem parse_integer (hlimit : 1 ≤ g.limit) (h : SpelledInteger n suffix text)
    (hb : ∀ bs, blanks = some bs → ∀ b ∈ bs, Text.isBlank b = true) :
    ∃ written, Expr.parse g (signedText blanks text) =
      if IntType.holds .uint64 n then
        .ok (.literal (.integer n blanks.isSome suffix) written
          ⟨0, (signedText blanks text).length⟩)
      else
        .error ⟨.integerLiteral (String.ofList text), ⟨0, (signedText blanks text).length⟩⟩ := by
  cases blanks with
  | none =>
    have hspan : Span.ofBounds 0 (integerAt 0 text).stop =
        ⟨0, (signedText none text).length⟩ := by
      simp [integerAt, Token.stop, Span.stop, Span.ofBounds, signedText]
    refine ⟨String.ofList text, ?_⟩
    show Expr.ofTokens g 0 (readTokens 0 0 text) = _
    rw [readTokens_integer h, Reader.ofTokens_number hlimit (.inl rfl), Reader.readNumber,
      ← hspan, Option.isSome_none, numberOf_integer h]
    cases IntType.holds .uint64 n <;> rfl
  | some bs =>
    have hspan : Span.ofBounds 0 (integerAt (bs.length + 1) text).stop =
        ⟨0, (signedText (some bs) text).length⟩ := by
      simp [integerAt, Token.stop, Span.stop, Span.ofBounds, signedText]
      omega
    refine ⟨"-" ++ String.ofList text, ?_⟩
    show Expr.ofTokens g 0 (readTokens 0 0 ('-' :: (bs ++ text))) = _
    rw [readTokens_negative h (hb bs rfl), Reader.ofTokens_negative hlimit rfl (.inl rfl),
      Reader.readNumber, ← hspan, Option.isSome_some, numberOf_integer h]
    cases IntType.holds .uint64 n <;> rfl

/-- A number that one of the types holds is one of 64 bits. -/
theorem holds_uint64 {t : IntType} {negative : Bool}
    (h : (literalTypes negative suffix).find? (·.holds (signedValue negative n)) = some t) :
    IntType.holds .uint64 n = true := by
  have hholds := List.find?_some h
  rw [IntType.holds_iff] at hholds ⊢
  have hmin : IntType.min .uint64 = 0 := rfl
  have hmax : IntType.max .uint64 = 18446744073709551615 := rfl
  have hrange : -9223372036854775808 ≤ t.min ∧ t.max ≤ 18446744073709551615 := by
    cases t <;> decide
  unfold signedValue at hholds
  split at hholds <;> omega

theorem types_eq (negative : Bool) (suffix : IntegerSuffix) :
    suffix.types negative = literalTypes negative suffix := by
  cases suffix <;> rfl

/-- The check of a literal gives the constant of the first type that holds its
number. -/
theorem check_integer (o : Options) (table : ParameterTable) (records : RecordCache)
    (n : Nat) (negative : Bool) (suffix : IntegerSuffix) (written : String) (span : Span) :
    (Expr.literal (.integer n negative suffix) written span).check o table records =
      match (literalTypes negative suffix).find? (·.holds (signedValue negative n)) with
      | some t => (.ok (.constant (.int (.wrap t (signedValue negative n))) (.prim (.int t)) span),
          records)
      | none => (.error ⟨.integerLiteral written, span⟩, records) := by
  have hinteger : Literal.integer? n negative suffix =
      ((literalTypes negative suffix).find? (·.holds (signedValue negative n))).map
        fun t => .int (.wrap t (signedValue negative n)) := by
    rw [← types_eq]
    rfl
  have hcheck : Check.literal (.integer n negative suffix) written span =
      match (literalTypes negative suffix).find? (·.holds (signedValue negative n)) with
      | some t => pure (.ofScalar (.int (.wrap t (signedValue negative n))) span)
      | none => Check.fail (.integerLiteral written) span := by
    unfold Check.literal
    dsimp only
    rw [hinteger]
    cases (literalTypes negative suffix).find? (·.holds (signedValue negative n)) <;> rfl
  show ((Check.literal (.integer n negative suffix) written span ⟨records, .ofTable table⟩).1,
    (Check.literal (.integer n negative suffix) written span
      ⟨records, .ofTable table⟩).2.records) = _
  rw [hcheck]
  cases (literalTypes negative suffix).find? (·.holds (signedValue negative n)) <;> rfl

/-- What a literal compiles to: the constant of the first type that holds its number. -/
theorem Lambda.compile_signed {ds : List Declaration} {implicit : Option Nat}
    {table : ParameterTable} (records : RecordCache)
    (hmake : ParameterTable.make ds implicit = .ok table) (h : SpelledInteger n suffix text)
    (hb : ∀ bs, blanks = some bs → ∀ b ∈ bs, Text.isBlank b = true) : ∃ written,
    Lambda.compile {} ds implicit .inferred (String.ofList (signedText blanks text)) records =
      match (literalTypes blanks.isSome suffix).find? (·.holds (signedValue blanks.isSome n)) with
      | some t =>
        let body := .constant (.int (.wrap t (signedValue blanks.isSome n))) (.prim (.int t))
          ⟨0, (signedText blanks text).length⟩
        (.ok ⟨ds, body, .prim (.int t), .ofDelegate none ds (.prim (.int t))⟩, records)
      | none =>
        (.error ⟨.integerLiteral written, ⟨0, (signedText blanks text).length⟩⟩, records) := by
  have hlimit : 1 ≤ (Options.grammar {} table).limit := Nat.le_of_ble_eq_true rfl
  obtain ⟨written, hparse⟩ := parse_integer hlimit h hb
  unfold Lambda.compile
  rw [hmake]
  dsimp only
  rw [String.toList_ofList, hparse]
  cases hfits : IntType.holds .uint64 n with
  | true =>
    refine ⟨written, ?_⟩
    rw [if_pos rfl]
    dsimp only
    rw [check_integer]
    cases (literalTypes blanks.isSome suffix).find? (·.holds (signedValue blanks.isSome n)) <;> rfl
  | false =>
    refine ⟨String.ofList text, ?_⟩
    cases hfirst : (literalTypes blanks.isSome suffix).find?
        (·.holds (signedValue blanks.isSome n)) with
    | none => rfl
    | some t => exact absurd (holds_uint64 hfirst) (Bool.eq_false_iff.mp hfits)

/-- **An integer literal compiles to the number that is written.** Its digits are to the
base ten, or to the base sixteen behind a mark, with any number of zeros in front; there
may be a suffix, and a minus sign with blanks behind it. The lambda returns the constant
of the first type that holds the number among those of the suffix and the sign. If there
is none of these, compiling fails with the error of an integer literal; so it is for
numbers of more than 64 bits, and for negative ones with the suffix of unsigned types. -/
theorem Lambda.compile_integer {ds : List Declaration} {implicit : Option Nat}
    {table : ParameterTable} (records : RecordCache)
    (hmake : ParameterTable.make ds implicit = .ok table) (h : SpelledInteger n suffix text)
    (hb : ∀ bs, blanks = some bs → ∀ b ∈ bs, Text.isBlank b = true) :
    let compiled :=
      Lambda.compile {} ds implicit .inferred (String.ofList (signedText blanks text)) records
    let value := signedValue blanks.isSome n
    let first := (literalTypes blanks.isSome suffix).find? (·.holds value)
    (∀ t, first = some t → ∃ c : SizedInt, c.type = t ∧ c.value = value ∧
      compiled = (.ok ⟨ds,
        .constant (.int c) (.prim (.int t)) ⟨0, (signedText blanks text).length⟩,
        .prim (.int t), .ofDelegate none ds (.prim (.int t))⟩, records)) ∧
    (first = none → ∃ failure, compiled = (.error failure, records) ∧
      failure.cause.code = 2006) ∧
    (2 ^ 64 ≤ n ∨ blanks.isSome = true ∧ (suffix = .unsigned ∨ suffix = .unsignedLong) →
      first = none) := by
  obtain ⟨written, hcompiled⟩ := Lambda.compile_signed records hmake h hb
  dsimp only
  refine ⟨fun t ht => ?_, fun hnone => ?_, fun hno => ?_⟩
  · have hholds := List.find?_some ht
    refine ⟨.wrap t (signedValue blanks.isSome n), rfl, ?_, ?_⟩
    · exact IntType.wrap_of_mem ((IntType.holds_iff _ _).mp hholds)
    · rw [ht] at hcompiled
      exact hcompiled
  · rw [hnone] at hcompiled
    exact ⟨_, hcompiled, rfl⟩
  · rcases hno with hn | ⟨hnegative, hsuffix⟩
    · cases hfirst : (literalTypes blanks.isSome suffix).find?
          (·.holds (signedValue blanks.isSome n)) with
      | none => rfl
      | some t =>
        have hholds := ((IntType.holds_iff _ _).mp (holds_uint64 hfirst)).2
        have hmax : IntType.max .uint64 = 18446744073709551615 := rfl
        omega
    · rcases hsuffix with rfl | rfl <;> simp [literalTypes, hnegative]

/-- The least number of 32 bits, in hexadecimal digits and behind blanks. -/
theorem Lambda.compile_integer_least : ∃ c : SizedInt, c.type = .int32 ∧ c.value = -2147483648 ∧
    Lambda.compile {} [] none .inferred "-  0X0080000000" .empty =
      (.ok ⟨[], .constant (.int c) (.prim (.int .int32)) ⟨0, 15⟩, .prim (.int .int32),
        .ofDelegate none [] (.prim (.int .int32))⟩, .empty) := by
  have hspelled : SpelledInteger 2147483648 .none ('0' :: 'X' :: ("0080000000".toList ++ [])) :=
    .hexadecimal (.inr rfl) ⟨2, by decide⟩ (by decide)
  have hmake : ParameterTable.make [] none = .ok ⟨[], none⟩ := rfl
  have hblanks : ∀ bs, some [' ', ' '] = some bs → ∀ b ∈ bs, Text.isBlank b = true := by
    rintro bs ⟨⟩
    exact List.all_eq_true.mp (by decide : [' ', ' '].all Text.isBlank = true)
  exact (Lambda.compile_integer .empty hmake hspelled hblanks).1 .int32 (by decide)

end QueryExpr
