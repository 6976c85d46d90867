/-
# Tokens that are cut off

How far a token reaches is settled by the characters it is made of and by the
one behind it, and a blank goes on with none. So a token that is cut off by a
blank, or by the end of the text, is read again as what it was.

Each part of a number is measured by a function of its own; all of these are
settled by the characters they measure, and so is what they add up to.

Key definitions: `Lexeme.Apart`, `Lexeme.Measure`, `Lexeme.CutOff`.
Key theorems: `Lexeme.Measure.cut`, `Lexeme.number_cut`,
`Lexeme.quotedBody?_cut`, `lexeme_cut`.
-/
import QueryExpr.Token.Stream

namespace QueryExpr

namespace Lexeme

variable {p : Char → Bool} {cs rest : List Char} {m n : Nat} {l : Lexeme} {c : Char}

/-- What follows a token starts with a blank, or there is nothing. -/
def Apart (rest : List Char) : Prop := ∀ d ∈ rest.head?, d = ' '

theorem apart_nil : Apart [] := fun _ h => by cases h

theorem apart_blank (cs : List Char) : Apart (' ' :: cs) := fun _ h => (Option.some.inj h).symm

theorem apart_cases (h : Apart rest) : rest = [] ∨ ∃ cs, rest = ' ' :: cs := by
  cases rest with
  | nil => exact .inl rfl
  | cons d cs => exact .inr ⟨cs, by rw [h d rfl]⟩

/-- The number of leading characters that a part of a token takes is settled
by these characters, as long as what follows is apart. -/
structure Measure (f : List Char → Nat) : Prop where
  le : ∀ cs, f cs ≤ cs.length
  cut : ∀ {cs rest m}, f cs ≤ m → m ≤ cs.length → Apart rest → f (cs.take m ++ rest) = f cs

theorem takeWhile_cut (hp : p ' ' = false) (hr : Apart rest) : ∀ {cs : List Char} {m : Nat},
    (cs.takeWhile p).length ≤ m → m ≤ cs.length →
    (cs.take m ++ rest).takeWhile p = cs.takeWhile p
  | cs, 0, h, _ => by
    rw [List.length_eq_zero_iff.mp (Nat.le_zero.mp h)]
    rcases apart_cases hr with rfl | ⟨ds, rfl⟩
    · rfl
    · simp [hp]
  | c :: cs, m + 1, h, hm => by
    rw [List.take_succ_cons, List.cons_append, List.takeWhile_cons, List.takeWhile_cons]
    split
    · rename_i hc
      rw [List.takeWhile_cons, if_pos hc] at h
      rw [takeWhile_cut hp hr (Nat.le_of_succ_le_succ h) (Nat.le_of_succ_le_succ hm)]
    · rfl

theorem measure_count (hp : p ' ' = false) : Measure (count p) where
  le _ := (List.takeWhile_prefix p).length_le
  cut h hm hr := congrArg List.length (takeWhile_cut hp hr h hm)

theorem measure_fractionLength : Measure fractionLength where
  le cs := by
    unfold fractionLength
    split
    · rename_i cs
      have h := (measure_count (p := Char.isDigit) (by decide)).le cs
      dsimp only
      split
      · exact Nat.zero_le _
      · exact Nat.succ_le_succ h
    · exact Nat.zero_le _
  cut {cs rest m} h hm hr := by
    cases m with
    | zero =>
      rw [Nat.le_zero.mp h]
      rcases apart_cases hr with rfl | ⟨ds, rfl⟩
      · rfl
      · simp [fractionLength]
    | succ m =>
      cases cs with
      | nil => cases hm
      | cons c cs =>
        by_cases hc : c = '.'
        · subst hc
          have hd : count Char.isDigit (cs.take m ++ rest) = count Char.isDigit cs := by
            refine (measure_count (by decide)).cut ?_ (Nat.le_of_succ_le_succ hm) hr
            simp only [fractionLength] at h
            split at h
            · rename_i h0
              rw [beq_iff_eq.mp h0]
              exact Nat.zero_le m
            · exact Nat.le_of_succ_le_succ h
          simp only [List.take_succ_cons, List.cons_append, fractionLength, hd]
        · simp only [List.take_succ_cons, List.cons_append]
          rw [fractionLength.eq_2 _ (by simpa using hc), fractionLength.eq_2 _ (by simpa using hc)]

/-- What is read off the first character alone is a measure. -/
theorem measure_first (hp : p ' ' = false) :
    Measure fun cs => if cs.head?.any p then 1 else 0 where
  le cs := by
    cases cs with
    | nil => exact Nat.le_refl 0
    | cons c cs => split <;> simp
  cut {cs rest m} h hm hr := by
    cases m with
    | zero =>
      rw [Nat.le_zero.mp h]
      rcases apart_cases hr with rfl | ⟨ds, rfl⟩
      · rfl
      · simp [hp]
    | succ m =>
      cases cs with
      | nil => cases hm
      | cons c cs => rfl

theorem measure_realSuffixLength : Measure realSuffixLength := by
  have h : realSuffixLength = fun cs => if cs.head?.any isRealSuffix then 1 else 0 := by
    funext cs
    cases cs <;> rfl
  rw [h]
  exact measure_first (by decide)

theorem measure_signLength : Measure signLength := by
  have h : signLength = fun cs =>
      if cs.head?.any (fun c => c == '+' || c == '-') then 1 else 0 := by
    funext cs
    cases cs <;> rfl
  rw [h]
  exact measure_first (by decide)

theorem measure_integerSuffixLength : Measure integerSuffixLength where
  le cs := by
    unfold integerSuffixLength
    split
    · split
      · split <;> simp
      · exact Nat.zero_le _
    · split <;> simp
    · exact Nat.le_refl 0
  cut {cs rest m} h hm hr := by
    match cs, m, hm with
    | [], m, hm =>
      obtain rfl := Nat.le_zero.mp hm
      rcases apart_cases hr with rfl | ⟨_ | ⟨d, ds⟩, rfl⟩ <;>
        simp [integerSuffixLength, isIntegerSuffix]
    | c :: cs, 0, _ =>
      rw [Nat.le_zero.mp h]
      rcases apart_cases hr with rfl | ⟨_ | ⟨d, ds⟩, rfl⟩ <;>
        simp [integerSuffixLength, isIntegerSuffix]
    | [c], m + 1, hm =>
      obtain rfl := Nat.le_zero.mp (Nat.le_of_succ_le_succ hm)
      rcases apart_cases hr with rfl | ⟨ds, rfl⟩ <;> simp [integerSuffixLength, isIntegerSuffix]
    | c :: d :: cs, 1, _ =>
      rcases apart_cases hr with rfl | ⟨ds, rfl⟩ <;>
        simp [integerSuffixLength, isIntegerSuffix] at h ⊢ <;>
        grind
    | c :: d :: cs, m + 2, _ => rfl

theorem exponentLength_le {cs : List Char} (h : exponentLength cs = .ok n) : n ≤ cs.length := by
  unfold exponentLength at h
  split at h
  · cases h
    exact Nat.le_refl 0
  · rename_i c cs
    split at h
    · dsimp only at h
      split at h <;> cases h
      have h1 := measure_signLength.le cs
      have h2 := (measure_count (p := Char.isDigit) (by decide)).le (cs.drop (signLength cs))
      rw [List.length_drop] at h2
      rw [List.length_cons]
      omega
    · cases h
      exact Nat.zero_le _

theorem drop_cut {k : Nat} (h : k ≤ m) (hm : m ≤ cs.length) :
    (cs.take m ++ rest).drop k = (cs.drop k).take (m - k) ++ rest := by
  rw [List.drop_append_of_le_length (by rw [List.length_take]; omega), List.drop_take]

theorem exponentLength_cut {cs : List Char} (h : exponentLength cs = .ok n) (hn : n ≤ m)
    (hm : m ≤ cs.length) (hr : Apart rest) : exponentLength (cs.take m ++ rest) = .ok n := by
  match cs, m, hm with
  | [], m, hm =>
    obtain rfl := Nat.le_zero.mp hm
    rcases apart_cases hr with rfl | ⟨ds, rfl⟩
    · exact h
    · cases h
      rfl
  | c :: cs, 0, _ =>
    obtain rfl := Nat.le_zero.mp hn
    rcases apart_cases hr with rfl | ⟨ds, rfl⟩ <;> rfl
  | c :: cs, m + 1, hm =>
    have hm := Nat.le_of_succ_le_succ hm
    rw [List.take_succ_cons, List.cons_append]
    unfold exponentLength at h ⊢
    dsimp only at h ⊢
    split
    · rename_i hc
      rw [if_pos hc] at h
      have hdigits : count Char.isDigit (cs.drop (signLength cs)) ≤ m - signLength cs ∧
          signLength cs ≤ m := by
        split at h <;> cases h
        omega
      rw [measure_signLength.cut hdigits.2 hm hr, drop_cut hdigits.2 hm,
        (measure_count (by decide)).cut hdigits.1 (by rw [List.length_drop]; omega) hr]
      exact h
    · rename_i hc
      rw [if_neg hc] at h
      exact h

theorem spelled_cut {k : TokenKind} (hn : n ≤ cs.length) :
    spelled k (cs.take n ++ rest) n = spelled k cs n := by
  unfold spelled
  rw [List.take_append_of_le_length (by rw [List.length_take]; omega), List.take_take,
    Nat.min_self]

/-- The lexeme takes characters, no more than there are, and the same ones if
it is cut off. -/
def CutOff (f : List Char → Except (Cause × Nat) Lexeme) (cs : List Char) (l : Lexeme) : Prop :=
  l.length ≤ cs.length ∧ ∀ rest, Apart rest → f (cs.take l.length ++ rest) = .ok l

theorem hexadecimal_cut (h : hexadecimal cs = .ok l) : CutOff hexadecimal cs l := by
  have hcount : Measure (count Text.isHexDigit) := measure_count (by decide)
  unfold hexadecimal at h
  dsimp only at h
  split at h <;> cases h
  rename_i hd
  have h1 := hcount.le (cs.drop 2)
  have h2 := measure_integerSuffixLength.le (cs.drop (2 + count Text.isHexDigit (cs.drop 2)))
  have hpos : count Text.isHexDigit (cs.drop 2) ≠ 0 := fun h => hd (beq_iff_eq.mpr h)
  rw [List.length_drop] at h1 h2
  dsimp only [spelled]
  refine ⟨by dsimp only; omega, fun rest hr => ?_⟩
  generalize hn : 2 + count Text.isHexDigit (cs.drop 2) +
    integerSuffixLength (cs.drop (2 + count Text.isHexDigit (cs.drop 2))) = n at *
  have hle : n ≤ cs.length := by omega
  unfold hexadecimal
  dsimp only
  rw [drop_cut (by omega) hle,
    hcount.cut (by omega) (by rw [List.length_drop]; omega) hr, if_neg hd,
    drop_cut (by omega) hle, measure_integerSuffixLength.cut (by omega)
      (by rw [List.length_drop]; omega) hr, hn, spelled_cut hle]
  rfl

/-- The lexeme of a decimal number from its suffix on, `m` characters behind
its start; `real` holds if there is a fraction or an exponent before. -/
def decimalEnd (cs : List Char) (real : Bool) (m : Nat) : Lexeme :=
  let suffix := realSuffixLength (cs.drop m)
  if 0 < suffix then spelled .real cs (m + suffix)
  else if real then spelled .real cs m
  else spelled .integer cs (m + integerSuffixLength (cs.drop m))

theorem decimalEnd_length (cs : List Char) (real : Bool) (hm : m ≤ cs.length) :
    m ≤ (decimalEnd cs real m).length ∧ (decimalEnd cs real m).length ≤ cs.length := by
  have h1 := measure_realSuffixLength.le (cs.drop m)
  have h2 := measure_integerSuffixLength.le (cs.drop m)
  rw [List.length_drop] at h1 h2
  unfold decimalEnd
  dsimp only
  split
  · dsimp only [spelled]; omega
  · split <;> dsimp only [spelled] <;> omega

theorem decimalEnd_cut (real : Bool) (hm : m ≤ cs.length) (hr : Apart rest) :
    decimalEnd (cs.take (decimalEnd cs real m).length ++ rest) real m = decimalEnd cs real m := by
  obtain ⟨hge, hle⟩ := decimalEnd_length cs real hm
  have hdrop : (cs.take (decimalEnd cs real m).length ++ rest).drop m = _ := drop_cut hge hle
  have hl : (cs.drop m).length = cs.length - m := List.length_drop
  generalize hn : (decimalEnd cs real m).length = n at *
  unfold decimalEnd at hn ⊢
  dsimp only at hn ⊢
  rw [hdrop]
  split at hn
  · rename_i hs
    dsimp only [spelled] at hn
    rw [measure_realSuffixLength.cut (by omega) (by omega) hr, if_pos hs, if_pos hs, hn,
      spelled_cut hle]
  · rename_i hs
    rw [measure_realSuffixLength.cut (by omega) (by omega) hr, if_neg hs, if_neg hs]
    cases real with
    | true =>
      rw [if_pos rfl] at hn
      dsimp only [spelled] at hn
      subst hn
      exact spelled_cut hle
    | false =>
      rw [if_neg Bool.false_ne_true] at hn ⊢
      dsimp only [spelled] at hn
      rw [measure_integerSuffixLength.cut (by omega) (by omega) hr, if_neg Bool.false_ne_true, hn,
        spelled_cut hle]

theorem decimal_eq {whole fraction exponent : Nat} (hw : count Char.isDigit cs = whole)
    (hf : fractionLength (cs.drop whole) = fraction)
    (he : exponentLength (cs.drop (whole + fraction)) = .ok exponent) :
    decimal cs = .ok (decimalEnd cs (0 < fraction || 0 < exponent)
      (whole + fraction + exponent)) := by
  unfold decimal decimalEnd
  dsimp only
  rw [hw, hf, he]
  dsimp only
  split
  · rfl
  · split <;> rfl

theorem decimal_cut (h : decimal cs = .ok l) : CutOff decimal cs l := by
  have hcount : Measure (count Char.isDigit) := measure_count (by decide)
  have h1 := hcount.le cs
  have h2 := measure_fractionLength.le (cs.drop (count Char.isDigit cs))
  generalize hw : count Char.isDigit cs = whole at h1 h2
  generalize hf : fractionLength (cs.drop whole) = fraction at h2
  cases he : exponentLength (cs.drop (whole + fraction)) with
  | error fault =>
    unfold decimal at h
    dsimp only at h
    rw [hw, hf, he] at h
    cases h
  | ok exponent =>
    have h3 := exponentLength_le he
    rw [List.length_drop] at h2 h3
    rw [decimal_eq hw hf he] at h
    cases h
    have hm : whole + fraction + exponent ≤ cs.length := by omega
    obtain ⟨hge, hle⟩ := decimalEnd_length cs (0 < fraction || 0 < exponent) hm
    refine ⟨hle, fun rest hr => ?_⟩
    have hcut := decimalEnd_cut (0 < fraction || 0 < exponent) hm hr
    generalize (decimalEnd cs (0 < fraction || 0 < exponent)
      (whole + fraction + exponent)).length = n at *
    have hw' : count Char.isDigit (cs.take n ++ rest) = whole :=
      (hcount.cut (by omega) hle hr).trans hw
    have hf' : fractionLength ((cs.take n ++ rest).drop whole) = fraction := by
      rw [drop_cut (by omega) hle,
        measure_fractionLength.cut (by omega) (by rw [List.length_drop]; omega) hr, hf]
    have he' : exponentLength ((cs.take n ++ rest).drop (whole + fraction)) = .ok exponent := by
      rw [drop_cut (by omega) hle]
      exact exponentLength_cut he (by omega) (by rw [List.length_drop]; omega) hr
    rw [decimal_eq hw' hf' he', hcut]

/-- Whether a number starts with the mark of a hexadecimal one. -/
def isMarked : List Char → Bool
  | c :: x :: _ => c == '0' && (x == 'x' || x == 'X')
  | _ => false

theorem number_eq (cs : List Char) :
    number cs = if isMarked cs then hexadecimal cs else decimal cs := by
  unfold number isMarked
  split
  · rfl
  · rename_i hne
    split
    · rename_i c x tail
      have hc : c ≠ '0' := fun hc => hne x tail (by rw [hc])
      simp [hc]
    · rfl

theorem isMarked_one (c : Char) (hr : Apart rest) : isMarked ([c] ++ rest) = false := by
  rcases apart_cases hr with rfl | ⟨ds, rfl⟩ <;> simp [isMarked]

theorem isMarked_cut (hpos : 0 < n) (hn : n ≤ cs.length) (h : isMarked cs = true → 1 < n)
    (hr : Apart rest) : isMarked (cs.take n ++ rest) = isMarked cs := by
  match cs, n, hn with
  | [], n + 1, hn => cases hn
  | [c], n + 1, hn =>
    obtain rfl := Nat.le_zero.mp (Nat.le_of_succ_le_succ hn)
    exact isMarked_one c hr
  | c :: d :: cs, 1, _ =>
    have hno : isMarked (c :: d :: cs) = false :=
      Bool.eq_false_iff.mpr fun h' => Nat.lt_irrefl 1 (h h')
    rw [hno]
    exact isMarked_one c hr
  | c :: d :: cs, n + 2, _ => simp [isMarked]

theorem hexadecimal_length (h : hexadecimal cs = .ok l) : 1 < l.length := by
  unfold hexadecimal at h
  dsimp only at h
  split at h <;> cases h
  dsimp only [spelled]
  omega

theorem number_cut (h : number cs = .ok l) (hpos : 0 < l.length) : CutOff number cs l := by
  rw [number_eq] at h
  split at h
  · rename_i hx
    have hc := hexadecimal_cut h
    refine ⟨hc.1, fun rest hr => ?_⟩
    rw [number_eq, isMarked_cut hpos hc.1 (fun _ => hexadecimal_length h) hr, if_pos hx]
    exact hc.2 rest hr
  · rename_i hx
    have hc := decimal_cut h
    refine ⟨hc.1, fun rest hr => ?_⟩
    rw [number_eq, isMarked_cut hpos hc.1 (fun h => absurd h hx) hr, if_neg hx]
    exact hc.2 rest hr

theorem decimal_length (hc : c.isDigit = true) (h : decimal (c :: cs) = .ok l) : 0 < l.length := by
  have hw : 0 < count Char.isDigit (c :: cs) := by
    unfold count
    rw [List.takeWhile_cons, if_pos hc]
    exact Nat.succ_pos _
  unfold decimal at h
  dsimp only at h
  split at h
  · cases h
  · split at h
    · cases h
      dsimp only [spelled]
      omega
    · split at h <;> cases h <;> dsimp only [spelled] <;> omega

theorem number_length (hc : c.isDigit = true) (h : number (c :: cs) = .ok l) : 0 < l.length := by
  rw [number_eq] at h
  split at h
  · exact Nat.lt_trans Nat.zero_lt_one (hexadecimal_length h)
  · exact decimal_length hc h

/-! ### Quoted literals -/

section
variable {quote : Char} {value : List Char}

theorem quotedBody?_other (hc : ¬ (c == quote) = true) (cs : List Char) :
    quotedBody? quote (c :: cs) = (quotedBody? quote cs).map fun b => (c :: b.1, b.2 + 1) := by
  rw [quotedBody?.eq_def]
  exact if_neg hc

theorem quotedBody?_doubled (cs : List Char) : quotedBody? quote (quote :: quote :: cs) =
    (quotedBody? quote cs).map fun b => (quote :: b.1, b.2 + 2) := by
  rw [quotedBody?.eq_def]
  dsimp only
  rw [if_pos (beq_self_eq_true quote), if_pos (beq_self_eq_true quote)]

theorem quotedBody?_closed (h : ∀ d ∈ cs.head?, d ≠ quote) :
    quotedBody? quote (quote :: cs) = some ([], 1) := by
  rw [quotedBody?.eq_def]
  dsimp only
  rw [if_pos (beq_self_eq_true quote)]
  cases cs with
  | nil => rfl
  | cons d cs => exact if_neg (by simpa using h d rfl)

/-- The ways a quoted literal goes on: with another character, with a quote
written twice, or not at all. -/
theorem quotedBody?_cases (h : quotedBody? quote cs = some (value, n)) :
    (∃ c ds v k, c ≠ quote ∧ cs = c :: ds ∧ quotedBody? quote ds = some (v, k) ∧
      value = c :: v ∧ n = k + 1) ∨
    (∃ ds v k, cs = quote :: quote :: ds ∧ quotedBody? quote ds = some (v, k) ∧
      value = quote :: v ∧ n = k + 2) ∨
    (∃ ds, cs = quote :: ds ∧ value = [] ∧ n = 1) := by
  cases cs with
  | nil => cases h
  | cons c ds =>
    by_cases hc : c = quote
    · subst hc
      by_cases hd : ds.head? = some c
      · obtain ⟨es, rfl⟩ := List.head?_eq_some_iff.mp hd
        rw [quotedBody?_doubled] at h
        obtain ⟨⟨v, k⟩, hb, heq⟩ := Option.map_eq_some_iff.mp h
        cases heq
        exact .inr (.inl ⟨es, v, k, rfl, hb, rfl, rfl⟩)
      · rw [quotedBody?_closed (by rintro d hmem rfl; exact hd hmem)] at h
        cases h
        exact .inr (.inr ⟨ds, rfl, rfl, rfl⟩)
    · rw [quotedBody?_other (by simpa using hc)] at h
      obtain ⟨⟨v, k⟩, hb, heq⟩ := Option.map_eq_some_iff.mp h
      cases heq
      exact .inl ⟨c, ds, v, k, hc, rfl, hb, rfl, rfl⟩

/-- The content of a quoted literal ends with its closing quote. -/
theorem quotedBody?_cut (hq : quote ≠ ' ') (n : Nat) : ∀ {cs value : List Char},
    quotedBody? quote cs = some (value, n) → n ≤ cs.length ∧
      ∀ rest, Apart rest → quotedBody? quote (cs.take n ++ rest) = some (value, n) := by
  induction n using Nat.strongRecOn with
  | _ n ih =>
    intro cs value h
    rcases quotedBody?_cases h with ⟨c, ds, v, k, hc, rfl, hb, rfl, rfl⟩ |
      ⟨ds, v, k, rfl, hb, rfl, rfl⟩ | ⟨ds, rfl, rfl, rfl⟩
    · obtain ⟨hle, hcut⟩ := ih k (by omega) hb
      refine ⟨Nat.succ_le_succ hle, fun rest hr => ?_⟩
      rw [List.take_succ_cons, List.cons_append, quotedBody?_other (by simpa using hc),
        hcut rest hr]
      rfl
    · obtain ⟨hle, hcut⟩ := ih k (by omega) hb
      refine ⟨Nat.succ_le_succ (Nat.succ_le_succ hle), fun rest hr => ?_⟩
      rw [List.take_succ_cons, List.take_succ_cons, List.cons_append, List.cons_append,
        quotedBody?_doubled, hcut rest hr]
      rfl
    · refine ⟨Nat.succ_le_succ (Nat.zero_le _), fun rest hr => quotedBody?_closed ?_⟩
      intro d hd
      rw [hr d hd]
      exact hq.symm

end

/-! ### Symbols -/

theorem symbol?_length {next : Option Char} {k : TokenKind} (h : symbol? c next = some (k, n)) :
    n = 1 ∨ n = 2 ∧ next.isSome := by
  unfold symbol? at h
  split at h <;> grind

/-- A symbol of one character is one in front of a blank. -/
theorem symbol?_one {next : Option Char} {k : TokenKind} (h : symbol? c next = some (k, 1))
    (hr : Apart rest) : symbol? c rest.head? = some (k, 1) := by
  have hb : rest.head? = none ∨ rest.head? = some ' ' := by
    rcases apart_cases hr with rfl | ⟨ds, rfl⟩
    · exact .inl rfl
    · exact .inr rfl
  unfold symbol? at h ⊢
  rcases hb with hb | hb <;> rw [hb] <;> split at h <;> grind

theorem symbol?_none {next : Option Char} (h : symbol? c next = none) (hand : c ≠ '&')
    (hbar : c ≠ '|') (next' : Option Char) : symbol? c next' = none := by
  unfold symbol? at h ⊢
  split at h <;> grind

end Lexeme

open Lexeme

/-- **A token is read again where it is cut off**, and is made of some of the
characters there are. -/
theorem lexeme_cut {c : Char} {cs : List Char} {l : Lexeme} (h : lexeme c cs = .ok l) :
    ∃ n, l.length = n + 1 ∧ n ≤ cs.length ∧
      ∀ rest, Apart rest → lexeme c (cs.take n ++ rest) = .ok l := by
  unfold lexeme at h
  split at h
  · -- a symbol, of one character or two
    rename_i k n hs
    cases h
    rcases symbol?_length hs with rfl | ⟨rfl, hnext⟩
    · refine ⟨0, rfl, Nat.zero_le _, fun rest hr => ?_⟩
      unfold lexeme
      rw [List.take_zero, List.nil_append, symbol?_one hs hr]
    · obtain ⟨d, ds, rfl⟩ : ∃ d ds, cs = d :: ds := by
        cases cs with
        | nil => cases hnext
        | cons d ds => exact ⟨d, ds, rfl⟩
      refine ⟨1, rfl, Nat.succ_le_succ (Nat.zero_le _), fun rest hr => ?_⟩
      have hs' : symbol? c (some d) = some (k, 2) := hs
      unfold lexeme
      simp only [List.take_succ_cons, List.cons_append, List.head?_cons, hs']
  · rename_i hs
    have hand : c ≠ '&' := by
      rintro rfl
      rw [if_neg (by decide), if_neg (by decide), if_neg (by decide +kernel)] at h
      cases h
    have hbar : c ≠ '|' := by
      rintro rfl
      rw [if_neg (by decide), if_neg (by decide), if_neg (by decide +kernel)] at h
      cases h
    have hnone := symbol?_none hs hand hbar
    split at h
    · rename_i hq
      split at h <;> cases h
      rename_i value n hb
      have hquote : c ≠ ' ' := by
        rintro rfl
        exact absurd hq (by decide)
      obtain ⟨hle, hcut⟩ := quotedBody?_cut hquote n hb
      refine ⟨n, rfl, hle, fun rest hr => ?_⟩
      unfold lexeme
      rw [hnone, if_pos hq, hcut rest hr]
    · rename_i hq
      split at h
      · rename_i hd
        have hpos := number_length hd h
        obtain ⟨hle, hcut⟩ := number_cut h hpos
        obtain ⟨n, hn⟩ : ∃ n, l.length = n + 1 := ⟨l.length - 1, by omega⟩
        rw [hn] at hle hcut
        refine ⟨n, hn, Nat.le_of_succ_le_succ hle, fun rest hr => ?_⟩
        unfold lexeme
        rw [hnone, if_neg hq, if_pos hd]
        exact hcut rest hr
      · rename_i hd
        split at h <;> cases h
        rename_i hstart
        refine ⟨(cs.takeWhile Text.isNamePart).length, rfl, (List.takeWhile_prefix _).length_le,
          fun rest hr => ?_⟩
        unfold lexeme
        rw [hnone, if_neg hq, if_neg hd, if_pos hstart]
        unfold word
        rw [takeWhile_cut (by decide +kernel) hr (Nat.le_refl _)
          (List.takeWhile_prefix _).length_le]

end QueryExpr
