/-
# Integers as they are spelled

A number is spelled by its digits to the base ten, or to the base sixteen behind
a mark, with any number of zeros in front and with letters of either case. Behind
the digits there may be a suffix. Each such text is one token, and it is taken
apart into the number and the suffix that it was spelled from.

Key definitions: `Digits`, `IntegerSuffix.Spelled`, `SpelledInteger`.
Key theorems: `Digits.naturalOf_eq`, `SpelledInteger.lexeme`,
`SpelledInteger.integerOf_eq`.
-/
import QueryExpr.Expr.Parse
import QueryExpr.Proofs.TokenMarks

namespace QueryExpr

open Lexeme

variable {base n : Nat} {c : Char} {ds letters : List Char} {suffix : IntegerSuffix}

/-! ### Digits -/

/-- The characters are the digits of `n` to a base, in either case, behind any number
of zeros. -/
def Digits (base n : Nat) (ds : List Char) : Prop :=
  ∃ zeros, ds.map Char.toLower = List.replicate zeros '0' ++ Nat.toDigits base n

/-- A character that is the digit `d` in either case counts as `d`. -/
theorem digit_of_toLower {d : Nat} (hd : d < 16) (h : c.toLower = d.digitChar) :
    digitValue c = d ∧ Text.isHexDigit c = true ∧ (d < 10 → c.isDigit = true) ∧
      isIntegerSuffix c = false := by
  have hascii : ∀ n < 128, ∀ d < 16, (Char.ofNat n).toLower = d.digitChar →
      digitValue (Char.ofNat n) = d ∧ Text.isHexDigit (Char.ofNat n) = true ∧
        (d < 10 → (Char.ofNat n).isDigit = true) ∧ isIntegerSuffix (Char.ofNat n) = false := by
    decide +kernel
  have hdigits : ∀ d < 16, d.digitChar.toNat < 128 := by decide
  have hlt : c.toNat < 128 := by
    unfold Char.toLower at h
    split at h
    · rename_i hupper
      have hZ : 'Z'.val.toNat = 90 := rfl
      have hle := UInt32.le_iff_toNat_le.mp hupper.2
      have hnat : c.toNat = c.val.toNat := rfl
      omega
    · rw [h]
      exact hdigits d hd
  have hc := hascii c.toNat hlt d hd
  rw [Char.ofNat_toNat] at hc
  exact hc h

theorem Digits.zeros_or (h : Digits base n ds) : ∃ zs es, ds = zs ++ es ∧
    (∀ c ∈ zs, c.toLower = Nat.digitChar 0) ∧ es.map Char.toLower = Nat.toDigits base n := by
  obtain ⟨zeros, h⟩ := h
  obtain ⟨zs, es, rfl, hzs, hes⟩ := List.map_eq_append_iff.mp h
  refine ⟨zs, es, rfl, fun c hc => ?_, hes⟩
  exact (List.eq_replicate_iff.mp hzs).2 _ (List.mem_map_of_mem hc)

/-- Characters that are the digits of a number count as that number, and each of them
is one of the digits of the base. -/
theorem naturalOf_digits (hbase : 1 < base) (hle : base ≤ 16) (n : Nat) :
    ∀ {es : List Char}, es.map Char.toLower = Nat.toDigits base n →
      naturalOf base es = n ∧ ∀ c ∈ es, ∃ d < base, c.toLower = d.digitChar := by
  induction n using Nat.strongRecOn with
  | _ n ih =>
    intro es h
    rw [Nat.toDigits_eq_if hbase] at h
    split at h
    · rename_i hn
      obtain ⟨c, rfl, hc⟩ : ∃ c, es = [c] ∧ c.toLower = n.digitChar := by
        obtain ⟨c, cs, rfl, hc, hcs⟩ := List.map_eq_cons_iff.mp h
        rw [List.map_eq_nil_iff.mp hcs]
        exact ⟨c, rfl, hc⟩
      refine ⟨?_, List.forall_mem_singleton.mpr ⟨n, hn, hc⟩⟩
      show base * 0 + digitValue c = n
      rw [(digit_of_toLower (by omega) hc).1, Nat.mul_zero, Nat.zero_add]
    · rename_i hn
      have hmod : n % base < base := Nat.mod_lt _ (by omega)
      obtain ⟨fs, last, rfl, hfs, hlast⟩ := List.map_eq_append_iff.mp h
      obtain ⟨c, rfl, hc⟩ : ∃ c, last = [c] ∧ c.toLower = (n % base).digitChar := by
        obtain ⟨c, cs, rfl, hc, hcs⟩ := List.map_eq_cons_iff.mp hlast
        rw [List.map_eq_nil_iff.mp hcs]
        exact ⟨c, rfl, hc⟩
      obtain ⟨hvalue, hdigits⟩ := ih (n / base) (Nat.div_lt_self (by omega) hbase) hfs
      refine ⟨?_, ?_⟩
      · rw [naturalOf_append, hvalue]
        show base * (n / base) + digitValue c = n
        rw [(digit_of_toLower (by omega) hc).1, Nat.div_add_mod]
      · intro c' hc'
        rcases List.mem_append.mp hc' with hc' | hc'
        · exact hdigits c' hc'
        · obtain rfl := List.mem_singleton.mp hc'
          exact ⟨n % base, hmod, hc⟩

/-- **Digits count as the number that they spell**, whatever zeros there are in front. -/
theorem Digits.naturalOf_eq (h : Digits base n ds) (hbase : 1 < base) (hle : base ≤ 16) :
    naturalOf base ds = n ∧ ds ≠ [] ∧ ∀ c ∈ ds, ∃ d < base, c.toLower = d.digitChar := by
  obtain ⟨zs, es, rfl, hzs, hes⟩ := h.zeros_or
  obtain ⟨hvalue, hdigits⟩ := naturalOf_digits hbase hle n hes
  have hzero : ∀ {zs : List Char}, (∀ c ∈ zs, c.toLower = Nat.digitChar 0) →
      naturalOf base zs = 0 := by
    intro zs
    induction zs with
    | nil => exact fun _ => rfl
    | cons c zs ih =>
      intro h
      obtain ⟨hc, hzs⟩ := List.forall_mem_cons.mp h
      show naturalAfter base (base * 0 + digitValue c) zs = 0
      rw [(digit_of_toLower (by omega) hc).1]
      exact ih hzs
  refine ⟨?_, ?_, fun c hc => (List.mem_append.mp hc).elim (fun hc => ?_) (hdigits c)⟩
  · rw [naturalOf_append, hzero hzs]
    exact hvalue
  · refine List.append_ne_nil_of_right_ne_nil _ fun hnil => ?_
    rw [hnil] at hes
    exact Nat.toDigits_ne_nil hes.symm
  · exact ⟨0, by omega, hzs c hc⟩

/-! ### Suffixes -/

/-- The letters are a suffix, in any case. -/
def IntegerSuffix.Spelled (suffix : IntegerSuffix) (letters : List Char) : Prop :=
  letters.map Char.toUpper ∈
    match suffix with
    | .none => [[]]
    | .unsigned => [['U']]
    | .long => [['L']]
    | .unsignedLong => [['U', 'L'], ['L', 'U']]

instance (suffix : IntegerSuffix) (letters : List Char) : Decidable (suffix.Spelled letters) := by
  unfold IntegerSuffix.Spelled
  infer_instance

/-- The suffixes, each with its spellings. -/
def IntegerSuffix.spellings : List (IntegerSuffix × List Char) :=
  (.none, []) :: [['u'], ['U']].map (.unsigned, ·) ++ [['l'], ['L']].map (.long, ·) ++
    [['u', 'l'], ['u', 'L'], ['U', 'l'], ['U', 'L'], ['l', 'u'], ['l', 'U'], ['L', 'u'],
      ['L', 'U']].map (.unsignedLong, ·)

theorem letter_of_toUpper {x : Char} (hx : x = 'U' ∨ x = 'L') (h : c.toUpper = x) :
    c = x ∨ c = x.toLower := by
  have hascii : ∀ n < 128,
      ((Char.ofNat n).toUpper = 'U' → Char.ofNat n = 'U' ∨ Char.ofNat n = 'U'.toLower) ∧
      ((Char.ofNat n).toUpper = 'L' → Char.ofNat n = 'L' ∨ Char.ofNat n = 'L'.toLower) := by
    decide +kernel
  have hlt : c.toNat < 128 := by
    unfold Char.toUpper at h
    split at h
    · rename_i hlower
      have hz : 'z'.val.toNat = 122 := rfl
      have hle := UInt32.le_iff_toNat_le.mp hlower.2
      have hnat : c.toNat = c.val.toNat := rfl
      omega
    · rw [h]
      rcases hx with rfl | rfl <;> decide
  have hc := hascii c.toNat hlt
  rw [Char.ofNat_toNat] at hc
  rcases hx with rfl | rfl
  · exact hc.1 h
  · exact hc.2 h

theorem IntegerSuffix.Spelled.mem (h : suffix.Spelled letters) : (suffix, letters) ∈ spellings := by
  have one {x : Char} (hx : x = 'U' ∨ x = 'L') (h : letters.map Char.toUpper = [x]) :
      letters = [x] ∨ letters = [x.toLower] := by
    obtain ⟨c, cs, rfl, hc, hcs⟩ := List.map_eq_cons_iff.mp h
    rw [List.map_eq_nil_iff.mp hcs]
    exact (letter_of_toUpper hx hc).imp (congrArg fun c => [c]) (congrArg fun c => [c])
  have two {x y : Char} (hx : x = 'U' ∨ x = 'L') (hy : y = 'U' ∨ y = 'L')
      (h : letters.map Char.toUpper = [x, y]) :
      ∃ c d, letters = [c, d] ∧ (c = x ∨ c = x.toLower) ∧ (d = y ∨ d = y.toLower) := by
    obtain ⟨c, cs, rfl, hc, hcs⟩ := List.map_eq_cons_iff.mp h
    obtain ⟨d, ds, rfl, hd, hds⟩ := List.map_eq_cons_iff.mp hcs
    rw [List.map_eq_nil_iff.mp hds]
    exact ⟨c, d, rfl, letter_of_toUpper hx hc, letter_of_toUpper hy hd⟩
  unfold IntegerSuffix.Spelled at h
  cases suffix with
  | none =>
    rw [List.map_eq_nil_iff.mp (List.mem_singleton.mp h)]
    decide
  | unsigned => rcases one (.inl rfl) (List.mem_singleton.mp h) with rfl | rfl <;> decide
  | long => rcases one (.inr rfl) (List.mem_singleton.mp h) with rfl | rfl <;> decide
  | unsignedLong =>
    rcases List.mem_cons.mp h with h | h
    · obtain ⟨c, d, rfl, rfl | rfl, rfl | rfl⟩ := two (.inl rfl) (.inr rfl) h <;> decide
    · obtain ⟨c, d, rfl, rfl | rfl, rfl | rfl⟩ :=
        two (.inr rfl) (.inl rfl) (List.mem_singleton.mp h) <;> decide

theorem IntegerSuffix.Spelled.measured (h : suffix.Spelled letters) :
    Reader.integerSuffix letters = suffix ∧ integerSuffixLength letters = letters.length ∧
      ∀ c ∈ letters, isIntegerSuffix c = true := by
  have hall : (spellings.all fun p => Reader.integerSuffix p.2 == p.1 &&
      (integerSuffixLength p.2 == p.2.length && p.2.all isIntegerSuffix)) = true := by decide
  simpa using List.all_eq_true.mp hall _ h.mem

/-- A letter of a suffix goes on with no number. -/
theorem suffix_classes (h : isIntegerSuffix c = true) : c.isDigit = false ∧
    Text.isHexDigit c = false ∧ c ≠ '.' ∧ (c == 'e' || c == 'E') = false ∧
      isRealSuffix c = false ∧ c ≠ 'x' ∧ c ≠ 'X' := by
  have hletters : c = 'u' ∨ c = 'U' ∨ c = 'l' ∨ c = 'L' := by
    simpa [isIntegerSuffix, or_assoc] using h
  rcases hletters with rfl | rfl | rfl | rfl <;> decide

/-! ### Whole literals -/

/-- A text without a sign that an integer literal is spelled with: its digits, and its
suffix. -/
inductive SpelledInteger (n : Nat) (suffix : IntegerSuffix) : List Char → Prop
  | decimal {ds letters : List Char} (hds : Digits 10 n ds) (hs : suffix.Spelled letters) :
      SpelledInteger n suffix (ds ++ letters)
  | hexadecimal {x : Char} {ds letters : List Char} (hx : x = 'x' ∨ x = 'X')
      (hds : Digits 16 n ds) (hs : suffix.Spelled letters) :
      SpelledInteger n suffix ('0' :: x :: (ds ++ letters))

theorem count_append {p : Char → Bool} (hds : ∀ c ∈ ds, p c = true)
    (hletters : ∀ c ∈ letters, p c = false) : count p (ds ++ letters) = ds.length := by
  have hnone : letters.takeWhile p = [] := by
    cases letters with
    | nil => rfl
    | cons c cs => exact List.takeWhile_cons_of_neg (by rw [hletters c List.mem_cons_self]; decide)
  rw [count, List.takeWhile_append_of_pos hds, hnone, List.append_nil]

/-- Behind the digits of a decimal number there is only the suffix. -/
theorem decimal_digits (hds : ∀ c ∈ ds, c.isDigit = true) (hs : suffix.Spelled letters) :
    decimal (ds ++ letters) = .ok ⟨.integer, ds ++ letters, (ds ++ letters).length⟩ := by
  obtain ⟨-, hlength, hclass⟩ := hs.measured
  have hcount : count Char.isDigit (ds ++ letters) = ds.length :=
    count_append hds fun c hc => (suffix_classes (hclass c hc)).1
  have hrest : fractionLength letters = 0 ∧ exponentLength letters = .ok 0 ∧
      realSuffixLength letters = 0 := by
    cases letters with
    | nil => exact ⟨rfl, rfl, rfl⟩
    | cons c cs =>
      obtain ⟨-, -, hpoint, hmark, hreal, -⟩ := suffix_classes (hclass c List.mem_cons_self)
      refine ⟨fractionLength.eq_2 _ (by simpa using hpoint), ?_, ?_⟩
      · simp [exponentLength, hmark]
      · simp [realSuffixLength, hreal]
  have hdrop : (ds ++ letters).drop ds.length = letters := List.drop_left
  have hfraction : fractionLength ((ds ++ letters).drop ds.length) = 0 := by
    rw [hdrop]
    exact hrest.1
  have hexponent : exponentLength ((ds ++ letters).drop (ds.length + 0)) = .ok 0 := by
    rw [Nat.add_zero, hdrop]
    exact hrest.2.1
  rw [decimal_eq hcount hfraction hexponent]
  unfold decimalEnd
  dsimp only [Nat.add_zero]
  rw [hdrop, hrest.2.2, hlength, ← List.length_append]
  simp only [spelled, List.take_length, Nat.lt_irrefl, decide_false, Bool.or_false,
    Bool.false_eq_true, if_false]

theorem hexadecimal_digits {x : Char} (hnil : ds ≠ []) (hds : ∀ c ∈ ds, Text.isHexDigit c = true)
    (hs : suffix.Spelled letters) : hexadecimal ('0' :: x :: (ds ++ letters)) =
      .ok ⟨.integer, '0' :: x :: (ds ++ letters), ('0' :: x :: (ds ++ letters)).length⟩ := by
  obtain ⟨-, hlength, hclass⟩ := hs.measured
  have hcount : count Text.isHexDigit (ds ++ letters) = ds.length :=
    count_append hds fun c hc => (suffix_classes (hclass c hc)).2.1
  have hdrop : ('0' :: x :: (ds ++ letters)).drop (2 + ds.length) = letters := by
    rw [Nat.add_comm, List.drop_succ_cons, List.drop_succ_cons, List.drop_left]
  have hlen : 2 + ds.length + letters.length = ('0' :: x :: (ds ++ letters)).length := by
    simp only [List.length_cons, List.length_append]
    omega
  have hpos : ¬ (ds.length == 0) = true := by simpa using hnil
  have hbehind : ('0' :: x :: (ds ++ letters)).drop 2 = ds ++ letters := rfl
  unfold hexadecimal
  dsimp only
  rw [hbehind, hcount, if_neg hpos, hdrop, hlength, hlen, spelled, List.take_length]

/-- Digits to the base ten have no mark of hexadecimal ones. -/
theorem not_marked (hds : ∀ c ∈ ds, c.isDigit = true)
    (hletters : ∀ c ∈ letters, isIntegerSuffix c = true) : isMarked (ds ++ letters) = false := by
  have hother : ∀ c ∈ ds ++ letters, c ≠ 'x' ∧ c ≠ 'X' := by
    intro c hc
    rcases List.mem_append.mp hc with hc | hc
    · have hdigit := hds c hc
      constructor <;> rintro rfl <;> cases hdigit
    · exact (suffix_classes (hletters c hc)).2.2.2.2.2
  match hcs : ds ++ letters with
  | [] | [_] => rfl
  | _ :: x :: cs =>
    obtain ⟨hx, hX⟩ := hother x (by rw [hcs]; exact List.mem_cons_of_mem _ List.mem_cons_self)
    simp [isMarked, hx, hX]

/-- What starts with a digit is read as a number. -/
theorem lexeme_digit (hc : c.isDigit = true) (cs : List Char) :
    ¬ Text.isBlank c = true ∧ lexeme c cs = number (c :: cs) := by
  have hascii : ∀ n < 128, (Char.ofNat n).isDigit = true → Text.isBlank (Char.ofNat n) = false ∧
      (Char.ofNat n == '"' || Char.ofNat n == '\'') = false ∧
      symbol? (Char.ofNat n) none = none ∧ Char.ofNat n ≠ '&' ∧ Char.ofNat n ≠ '|' := by
    decide +kernel
  have hlt : c.toNat < 128 := by
    have h9 : '9'.val.toNat = 57 := rfl
    have hle := UInt32.le_iff_toNat_le.mp (of_decide_eq_true (Bool.and_eq_true_iff.mp hc).2)
    have hnat : c.toNat = c.val.toNat := rfl
    omega
  have hclass := hascii c.toNat hlt
  rw [Char.ofNat_toNat] at hclass
  obtain ⟨hblank, hquote, hsymbol, hand, hbar⟩ := hclass hc
  refine ⟨Bool.eq_false_iff.mp hblank, ?_⟩
  rw [lexeme, symbol?_none hsymbol hand hbar, hquote, hc]
  rfl

variable {text : List Char}

/-- **A spelled integer is one token.** -/
theorem SpelledInteger.lexeme (h : SpelledInteger n suffix text) : ∃ c cs, text = c :: cs ∧
    ¬ Text.isBlank c = true ∧ lexeme c cs = .ok ⟨.integer, text, text.length⟩ := by
  cases h with
  | @decimal ds letters hds hs =>
    obtain ⟨-, hnil, hdigits⟩ := hds.naturalOf_eq (by decide) (by decide)
    have hall : ∀ c ∈ ds, c.isDigit = true := fun c hc => by
      obtain ⟨d, hd, hc⟩ := hdigits c hc
      exact (digit_of_toLower (by omega) hc).2.2.1 hd
    obtain ⟨c, cs, rfl⟩ := List.exists_cons_of_ne_nil hnil
    obtain ⟨hblank, hnumber⟩ := lexeme_digit (hall c List.mem_cons_self) (cs ++ letters)
    refine ⟨c, cs ++ letters, rfl, hblank, ?_⟩
    rw [hnumber, ← List.cons_append, number_eq, not_marked hall hs.measured.2.2]
    exact decimal_digits hall hs
  | @hexadecimal x ds letters hx hds hs =>
    obtain ⟨-, hnil, hdigits⟩ := hds.naturalOf_eq (by decide) (by decide)
    have hall : ∀ c ∈ ds, Text.isHexDigit c = true := fun c hc => by
      obtain ⟨d, hd, hc⟩ := hdigits c hc
      exact (digit_of_toLower hd hc).2.1
    obtain ⟨hblank, hnumber⟩ := lexeme_digit (c := '0') rfl (x :: (ds ++ letters))
    have hmarked : isMarked ('0' :: x :: (ds ++ letters)) = true := by
      rcases hx with rfl | rfl <;> rfl
    refine ⟨'0', x :: (ds ++ letters), rfl, hblank, ?_⟩
    rw [hnumber, number_eq, hmarked]
    exact hexadecimal_digits hnil hall hs

/-- The suffix of a literal is what is left behind its digits. -/
theorem integerOf_append (hnil : ds ≠ []) (hds : ∀ c ∈ ds, isIntegerSuffix c = false)
    (hletters : ∀ c ∈ letters, isIntegerSuffix c = true) :
    ((ds ++ letters).reverse.takeWhile isIntegerSuffix).reverse = letters ∧
      (ds ++ letters).take ((ds ++ letters).length - letters.length) = ds := by
  have hstop : ds.reverse.takeWhile isIntegerSuffix = [] := by
    obtain ⟨c, cs, hcs⟩ := List.exists_cons_of_ne_nil (List.reverse_ne_nil_iff.mpr hnil)
    have hc : c ∈ ds := List.mem_reverse.mp (hcs ▸ List.mem_cons_self)
    rw [hcs, List.takeWhile_cons_of_neg (by rw [hds c hc]; decide)]
  refine ⟨?_, ?_⟩
  · rw [List.reverse_append, List.takeWhile_append_of_pos fun c hc =>
      hletters c (List.mem_reverse.mp hc), hstop, List.append_nil, List.reverse_reverse]
  · rw [List.length_append, Nat.add_sub_cancel, List.take_left]

/-- **A spelled integer is taken apart into its number and its suffix.** -/
theorem SpelledInteger.integerOf_eq (h : SpelledInteger n suffix text) :
    Reader.integerOf text = (n, suffix) := by
  cases h with
  | @decimal ds letters hds hs =>
    obtain ⟨hvalue, hnil, hdigits⟩ := hds.naturalOf_eq (by decide) (by decide)
    obtain ⟨hsuffix, -, hclass⟩ := hs.measured
    have hother : ∀ c ∈ ds, isIntegerSuffix c = false := fun c hc => by
      obtain ⟨d, hd, hc⟩ := hdigits c hc
      exact (digit_of_toLower (by omega) hc).2.2.2
    obtain ⟨htail, hfront⟩ := integerOf_append hnil hother hclass
    unfold Reader.integerOf
    dsimp only
    rw [htail, hfront, hsuffix]
    congr 1
    split
    · rename_i x hex
      have hx : x ≠ 'x' ∧ x ≠ 'X' := by
        obtain ⟨d, hd, hx⟩ := hdigits x (by simp)
        have hdigit := (digit_of_toLower (by omega) hx).2.2.1 hd
        constructor <;> rintro rfl <;> cases hdigit
      rw [if_neg (by simp [hx])]
      exact hvalue
    · exact hvalue
  | @hexadecimal x ds letters hx hds hs =>
    obtain ⟨hvalue, hnil, hdigits⟩ := hds.naturalOf_eq (by decide) (by decide)
    obtain ⟨hsuffix, -, hclass⟩ := hs.measured
    have hother : ∀ c ∈ '0' :: x :: ds, isIntegerSuffix c = false := by
      refine List.forall_mem_cons.mpr ⟨rfl, List.forall_mem_cons.mpr ⟨?_, fun c hc => ?_⟩⟩
      · rcases hx with rfl | rfl <;> rfl
      · obtain ⟨d, hd, hc⟩ := hdigits c hc
        exact (digit_of_toLower hd hc).2.2.2
    obtain ⟨htail, hfront⟩ := integerOf_append (List.cons_ne_nil '0' (x :: ds)) hother hclass
    rw [List.cons_append, List.cons_append] at htail hfront
    have hmark : (x == 'x' || x == 'X') = true := by rcases hx with rfl | rfl <;> rfl
    unfold Reader.integerOf
    dsimp only
    rw [htail, hfront, hsuffix]
    congr 1
    exact (if_pos hmark).trans hvalue

end QueryExpr
