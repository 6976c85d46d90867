/-
# Positions in a text

Where one text occurs in another is asked for in several ways: by searching for
it, by asking whether it is there, at the start or at the end, and by cutting out
what stands at a position. All of them go by the first position at which the one
text is a prefix of what is left of the other (`find?_eq_some_iff`), and so they
agree (`Intrinsic.positions_agree`).

Positions count characters. A search may as well go through the bytes of both
texts and count the characters in front of what it finds: an occurrence among the
bytes does not start inside of a character, and is one of the characters
(`find?_eq_bytes`).

Key definitions: `Text.utf8`, `Text.findBytes?`, `Intrinsic.OccursAt`,
`Intrinsic.Positions`.
Key theorems: `Text.find?_eq_some_iff`, `Text.findBytes?_utf8`, `Text.find?_eq_bytes`,
`Intrinsic.positions_agree`.
-/
import Mathlib.Data.List.Infix
import QueryExpr.Eval.Arithmetic
import QueryExpr.Eval.Builtin

namespace QueryExpr

/-! ### The first occurrence -/

namespace Text

variable {s t : List Char} {i : Nat}

/-- **What is found is the first position at which the text occurs.** -/
theorem find?_eq_some_iff : find? t s = some i ↔
    i ≤ s.length ∧ t <+: s.drop i ∧ ∀ j < i, ¬ t <+: s.drop j := by
  induction s generalizing i with
  | nil =>
    have hnil : find? t [] = some i ↔ t = [] ∧ i = 0 := by
      cases t <;> simp [find?, eq_comm]
    rw [hnil]
    constructor
    · rintro ⟨rfl, rfl⟩
      simp
    · rintro ⟨hi, hfront, -⟩
      simp_all
  | cons c s ih =>
    rw [find?]
    by_cases hfirst : t <+: c :: s
    · rw [if_pos (List.isPrefixOf_iff_prefix.mpr hfirst)]
      constructor
      · rintro h
        obtain rfl : i = 0 := by simpa using h.symm
        simpa using hfirst
      · rintro ⟨-, -, hleast⟩
        have hi : i = 0 := by
          by_contra hne
          exact hleast 0 (by omega) hfirst
        rw [hi]
    · rw [if_neg (mt List.isPrefixOf_iff_prefix.mp hfirst), Option.map_eq_some_iff]
      constructor
      · rintro ⟨k, hk, rfl⟩
        obtain ⟨hle, hfront, hleast⟩ := ih.mp hk
        refine ⟨by simpa using hle, by simpa using hfront, fun j hj => ?_⟩
        cases j with
        | zero => simpa using hfirst
        | succ j => simpa using hleast j (by omega)
      · rintro ⟨hle, hfront, hleast⟩
        cases i with
        | zero => exact absurd (by simpa using hfront) hfirst
        | succ k =>
          refine ⟨k, ih.mpr ⟨by simpa using hle, by simpa using hfront, fun j hj => ?_⟩, rfl⟩
          simpa using hleast (j + 1) (by omega)

/-- Nothing is found just if the text occurs nowhere. -/
theorem find?_eq_none_iff : find? t s = none ↔ ∀ i ≤ s.length, ¬ t <+: s.drop i := by
  constructor
  · intro h i
    induction i using Nat.strong_induction_on with
    | _ i ih =>
      intro hi hfront
      have hfound : find? t s = some i :=
        find?_eq_some_iff.mpr ⟨hi, hfront, fun j hj => ih j hj (by omega)⟩
      rw [h] at hfound
      cases hfound
  · intro h
    cases hfind : find? t s with
    | none => rfl
    | some i =>
      obtain ⟨hi, hfront, -⟩ := find?_eq_some_iff.mp hfind
      exact absurd hfront (h i hi)

theorem find?_eq_zero_iff : find? t s = some 0 ↔ t <+: s := by
  simp [find?_eq_some_iff]

/-! ### Searching among bytes -/

/-- The bytes of characters. -/
def utf8 (cs : List Char) : List UInt8 := cs.flatMap String.utf8EncodeChar

/-- The first position at which `needle` occurs among bytes. -/
def findBytes? (needle : List UInt8) : List UInt8 → Option Nat
  | [] => if needle.isEmpty then some 0 else none
  | b :: bs =>
    if needle.isPrefixOf (b :: bs) then some 0 else (findBytes? needle bs).map (· + 1)

/-- The number of characters that start among bytes. -/
def countChars (bs : List UInt8) : Nat := bs.countP (·.IsUTF8FirstByte)

theorem utf8_cons (c : Char) (cs : List Char) :
    utf8 (c :: cs) = String.utf8EncodeChar c ++ utf8 cs :=
  List.flatMap_cons

theorem utf8_append (cs ds : List Char) : utf8 (cs ++ ds) = utf8 cs ++ utf8 ds :=
  List.flatMap_append

/-- Of the bytes of a character the first one tells that a character starts. -/
theorem utf8EncodeChar_cons (c : Char) : ∃ b bs, String.utf8EncodeChar c = b :: bs ∧
    b.IsUTF8FirstByte ∧ ∀ x ∈ bs, ¬ x.IsUTF8FirstByte := by
  obtain ⟨b, bs, hc⟩ := List.exists_cons_of_ne_nil (String.utf8EncodeChar_ne_nil (c := c))
  have hfirst (i : Nat) (hi : i < (b :: bs).length) : (b :: bs)[i].IsUTF8FirstByte ↔ i = 0 := by
    have h := @UInt8.isUTF8FirstByte_getElem_utf8EncodeChar c i (hc ▸ hi)
    simpa only [hc] using h
  refine ⟨b, bs, hc, (hfirst 0 (by simp)).mpr rfl, fun x hx => ?_⟩
  obtain ⟨i, hi, rfl⟩ := List.getElem_of_mem hx
  exact (hfirst (i + 1) (Nat.succ_lt_succ hi)).not.mpr (Nat.succ_ne_zero i)

theorem countChars_utf8 (cs : List Char) : countChars (utf8 cs) = cs.length := by
  induction cs with
  | nil => rfl
  | cons c cs ih =>
    obtain ⟨b, bs, hc, hb, hbs⟩ := utf8EncodeChar_cons c
    have hrest : bs.countP (·.IsUTF8FirstByte) = 0 := List.countP_eq_zero.mpr (by simpa using hbs)
    rw [countChars] at ih
    rw [utf8_cons, countChars, List.countP_append, ih, hc, List.countP_cons, hrest]
    simp [hb, Nat.add_comm]

/-- The bytes of no character are the beginning of those of another. -/
theorem utf8EncodeChar_inj {c d : Char} {x y : List UInt8}
    (h : String.utf8EncodeChar c ++ x = String.utf8EncodeChar d ++ y) : c = d := by
  have hc := ByteArray.utf8DecodeChar?_utf8EncodeChar_append (c := c) (b := x.toByteArray)
  have hd := ByteArray.utf8DecodeChar?_utf8EncodeChar_append (c := d) (b := y.toByteArray)
  rw [← List.toByteArray_append] at hc hd
  rw [h, hd] at hc
  exact (Option.some.inj hc).symm

theorem utf8_eq_nil : utf8 t = [] ↔ t = [] := by
  cases t with
  | nil => simp [utf8]
  | cons c t =>
    obtain ⟨b, bs, hc, -⟩ := utf8EncodeChar_cons c
    simp [utf8_cons, hc]

/-- A text begins with another one just if its bytes begin with those of the other. -/
theorem utf8_prefix_iff : utf8 t <+: utf8 s ↔ t <+: s := by
  constructor
  · intro h
    induction t generalizing s with
    | nil => exact List.nil_prefix
    | cons d t ih =>
      cases s with
      | nil =>
        have hnil : utf8 (d :: t) = [] := List.prefix_nil.mp h
        exact absurd (utf8_eq_nil.mp hnil) (List.cons_ne_nil d t)
      | cons c s =>
        rw [utf8_cons, utf8_cons] at h
        obtain rfl : d = c := by
          obtain ⟨z, hz⟩ := h
          rw [List.append_assoc] at hz
          exact utf8EncodeChar_inj hz
        exact (List.prefix_cons_inj d).mpr (ih ((List.prefix_append_right_inj _).mp h))
  · rintro ⟨rest, rfl⟩
    rw [utf8_append]
    exact List.prefix_append _ _

/-- What a character does not start at, no text does. -/
theorem findBytes?_skip (ht : t ≠ []) {bs : List UInt8} (hbs : ∀ b ∈ bs, ¬ b.IsUTF8FirstByte)
    (rest : List UInt8) :
    findBytes? (utf8 t) (bs ++ rest) = (findBytes? (utf8 t) rest).map (· + bs.length) := by
  obtain ⟨c, t, rfl⟩ := List.exists_cons_of_ne_nil ht
  obtain ⟨d, ds, hc, hd, -⟩ := utf8EncodeChar_cons c
  induction bs with
  | nil => simp
  | cons b bs ih =>
    obtain ⟨hb, hbs⟩ := List.forall_mem_cons.mp hbs
    have hne : (d == b) = false := beq_false_of_ne (by rintro rfl; exact hb hd)
    have hfront : (utf8 (c :: t)).isPrefixOf (b :: (bs ++ rest)) = false := by
      simp [utf8_cons, hc, List.isPrefixOf, hne]
    rw [List.cons_append, findBytes?, hfront, ih hbs]
    cases findBytes? (utf8 (c :: t)) rest <;> simp [Nat.add_assoc]

/-- **Among the bytes, a text occurs where it occurs among the characters.** -/
theorem findBytes?_utf8 (t s : List Char) :
    findBytes? (utf8 t) (utf8 s) = (find? t s).map fun i => (utf8 (s.take i)).length := by
  induction s with
  | nil =>
    cases t with
    | nil => rfl
    | cons c t =>
      have hempty : (utf8 (c :: t)).isEmpty = false := by simp [utf8_eq_nil]
      rw [show utf8 [] = [] from rfl, findBytes?, hempty]
      rfl
  | cons c s ih =>
    obtain ⟨b, bs, hc, -, hbs⟩ := utf8EncodeChar_cons c
    have hbytes : utf8 (c :: s) = b :: (bs ++ utf8 s) := by rw [utf8_cons, hc, List.cons_append]
    rw [find?, hbytes, findBytes?, ← hbytes]
    by_cases hfirst : t <+: c :: s
    · have hfront := List.isPrefixOf_iff_prefix.mpr (utf8_prefix_iff.mpr hfirst)
      rw [if_pos hfront, if_pos (List.isPrefixOf_iff_prefix.mpr hfirst)]
      simp [utf8]
    · have ht : t ≠ [] := by rintro rfl; exact hfirst List.nil_prefix
      have hfront := mt List.isPrefixOf_iff_prefix.mp (mt utf8_prefix_iff.mp hfirst)
      rw [if_neg hfront, if_neg (mt List.isPrefixOf_iff_prefix.mp hfirst),
        findBytes?_skip ht hbs, ih]
      cases find? t s with
      | none => rfl
      | some i => simp [utf8_cons, hc]; omega

/-- **Searching for the bytes of a text, and counting the characters in front of
them, comes to the same.** -/
theorem find?_eq_bytes (t s : List Char) : find? t s =
    (findBytes? (utf8 t) (utf8 s)).map fun n => countChars ((utf8 s).take n) := by
  rw [findBytes?_utf8, Option.map_map]
  cases h : find? t s with
  | none => rfl
  | some i =>
    have hle := (find?_eq_some_iff.mp h).1
    have hsplit : utf8 s = utf8 (s.take i) ++ utf8 (s.drop i) := by
      rw [← utf8_append, List.take_append_drop]
    have htake : (utf8 s).take (utf8 (s.take i)).length = utf8 (s.take i) := by
      rw [hsplit, List.take_left]
    simp [htake, countChars_utf8, hle]

end Text

/-! ### The functions on texts -/

namespace Intrinsic

variable {cs t : List Char} {i : Int}

/-- What a position and the length of a text cut out is the text just if it occurs there. -/
theorem substring_eq_iff : substring cs i t.length = .ok t ↔
    0 ≤ i ∧ i ≤ cs.length ∧ t <+: cs.drop i.toNat := by
  unfold substring
  constructor
  · intro h
    split at h
    · cases h
    · rename_i hbounds
      simp only [Bool.or_eq_true, decide_eq_true_eq, not_or, Int.not_lt] at hbounds
      have htake : (cs.drop i.toNat).take t.length = t := by simpa using h
      exact ⟨by omega, by omega, List.prefix_iff_eq_take.mpr htake.symm⟩
  · rintro ⟨h0, hi, hfront⟩
    have hlength : t.length ≤ cs.length - i.toNat := by simpa using hfront.length_le
    have hbounds : ¬ (i < 0 || (t.length : Int) < 0 || cs.length < i + t.length) = true := by
      simp only [Bool.or_eq_true, decide_eq_true_eq]
      omega
    rw [if_neg hbounds, Int.toNat_natCast, ← List.prefix_iff_eq_take.mp hfront]

/-- What the functions come to that take numbers of the type `Int32`. -/
theorem integer_int32 {n : Int} (h : IntType.int32.holds n = true) :
    (Value.int32 n).integer? = some n := by
  show some (IntType.int32.wrap n) = some n
  rw [IntType.wrap_of_mem ((IntType.holds_iff _ _).mp h)]

/-- Where a text is found, as a number. -/
def position (t s : List Char) : Int := ((Text.find? t s).map Int.ofNat).getD (-1)

section
variable (s t : String)

theorem apply_indexOf : apply .stringIndexOf (.string s) [.string t] =
    .ok (.int32 (position t.toList s.toList)) := by
  show onText .stringIndexOf s.toList [.string t] = _
  have hneedle : needle [.string t] = .ok t.toList := rfl
  unfold position
  cases h : Text.find? t.toList s.toList <;> simp [onText, hneedle, Except.map, h]

theorem apply_contains : apply .stringContains (.string s) [.string t] =
    .ok (.boolean (Text.find? t.toList s.toList).isSome) := rfl

theorem apply_startsWith : apply .stringStartsWith (.string s) [.string t] =
    .ok (.boolean (t.toList.isPrefixOf s.toList)) := rfl

theorem apply_endsWith : apply .stringEndsWith (.string s) [.string t] =
    .ok (.boolean (t.toList.isSuffixOf s.toList)) := rfl

variable {s}

theorem apply_substring {n m : Int} (hn : IntType.int32.holds n = true)
    (hm : IntType.int32.holds m = true) :
    apply .stringSubstring (.string s) [.int32 n, .int32 m] =
      (substring s.toList n m).map ofChars := by
  show (integerArgument [.int32 n, .int32 m] 0 >>= fun start =>
    integerArgument [.int32 n, .int32 m] 1 >>= fun length =>
      (substring s.toList start length).map ofChars) = _
  simp [integerArgument, integer_int32 hn, integer_int32 hm]
  rfl

theorem apply_substring_rest {n : Int} (hn : IntType.int32.holds n = true) :
    apply .stringSubstring (.string s) [.int32 n] =
      (substring s.toList n (s.toList.length - n)).map ofChars := by
  show (integerArgument [.int32 n] 0 >>= fun start =>
    (substring s.toList start (s.toList.length - start)).map ofChars) = _
  simp [integerArgument, integer_int32 hn]
  rfl

end

/-- The text `t` is what its length cuts out of `s` at position `i`. -/
def OccursAt (s t : String) (i : Int) : Prop :=
  apply .stringSubstring (.string s) [.int32 i, .int32 t.length] = .ok (.string t)

/-- What the functions on texts tell of where the text `t` is in the text `s`. -/
structure Positions (s t : String) : Prop where
  /-- The length is the number of characters. -/
  length : apply .stringLength (.string s) [] = .ok (.int32 s.length)
  /-- `IndexOf` comes to the first position at which `t` occurs, or to a negative number if
  `Contains` says that it occurs nowhere; `StartsWith` tells whether that position is zero. -/
  search : ∃ i : Int, -1 ≤ i ∧ i ≤ s.length ∧
    apply .stringIndexOf (.string s) [.string t] = .ok (.int32 i) ∧
    apply .stringContains (.string s) [.string t] = .ok (.boolean (0 ≤ i)) ∧
    apply .stringStartsWith (.string s) [.string t] = .ok (.boolean (i = 0)) ∧
    (0 ≤ i → OccursAt s t i) ∧ ∀ j, 0 ≤ j → j < i → ¬ OccursAt s t j
  /-- The position is the number of characters in front of the first occurrence among the
  bytes. -/
  bytes : apply .stringIndexOf (.string s) [.string t] =
    .ok (.int32 (((Text.findBytes? (Text.utf8 t.toList) (Text.utf8 s.toList)).map fun n =>
      (Text.countChars ((Text.utf8 s.toList).take n) : Int)).getD (-1)))
  /-- `EndsWith` tells whether the last characters of `s`, as many as `t` has, are `t`. -/
  ending : ∃ b d, apply .stringEndsWith (.string s) [.string t] = .ok (.boolean b) ∧
    Operation.subtract.apply (.int32 s.length) (.int32 t.length) = .ok d ∧
    (b = true ↔ t.length ≤ s.length ∧
      apply .stringSubstring (.string s) [d] = .ok (.string t))
  /-- The characters up to a position and those from there on are `s` together; a position
  that is not in `s` is out of range for both. -/
  divided : ∀ i, IntType.int32.holds i = true →
    (0 ≤ i ∧ i ≤ s.length → ∃ front back,
      apply .stringSubstring (.string s) [.int32 0, .int32 i] = .ok front ∧
      apply .stringSubstring (.string s) [.int32 i] = .ok back ∧
      Operation.concat.apply front back = .ok (.string s)) ∧
    (¬ (0 ≤ i ∧ i ≤ s.length) →
      apply .stringSubstring (.string s) [.int32 0, .int32 i] =
        .error (.argumentOutOfRange "Substring") ∧
      apply .stringSubstring (.string s) [.int32 i] = .error (.argumentOutOfRange "Substring"))

section
variable {s t : String}

theorem map_ofChars_eq_ok {x : Except EvalError (List Char)} :
    x.map ofChars = .ok (.string t) ↔ x = .ok t.toList := by
  cases x with
  | error e => simp [Except.map]
  | ok cs =>
    have hchars : ofChars cs = .string t ↔ cs = t.toList := by
      constructor
      · intro h
        have htext : String.ofList cs = t := by injection h with h; injection h
        rw [← htext, String.toList_ofList]
      · rintro rfl
        rw [ofChars, String.ofList_toList]
    simp [Except.map, hchars]

theorem holds_of_length (hs : s.length < 2147483648) {n : Int} (h0 : -1 ≤ n) (hn : n ≤ s.length) :
    IntType.int32.holds n = true := by
  have hmin : IntType.int32.min = -2147483648 := by decide
  have hmax : IntType.int32.max = 2147483647 := by decide
  rw [IntType.holds_iff, hmin, hmax]
  omega

/-- The difference of two numbers of the type `Int32`. -/
theorem subtract_int32 {m n : Int} (hm : IntType.int32.holds m = true)
    (hn : IntType.int32.holds n = true) :
    Operation.subtract.apply (.int32 m) (.int32 n) = .ok (.int32 (m - n)) := by
  have hvalues : IntType.int32.wrap m - IntType.int32.wrap n = m - n := by
    rw [IntType.wrap_of_mem ((IntType.holds_iff _ _).mp hm),
      IntType.wrap_of_mem ((IntType.holds_iff _ _).mp hn)]
  exact congrArg (fun r => (.ok (.int32 r) : Except EvalError Value)) hvalues

theorem occursAt_iff (ht : t.length < 2147483648) (hi : IntType.int32.holds i = true) :
    OccursAt s t i ↔ 0 ≤ i ∧ i ≤ s.length ∧ t.toList <+: s.toList.drop i.toNat := by
  have hlength : IntType.int32.holds t.length = true := holds_of_length ht (by omega) (by omega)
  rw [OccursAt, apply_substring hi hlength, map_ofChars_eq_ok]
  exact substring_eq_iff

/-- The position of a text, by the position that is found. -/
theorem position_cases (t s : List Char) :
    (∃ i, Text.find? t s = some i ∧ position t s = i) ∨
    (Text.find? t s = none ∧ position t s = -1) := by
  unfold position
  cases Text.find? t s with
  | none => exact .inr ⟨rfl, rfl⟩
  | some i => exact .inl ⟨i, rfl, rfl⟩

theorem search_agrees (hs : s.length < 2147483648) (ht : t.length < 2147483648) :
    ∃ i : Int, -1 ≤ i ∧ i ≤ s.length ∧
      apply .stringIndexOf (.string s) [.string t] = .ok (.int32 i) ∧
      apply .stringContains (.string s) [.string t] = .ok (.boolean (0 ≤ i)) ∧
      apply .stringStartsWith (.string s) [.string t] = .ok (.boolean (i = 0)) ∧
      (0 ≤ i → OccursAt s t i) ∧ ∀ j, 0 ≤ j → j < i → ¬ OccursAt s t j := by
  refine ⟨position t.toList s.toList, ?_⟩
  rw [apply_indexOf, apply_contains, apply_startsWith]
  have hfront := Text.find?_eq_zero_iff (t := t.toList) (s := s.toList)
  rw [← List.isPrefixOf_iff_prefix] at hfront
  obtain ⟨n, hfind, hn⟩ | ⟨hfind, hn⟩ := position_cases t.toList s.toList
  · obtain ⟨hle, hoccurs, hleast⟩ := Text.find?_eq_some_iff.mp hfind
    have hlength : (n : Int) ≤ s.length := by
      rw [← String.length_toList]
      exact_mod_cast hle
    have hstarts : t.toList.isPrefixOf s.toList = decide ((n : Int) = 0) := by
      rw [Bool.eq_iff_iff, ← hfront, hfind]
      simp
    rw [hn, hfind, hstarts]
    refine ⟨by omega, hlength, rfl, by simp, rfl, fun _ => ?_, fun j h0 hj hat => ?_⟩
    · have hholds := holds_of_length hs (by omega) hlength
      exact (occursAt_iff ht hholds).mpr ⟨by omega, hlength, hoccurs⟩
    · have hj' := (occursAt_iff ht (holds_of_length hs (by omega) (by omega))).mp hat
      exact hleast j.toNat (by omega) hj'.2.2
  · have hstarts : t.toList.isPrefixOf s.toList = false := by
      rw [Bool.eq_false_iff, ne_eq, ← hfront, hfind]
      simp
    rw [hn, hfind, hstarts]
    exact ⟨by omega, by omega, rfl, rfl, rfl, fun h => by omega, fun j h0 hj => by omega⟩

theorem ending_agrees (hs : s.length < 2147483648) (ht : t.length < 2147483648) :
    t.toList.isSuffixOf s.toList = true ↔ t.length ≤ s.length ∧
      apply .stringSubstring (.string s) [.int32 (s.length - t.length)] = .ok (.string t) := by
  rw [List.isSuffixOf_iff_suffix]
  constructor
  · intro hsuffix
    have hle : t.length ≤ s.length := by
      rw [← String.length_toList, ← String.length_toList]
      exact hsuffix.length_le
    refine ⟨hle, ?_⟩
    have hholds : IntType.int32.holds ((s.length : Int) - t.length) = true :=
      holds_of_length hs (by omega) (by omega)
    have hrest : (s.toList.length : Int) - (s.length - t.length) = t.toList.length := by
      simp only [String.length_toList]
      omega
    rw [apply_substring_rest hholds, map_ofChars_eq_ok, hrest, substring_eq_iff]
    refine ⟨by omega, by rw [String.length_toList]; omega, ?_⟩
    have hdrop := List.suffix_iff_eq_drop.mp hsuffix
    have hstart : ((s.length : Int) - t.length).toNat = s.toList.length - t.toList.length := by
      simp only [String.length_toList]
      omega
    rw [hstart, ← hdrop]
  · rintro ⟨hle, hsub⟩
    have hholds : IntType.int32.holds ((s.length : Int) - t.length) = true :=
      holds_of_length hs (by omega) (by omega)
    have hrest : (s.toList.length : Int) - (s.length - t.length) = t.toList.length := by
      simp only [String.length_toList]
      omega
    rw [apply_substring_rest hholds, map_ofChars_eq_ok, hrest, substring_eq_iff] at hsub
    obtain ⟨-, -, hfront⟩ := hsub
    have hlength :
        (s.toList.drop ((s.length : Int) - t.length).toNat).length = t.toList.length := by
      simp only [List.length_drop, String.length_toList]
      omega
    rw [hfront.eq_of_length hlength.symm]
    exact List.drop_suffix _ _

theorem divided_agrees (hi : IntType.int32.holds i = true) :
    (0 ≤ i ∧ i ≤ s.length → ∃ front back,
      apply .stringSubstring (.string s) [.int32 0, .int32 i] = .ok front ∧
      apply .stringSubstring (.string s) [.int32 i] = .ok back ∧
      Operation.concat.apply front back = .ok (.string s)) ∧
    (¬ (0 ≤ i ∧ i ≤ s.length) →
      apply .stringSubstring (.string s) [.int32 0, .int32 i] =
        .error (.argumentOutOfRange "Substring") ∧
      apply .stringSubstring (.string s) [.int32 i] =
        .error (.argumentOutOfRange "Substring")) := by
  have hzero : IntType.int32.holds 0 = true := rfl
  have hlength : (s.toList.length : Int) = s.length := by rw [String.length_toList]
  rw [apply_substring hzero hi, apply_substring_rest hi]
  constructor
  · rintro ⟨h0, hle⟩
    obtain ⟨front, back, hfront, hback, happend⟩ := substring_append h0 (hlength ▸ hle)
    refine ⟨ofChars front, ofChars back, by rw [hfront]; rfl, by rw [hback]; rfl, ?_⟩
    show (.ok (.string (String.ofList front ++ String.ofList back)) : Except EvalError Value) = _
    rw [← String.ofList_append, happend, String.ofList_toList]
  · intro hout
    have hfirst : (decide ((0 : Int) < 0) || decide (i < 0) ||
        decide ((s.toList.length : Int) < 0 + i)) = true := by
      simp only [Bool.or_eq_true, decide_eq_true_eq, hlength]
      omega
    have hrest : (decide (i < 0) || decide ((s.toList.length : Int) - i < 0) ||
        decide ((s.toList.length : Int) < i + (s.toList.length - i))) = true := by
      simp only [Bool.or_eq_true, decide_eq_true_eq, hlength]
      omega
    rw [substring, if_pos hfirst, substring, if_pos hrest]
    exact ⟨rfl, rfl⟩

end

/-- **The functions on texts agree about positions**, of whatever characters the texts are. -/
theorem positions_agree (s t : String) (hs : s.length < 2147483648) (ht : t.length < 2147483648) :
    Positions s t where
  length := by
    show (.ok (Value.int32 s.toList.length) : Except EvalError Value) = _
    rw [String.length_toList]
  search := search_agrees hs ht
  bytes := by
    rw [apply_indexOf, position, Text.find?_eq_bytes, Option.map_map]
    rfl
  ending := ⟨_, _, apply_endsWith s t, subtract_int32 (holds_of_length hs (by omega) (by omega))
    (holds_of_length ht (by omega) (by omega)), ending_agrees hs ht⟩
  divided _ hi := divided_agrees hi

/-- A character of two bytes counts once. -/
theorem positions_agree_accent : "naïve".length < 2147483648 ∧ "ve".length < 2147483648 ∧
    Positions "naïve" "ve" ∧
    apply .stringIndexOf (.string "naïve") [.string "ve"] = .ok (.int32 3) := by
  have hs : "naïve".length < 2147483648 := by decide
  have ht : "ve".length < 2147483648 := by decide
  exact ⟨hs, ht, positions_agree _ _ hs ht, rfl⟩

end Intrinsic
end QueryExpr
