/-
# Runs on a cache of record types

A run is a sequence of calls on a cache that is empty at first: requests for
record types, and resets. Whatever the run, a request fails just if its
signature is not valid; two requests are given the same record type just if
their signatures are equal and no reset lies between them; and the numbers
given out are those from one up to the number of record types ever made.

The invariant (`Orderly`) ties the record types in the cache to the counter.
Records from before a reset are kept apart from later ones by their numbers,
since those later are beyond all numbers given out (`Beyond`).

Key definitions: `Properties.Valid`, `RecordCache.Call`, `RecordCache.run`,
`RecordCache.Gives`, `RecordCache.Orderly`, `RecordCache.RunLaws`.
Key theorems: `RecordCache.orderly_run`, `RecordCache.size_ofRun`,
`RecordCache.run_laws`.
-/
import Mathlib.Data.Finset.Card
import Mathlib.Data.Finset.Dedup
import Mathlib.Data.List.Pairwise
import QueryExpr.Proofs.RecordGrowth

namespace QueryExpr

/-! ### Signatures -/

namespace Properties

/-- All names can be names of a property, and none is there twice. -/
def Valid (ps : Properties) : Prop :=
  (∀ p ∈ ps, Text.isPropertyName p.1.toList = true) ∧ (ps.map (·.1)).Nodup

theorem faultAfter_eq_none_iff : ∀ (seen : List String) (ps : Properties),
    ps.faultAfter seen = none ↔ ps.Valid ∧ ∀ p ∈ ps, p.1 ∉ seen
  | seen, [] => by simp [faultAfter, Valid]
  | seen, (n, t) :: ps => by
    unfold faultAfter
    by_cases hn : Text.isPropertyName n.toList = true
    · by_cases hs : n ∈ seen
      · simp [hn, hs]
      · have ih := faultAfter_eq_none_iff (seen ++ [n]) ps
        simp only [hn, hs, Bool.not_true, Bool.false_eq_true, if_false, List.contains_eq_mem,
          decide_false, ih, Valid, List.forall_mem_cons, List.map_cons, List.nodup_cons,
          List.mem_append, List.mem_singleton, List.mem_map, not_or, not_false_eq_true, true_and]
        grind
    · simp [hn, Valid]

theorem fault_eq_none_iff (ps : Properties) : ps.fault = none ↔ ps.Valid := by
  unfold fault
  rw [faultAfter_eq_none_iff]
  simp

theorem Valid.of_same {ps qs : Properties} (h : ps.same qs = true) (hv : qs.Valid) : ps.Valid := by
  rw [← fault_eq_none_iff] at hv ⊢
  rw [fault_of_same h, hv]

instance setoid : Setoid Properties where
  r ps qs := ps.same qs = true
  iseqv := ⟨same_refl, same_symm, same_trans⟩

instance : DecidableRel ((· ≈ ·) : Properties → Properties → Prop) :=
  fun ps qs => inferInstanceAs (Decidable (ps.same qs = true))

instance (ps : Properties) : Decidable ps.Valid := inferInstanceAs (Decidable (_ ∧ _))

/-- The signatures that are equal to a given one, as one thing. -/
def toClass (ps : Properties) : Quotient setoid := Quotient.mk setoid ps

/-- The number of different signatures. -/
def distinct (pss : List Properties) : Nat := (pss.map toClass).toFinset.card

end Properties

namespace RecordCache

/-! ### Runs -/

/-- What is done with a cache: a record type is asked for by its signature, or
all of them are forgotten. -/
inductive Call
  | request (ps : Properties)
  | reset

namespace Call

/-- The cache behind a call. -/
def after (c : RecordCache) : Call → RecordCache
  | .request ps => (c.request ps).2
  | .reset => c.reset

/-- The signature that is asked for. -/
def signature? : Call → Option Properties
  | .request ps => some ps
  | .reset => none

end Call

/-- The cache behind a run of calls. -/
def run (c : RecordCache) (calls : List Call) : RecordCache := calls.foldl Call.after c

/-- The cache behind a run that starts with an empty cache. -/
def ofRun (calls : List Call) : RecordCache := empty.run calls

/-- The signatures asked for since the last reset, the last one first. -/
def sinceReset (calls : List Call) : List Properties :=
  (calls.reverse.takeWhile fun call => call.signature?.isSome).filterMap Call.signature?

/-- In the run, the signature is asked for behind the calls `before`, and the
record type is what it comes to. -/
def Gives (calls before : List Call) (ps : Properties) (r : RecordType) : Prop :=
  before ++ [.request ps] <+: calls ∧ ((ofRun before).request ps).1 = .ok r

theorem run_append (c : RecordCache) (calls more : List Call) :
    c.run (calls ++ more) = (c.run calls).run more := List.foldl_append

theorem ofRun_append (calls more : List Call) : ofRun (calls ++ more) = (ofRun calls).run more :=
  run_append empty calls more

/-! ### What a call keeps -/

/-- The record types are valid, of different signatures and numbers, and their
numbers have been given out. -/
structure Orderly (c : RecordCache) : Prop where
  valid : ∀ r ∈ c.entries, Properties.Valid r.properties
  distinct : c.entries.Pairwise fun r s => ¬ Properties.same r.properties s.properties = true
  one : ∀ r ∈ c.entries, ∀ s ∈ c.entries, r.id = s.id → r = s
  counted : ∀ r ∈ c.entries, 0 < r.id ∧ r.id ≤ c.synthesized

/-- All record types, those in the cache and those still to be made, have
numbers beyond `n`. -/
def Beyond (n : Nat) (c : RecordCache) : Prop :=
  n ≤ c.synthesized ∧ ∀ r ∈ c.entries, n < r.id

variable {c d : RecordCache} {calls before between : List Call} {ps qs : Properties}
  {r s : RecordType} {n : Nat}

/-- What is not found is equal to nothing that is in the cache. -/
theorem not_same_of_find? (h : c.find? ps = none) (hr : r ∈ c.entries) :
    ¬ ps.same r.properties = true := by
  intro hs
  have := find?_isSome_of_mem hr hs
  rw [h] at this
  cases this

theorem Orderly.eq_of_same (h : c.Orderly) (hr : r ∈ c.entries) (hs : s ∈ c.entries)
    (hsame : Properties.same r.properties s.properties = true) : r = s := by
  by_contra hne
  have : Std.Symm fun r s : RecordType => ¬ Properties.same r.properties s.properties = true :=
    ⟨fun _ _ h h' => h (Properties.same_symm h')⟩
  exact h.distinct.forall hr hs hne hsame

theorem Orderly.request (h : c.Orderly) (ps : Properties) : (c.request ps).2.Orderly := by
  rcases c.request_outcomes ps with ⟨r, -, h'⟩ | ⟨cause, -, -, h'⟩ | ⟨hf, hv, h'⟩
  · rw [h']
    exact h
  · rw [h']
    exact h
  · have hone := (Grows.refl.request ps).one (fun r hr => (h.counted r hr).2) h.one
    rw [h'] at hone ⊢
    refine ⟨?_, ?_, hone, ?_⟩
    · exact List.forall_mem_cons.mpr ⟨ps.fault_eq_none_iff.mp hv, h.valid⟩
    · exact List.pairwise_cons.mpr ⟨fun s hs => not_same_of_find? hf hs, h.distinct⟩
    · refine List.forall_mem_cons.mpr ⟨⟨Nat.succ_pos _, Nat.le_refl _⟩, fun r hr => ?_⟩
      exact ⟨(h.counted r hr).1, Nat.le_succ_of_le (h.counted r hr).2⟩

theorem Orderly.after (h : c.Orderly) : ∀ call : Call, (call.after c).Orderly
  | .request ps => h.request ps
  | .reset => ⟨List.forall_mem_nil _, .nil, List.forall_mem_nil _, List.forall_mem_nil _⟩

theorem orderly_run (h : c.Orderly) (calls : List Call) : (c.run calls).Orderly := by
  induction calls generalizing c with
  | nil => exact h
  | cons call calls ih => exact ih (h.after call)

theorem orderly_ofRun (calls : List Call) : (ofRun calls).Orderly :=
  orderly_run ⟨List.forall_mem_nil _, .nil, List.forall_mem_nil _, List.forall_mem_nil _⟩ calls

theorem Beyond.after (h : c.Beyond n) : ∀ call : Call, (call.after c).Beyond n
  | .request ps => by
    show (c.request ps).2.Beyond n
    rcases c.request_cases ps with h' | h' <;> rw [h']
    · exact h
    · refine ⟨Nat.le_succ_of_le h.1, List.forall_mem_cons.mpr ⟨?_, h.2⟩⟩
      exact Nat.lt_succ_of_le h.1
  | .reset => ⟨h.1, List.forall_mem_nil _⟩

theorem Beyond.run (h : c.Beyond n) (calls : List Call) : (c.run calls).Beyond n := by
  induction calls generalizing c with
  | nil => exact h
  | cons call calls ih => exact ih (h.after call)

/-- The counter never goes back. -/
theorem synthesized_run (c : RecordCache) (calls : List Call) :
    c.synthesized ≤ (c.run calls).synthesized := by
  induction calls generalizing c with
  | nil => exact Nat.le_refl _
  | cons call calls ih =>
    refine Nat.le_trans ?_ (ih (call.after c))
    cases call with
    | request ps => exact (Grows.refl.request ps).fresh.1
    | reset => exact Nat.le_refl _

/-- Without a reset the cache only grows. -/
theorem grows_run (c : RecordCache) (h : .reset ∉ calls) : c.Grows (c.run calls) := by
  induction calls generalizing c with
  | nil => exact .refl
  | cons call calls ih =>
    rw [List.mem_cons, not_or] at h
    cases call with
    | request ps => exact (Grows.refl.request ps).trans (ih _ h.2)
    | reset => exact absurd rfl h.1

/-- Behind a reset there are only numbers that have not been given out. -/
theorem beyond_run (h : .reset ∈ calls) : (c.run calls).Beyond c.synthesized := by
  obtain ⟨before, rest, rfl⟩ := List.append_of_mem h
  have hreset : ((c.run before).reset).Beyond c.synthesized :=
    ⟨synthesized_run c before, List.forall_mem_nil _⟩
  rw [run_append]
  exact hreset.run rest

/-! ### What a request comes to -/

/-- **A request fails just if its signature is not valid.** -/
theorem Orderly.request_fails_iff (h : c.Orderly) (ps : Properties) :
    (∃ cause, (c.request ps).1 = .error cause) ↔ ¬ ps.Valid := by
  rw [← ps.fault_eq_none_iff]
  rcases c.request_outcomes ps with ⟨r, hf, h'⟩ | ⟨cause, -, hc, h'⟩ | ⟨-, hv, h'⟩
  · have hv : ps.Valid := .of_same (find?_ok hf).1 (h.valid r (find?_ok hf).2)
    rw [h', ps.fault_eq_none_iff.mpr hv]
    simp
  · rw [h', hc]
    simp
  · rw [h', hv]
    simp

/-- A request that fails leaves the cache as it is. -/
theorem request_error {cause : Cause} (h : (c.request ps).1 = .error cause) :
    (c.request ps).2 = c := by
  rcases c.request_outcomes ps with ⟨r, -, h'⟩ | ⟨cause', -, -, h'⟩ | ⟨-, -, h'⟩ <;> rw [h'] at h ⊢
  cases h

/-- Behind a request that is met, the record type is in the cache. -/
theorem mem_of_gives (h : Gives calls before ps r) :
    ps.same r.properties = true ∧ r ∈ (ofRun (before ++ [.request ps])).entries := by
  rw [ofRun_append]
  exact request_ok (d := ((ofRun before).request ps).2) (Prod.ext h.2 rfl)

/-- Two record types that are given in a run, of which the first one is given
before and the second one behind the calls `between`, are one just if the
signatures are equal and there is no reset between. -/
theorem gives_eq_iff (h : Gives calls before ps r)
    (h' : Gives calls (before ++ .request ps :: between) qs s) :
    (r = s ↔ ps.same qs = true ∧ .reset ∉ between) ∧ (r.id = s.id ↔ r = s) := by
  obtain ⟨hps, hr⟩ := mem_of_gives h
  obtain ⟨hqs, hs⟩ := mem_of_gives h'
  have hrun : ofRun (before ++ .request ps :: between ++ [.request qs]) =
      (ofRun (before ++ [.request ps])).run (between ++ [.request qs]) := by
    rw [← ofRun_append]
    simp
  rw [hrun] at hs
  have horderly := orderly_run (orderly_ofRun (before ++ [.request ps])) (between ++ [.request qs])
  by_cases hreset : .reset ∈ between
  · -- the later number is beyond the earlier one
    have hbeyond := beyond_run (c := ofRun (before ++ [.request ps]))
      (List.mem_append_left [.request qs] hreset)
    have hlt := hbeyond.2 s hs
    have hle := ((orderly_ofRun _).counted r hr).2
    have hne : r.id ≠ s.id := by omega
    have hne' : r ≠ s := fun h => hne (congrArg RecordType.id h)
    exact ⟨by simp [hne', hreset], by simp [hne, hne']⟩
  · -- both are in the cache at the end
    have hlasts : .reset ∉ between ++ [.request qs] := by simp [hreset]
    have hr' := (grows_run (ofRun (before ++ [.request ps])) hlasts).mem hr
    refine ⟨⟨?_, fun hsame => horderly.eq_of_same hr' hs ?_⟩,
      ⟨horderly.one r hr' s hs, fun h => congrArg RecordType.id h⟩⟩
    · rintro rfl
      exact ⟨Properties.same_trans hps (Properties.same_symm hqs), hreset⟩
    · exact Properties.same_trans (Properties.same_symm hps) (Properties.same_trans hsame.1 hqs)

theorem Gives.append (h : Gives calls before ps r) (more : List Call) :
    Gives (calls ++ more) before ps r :=
  ⟨h.1.trans (List.prefix_append calls more), h.2⟩

/-- **The numbers given out are those from one on**, up to the number of record
types made. -/
theorem gives_id_iff (calls : List Call) (n : Nat) :
    (∃ before ps r, Gives calls before ps r ∧ r.id = n) ↔
      1 ≤ n ∧ n ≤ (ofRun calls).synthesized := by
  constructor
  · rintro ⟨before, ps, r, h, rfl⟩
    obtain ⟨rest, hrest⟩ := h.1
    obtain ⟨hpos, hle⟩ := (orderly_ofRun _).counted r (mem_of_gives h).2
    have hmono := synthesized_run (ofRun (before ++ [.request ps])) rest
    rw [← ofRun_append, hrest] at hmono
    exact ⟨hpos, Nat.le_trans hle hmono⟩
  · rintro ⟨hpos, hle⟩
    induction calls using List.reverseRecOn with
    | nil => exact absurd (Nat.le_trans hpos hle) (by decide)
    | append_singleton calls call ih =>
      have earlier (hle : n ≤ (ofRun calls).synthesized) :
          ∃ before ps r, Gives (calls ++ [call]) before ps r ∧ r.id = n := by
        obtain ⟨before, ps, r, h, hid⟩ := ih hle
        exact ⟨before, ps, r, h.append [call], hid⟩
      rw [ofRun_append] at hle
      cases call with
      | reset => exact earlier hle
      | request ps =>
        change n ≤ ((ofRun calls).request ps).2.synthesized at hle
        rcases (ofRun calls).request_outcomes ps with ⟨r, -, h'⟩ | ⟨_, -, -, h'⟩ | ⟨-, -, h'⟩
        · rw [h'] at hle
          exact earlier hle
        · rw [h'] at hle
          exact earlier hle
        · rcases Nat.lt_or_ge (ofRun calls).synthesized n with hn | hn
          · rw [h'] at hle
            refine ⟨calls, ps, _, ⟨List.prefix_refl _, congrArg Prod.fst h'⟩, ?_⟩
            exact Nat.le_antisymm hn hle
          · exact earlier hn

/-! ### How many record types there are -/

theorem sinceReset_request (calls : List Call) (ps : Properties) :
    sinceReset (calls ++ [.request ps]) = ps :: sinceReset calls := by
  simp [sinceReset, Call.signature?]

theorem sinceReset_reset (calls : List Call) : sinceReset (calls ++ [.reset]) = [] := by
  simp [sinceReset, Call.signature?]

/-- The cache holds the valid signatures asked for since the last reset, and
no others. -/
theorem entries_ofRun (calls : List Call) :
    (∀ r ∈ (ofRun calls).entries, r.properties ∈ sinceReset calls) ∧
      ∀ ps ∈ sinceReset calls, ps.Valid →
        ∃ r ∈ (ofRun calls).entries, ps.same r.properties = true := by
  induction calls using List.reverseRecOn with
  | nil => exact ⟨List.forall_mem_nil _, List.forall_mem_nil _⟩
  | append_singleton calls call ih =>
    rw [ofRun_append]
    cases call with
    | reset =>
      rw [sinceReset_reset]
      exact ⟨List.forall_mem_nil _, List.forall_mem_nil _⟩
    | request ps =>
      rw [sinceReset_request]
      change (∀ r ∈ ((ofRun calls).request ps).2.entries, _) ∧
        ∀ qs ∈ ps :: sinceReset calls, _ → ∃ r ∈ ((ofRun calls).request ps).2.entries, _
      refine ⟨fun r hr => ?_, List.forall_mem_cons.mpr ⟨fun hv => ?_, fun qs hqs hv => ?_⟩⟩
      · rcases (ofRun calls).request_cases ps with h' | h' <;> rw [h'] at hr
        · exact List.mem_cons_of_mem _ (ih.1 r hr)
        · rcases List.mem_cons.mp hr with rfl | hr
          · exact List.mem_cons_self
          · exact List.mem_cons_of_mem _ (ih.1 r hr)
      · rcases hr : (ofRun calls).request ps with ⟨cause | r, c⟩
        · exact absurd hv (((orderly_ofRun calls).request_fails_iff ps).mp ⟨cause, by rw [hr]⟩)
        · exact ⟨r, (request_ok hr).2, (request_ok hr).1⟩
      · obtain ⟨r, hr, hs⟩ := ih.2 qs hqs hv
        exact ⟨r, mem_request ps hr, hs⟩

/-- **The size of the cache is the number of different valid signatures** asked
for since the last reset. -/
theorem size_ofRun (calls : List Call) :
    (ofRun calls).size = Properties.distinct ((sinceReset calls).filter fun ps => ps.Valid) := by
  have horderly := orderly_ofRun calls
  obtain ⟨hfrom, hto⟩ := entries_ofRun calls
  have hnodup : ((ofRun calls).entries.map fun r => Properties.toClass r.properties).Nodup :=
    List.pairwise_map.mpr (horderly.distinct.imp fun h he => h (Quotient.exact he))
  have hlen : (ofRun calls).size =
      ((ofRun calls).entries.map fun r => Properties.toClass r.properties).toFinset.card := by
    rw [List.toFinset_card_of_nodup hnodup, List.length_map]
    rfl
  rw [hlen]
  unfold Properties.distinct
  congr 1
  ext q
  simp only [List.mem_toFinset, List.mem_map, List.mem_filter, decide_eq_true_eq]
  constructor
  · rintro ⟨r, hr, rfl⟩
    exact ⟨r.properties, ⟨hfrom r hr, horderly.valid r hr⟩, rfl⟩
  · rintro ⟨ps, ⟨hps, hv⟩, rfl⟩
    obtain ⟨r, hr, hs⟩ := hto ps hps hv
    exact ⟨r, hr, Quotient.sound (Properties.same_symm hs)⟩

/-! ### The laws of runs -/

/-- What holds of every run of calls on a cache that is empty at first. -/
structure RunLaws (calls : List Call) : Prop where
  /-- A request fails just if a name is impossible or there twice. -/
  fails_iff (ps : Properties) :
    (∃ cause, ((ofRun calls).request ps).1 = .error cause) ↔ ¬ ps.Valid
  /-- A request that fails changes nothing. -/
  failed (ps : Properties) : ¬ ps.Valid → ((ofRun calls).request ps).2 = ofRun calls
  /-- Two requests are given the same record type, which is to say the same
  number, just if their signatures are equal and no reset lies between. -/
  same_iff {before between : List Call} {ps qs : Properties} {r s : RecordType} :
    Gives calls before ps r → Gives calls (before ++ .request ps :: between) qs s →
      (r = s ↔ ps.same qs = true ∧ .reset ∉ between) ∧ (r.id = s.id ↔ r = s)
  /-- A record type has the properties that were asked for, in order, and is
  named by its number. -/
  exposes {before : List Call} {ps : Properties} {r : RecordType} : Gives calls before ps r →
    ps.same r.properties = true ∧ r.name = "DynamicClass" ++ toString r.id
  /-- The numbers given out are those up to the number of record types made. -/
  numbers (n : Nat) : (∃ before ps r, Gives calls before ps r ∧ r.id = n) ↔
    1 ≤ n ∧ n ≤ (ofRun calls).synthesized
  /-- There are as many record types as there are different valid signatures
  asked for since the last reset. -/
  size : (ofRun calls).size =
    Properties.distinct ((sinceReset calls).filter fun ps => ps.Valid)
  /-- Every signature in the cache is valid. -/
  valid : ∀ r ∈ (ofRun calls).entries, Properties.Valid r.properties
  /-- What is found without being validated has a valid signature. -/
  found {ps : Properties} {r : RecordType} : (ofRun calls).find? ps = some r → ps.Valid

/-- **The laws hold of every run.** -/
theorem run_laws (calls : List Call) : RunLaws calls where
  fails_iff ps := (orderly_ofRun calls).request_fails_iff ps
  failed ps hv := by
    obtain ⟨cause, h⟩ := ((orderly_ofRun calls).request_fails_iff ps).mpr hv
    exact request_error h
  same_iff h h' := gives_eq_iff h h'
  exposes h := ⟨(mem_of_gives h).1, rfl⟩
  numbers n := gives_id_iff calls n
  size := size_ofRun calls
  valid := (orderly_ofRun calls).valid
  found h := .of_same (find?_ok h).1 ((orderly_ofRun calls).valid _ (find?_ok h).2)

end RecordCache
end QueryExpr
