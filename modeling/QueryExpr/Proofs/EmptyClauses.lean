/-
# Clauses without a token

An ordering fails just if a clause of it is empty, which is told from its white
space. As far as the text has no fault, such a clause has no token, and what is left
of any other one has a token, but for byte order marks: tokens may have them between
them, and for the clauses they are not white space. A clause of blanks with such a
mark is not empty, and its segment has no token (`segments_nonempty`,
`not_segments_nonempty_of_mark`).

Key definitions: `Ordering.HasToken`.
Key theorems: `Ordering.hasToken_iff`, `Ordering.spaces_iff`,
`Ordering.Segment.Trims.hasToken`, `Ordering.segmentOf_word`, `Ordering.segments_nonempty`.
-/
import QueryExpr.Proofs.ClauseDirections

namespace QueryExpr
namespace Ordering

open Text (Spaces trim)

variable {text cs lead word trail : List Char} {a b stop number start : Nat} {t : Token}
  {d : Direction} {s : Segment}

/-- The byte order mark, which tokens may have between them. -/
abbrev mark : Char := '\ufeff'

/-- A token of the text stands in the stretch from `a` up to `b`. -/
def HasToken (text : List Char) (a b : Nat) : Prop :=
  ∃ t ∈ (tokens text).list, a ≤ t.span.start ∧ t.stop ≤ b

/-! ### Stretches without a token -/

theorem start_lt_stop (ht : t ∈ (tokens text).list) : t.span.start < t.stop := by
  have hpos := (tokens_tiling text).nonempty t ht
  have hstop : t.stop = t.span.start + t.span.length := rfl
  omega

theorem isBlank_iff {c : Char} :
    Text.isBlank c = true ↔ Text.isWhiteSpace c = true ∨ c = mark := by
  rw [Text.isBlank, Bool.or_eq_true_iff, beq_iff_eq]

theorem mem_stretch_iff {c : Char} (hb : b ≤ text.length) :
    c ∈ stretch text a b ↔ ∃ i, a ≤ i ∧ i < b ∧ text[i]? = some c := by
  refine ⟨fun hc => ?_, fun ⟨i, hle, hlt, hi⟩ => mem_stretch hle hlt hi⟩
  obtain ⟨i, hi⟩ := List.getElem?_of_mem hc
  have hlt := (List.getElem?_eq_some_iff.mp hi).1
  rw [length_stretch hb] at hlt
  refine ⟨a + i, by omega, by omega, ?_⟩
  rwa [getElem?_stretch (by omega)] at hi

/-- Between two tokens there is a token where there is something else than blanks. -/
theorem hasToken_iff (hok : (tokens text).ending = .ok stop) (hcut : Cut text a b) :
    HasToken text a b ↔ ∃ c ∈ stretch text a b, Text.isBlank c = false := by
  constructor
  · rintro ⟨t, ht, hfirst, hlast⟩
    obtain ⟨c, hc, hblank⟩ := tokens_first ht
    have hlt := start_lt_stop ht
    exact ⟨c, mem_stretch hfirst (by omega) hc, Bool.not_eq_true _ ▸ hblank⟩
  · rintro ⟨c, hc, hblank⟩
    obtain ⟨i, hle, hlt, hi⟩ := (mem_stretch_iff hcut.bound).mp hc
    obtain ⟨t, ht, hstart, hstop⟩ := exists_token hok hi hblank
    exact ⟨t, ht, (hcut.first t ht).resolve_left (by omega),
      (hcut.last t ht).resolve_right (by omega)⟩

/-- Between two tokens there is nothing but white space where there is neither a token
nor a mark. -/
theorem spaces_iff (hok : (tokens text).ending = .ok stop) (hcut : Cut text a b) :
    Spaces (stretch text a b) ↔ ¬ HasToken text a b ∧ mark ∉ stretch text a b := by
  rw [hasToken_iff hok hcut]
  constructor
  · refine fun hspaces => ⟨?_, fun hmark => absurd (hspaces _ hmark) (by decide)⟩
    rintro ⟨c, hc, hblank⟩
    rw [isBlank_iff.mpr (.inl (hspaces c hc))] at hblank
    cases hblank
  · rintro ⟨hblank, hmark⟩ c hc
    have hc' : Text.isBlank c = true := by
      by_contra h
      exact hblank ⟨c, hc, Bool.not_eq_true _ ▸ h⟩
    exact (isBlank_iff.mp hc').resolve_right fun h => hmark (h ▸ hc)

/-! ### What is left of a clause -/

/-- **What is left of a stretch between two tokens has a token**, or it is made of blanks
with a mark among them. -/
theorem Segment.Trims.hasToken (hok : (tokens text).ending = .ok stop) (hb : b ≤ text.length)
    (hfirst : ∀ t ∈ (tokens text).list, t.stop ≤ a ∨ a ≤ t.span.start)
    (hlast : ∀ t ∈ (tokens text).list, t.stop ≤ b ∨ b ≤ t.span.start) (hs : s.Trims text a b) :
    HasToken text s.start s.stop ∨
      (∀ c ∈ stretch text s.start s.stop, Text.isBlank c = true) ∧
        mark ∈ stretch text s.start s.stop := by
  obtain ⟨hle, hlt, hle'⟩ := hs.inside
  by_cases hblank : ∀ c ∈ stretch text s.start s.stop, Text.isBlank c = true
  · refine .inr ⟨hblank, by_contra fun hmark => ?_⟩
    have hspaces : Spaces (stretch text s.start s.stop) := fun c hc =>
      (isBlank_iff.mp (hblank c hc)).resolve_right fun h => hmark (h ▸ hc)
    have hlen : (stretch text s.start s.stop).length = s.stop - s.start :=
      length_stretch (Nat.le_trans hle' hb)
    rw [← hs.trimmed, Text.trim_spaces hspaces, List.length_nil] at hlen
    omega
  · push Not at hblank
    obtain ⟨c, hc, hother⟩ := hblank
    obtain ⟨i, hstart, hstop, hi⟩ := (mem_stretch_iff (Nat.le_trans hle' hb)).mp hc
    obtain ⟨t, ht, hti, hit⟩ := exists_token hok hi (Bool.not_eq_true _ ▸ hother)
    have hta : a ≤ t.span.start := (hfirst t ht).resolve_left (by omega)
    have htb : t.stop ≤ b := (hlast t ht).resolve_right (by omega)
    refine .inl ⟨t, ht, Nat.not_lt.mp fun hbefore => ?_, Nat.not_lt.mp fun hbehind => ?_⟩
    · -- no token starts with white space
      obtain ⟨e, he, hother⟩ := tokens_first ht
      exact hother (isBlank_iff.mpr (.inl (hs.lead e (mem_stretch hta hbefore he))))
    · -- a token with white space in it ends with a quote
      have hend : t.stop - 1 < text.length := by omega
      have he := List.getElem?_eq_getElem hend
      have hspace := hs.trail _ (mem_stretch (by omega) (by omega) he)
      obtain ⟨-, -, -, hlater⟩ := tokens_space ht (by omega) (by omega) he hspace
      omega

/-- A clause that is only a word for a direction keeps it. -/
theorem segmentOf_word (hlead : Spaces lead) (htrail : Spaces trail)
    (hword : Direction.ofWord? word = some d) :
    segmentOf number start (lead ++ (word ++ trail)) =
      .ok ⟨start + lead.length, start + lead.length + word.length, .ascending⟩ := by
  obtain ⟨hne, hletters, -⟩ := Direction.letters_of_ofWord? hword
  have hother : ∀ c ∈ word, Text.isWhiteSpace c = false := fun c hc =>
    Text.isWhiteSpace_of_not_blank (Text.letter_classes (hletters c hc)).2.2.2.1
  obtain ⟨htrim, hstart⟩ := Text.trim_between hlead htrail hne
    (fun c hc => hother c (List.mem_of_mem_head? hc))
    (fun c hc => hother c (List.mem_of_getLast? hc))
  have hlast : lastWord word = word := by
    rw [lastWord, List.takeWhile_eq_self_iff.mpr fun c hc =>
      (Text.letter_classes (hletters c (List.mem_reverse.mp hc))).1, List.reverse_reverse]
  have hskip : (lead ++ (word ++ trail)).length - (word ++ trail).length = lead.length := by
    rw [List.length_append, Nat.add_sub_cancel]
  unfold segmentOf
  dsimp only
  rw [htrim, hstart, hlast, hskip, hword, List.isEmpty_eq_false_iff.mpr hne, Nat.sub_self]
  rfl

theorem Segment.Answers.hasToken (hok : (tokens text).ending = .ok stop) (hcut : Cut text a b)
    (h : s.Answers text a b) : HasToken text s.start s.stop ∨
      (∀ c ∈ stretch text s.start s.stop, Text.isBlank c = true) ∧
        mark ∈ stretch text s.start s.stop := by
  by_cases hends : ∃ t d, EndsIn text a b t d ∧ Spaces (stretch text t.stop b)
  · obtain ⟨t, d, hends, hspaces⟩ := hends
    have hbound := hcut.bound
    have hlt := start_lt_stop hends.mem
    have hin := hends.inside
    refine (h.directed t d hends hspaces).2.hasToken hok (by omega) hcut.first fun u hu => ?_
    obtain rfl | hu | hu := tokens_apart hends.mem hu <;> omega
  · exact (h.undirected hends).2.hasToken hok hcut.bound hcut.first hcut.last

/-- What an ordering fails for is an empty clause. -/
theorem segmentsFrom_error : ∀ {number : Nat} {clauses : List (Nat × List Char)} {f : Failure},
    segmentsFrom number clauses = .error f → f.cause.code = 2010
  | _, [], _, h => by cases h
  | number, clause :: rest, f, h => by
    rw [segmentsFrom] at h
    rcases hs : segmentOf number clause.1 clause.2 with e | s
    · rw [hs] at h
      cases h
      unfold segmentOf at hs
      dsimp only at hs
      split at hs
      · cases hs
        rfl
      · split at hs <;> [split at hs; skip] <;> cases hs
    · rw [hs] at h
      dsimp only at h
      rcases hss : segmentsFrom (number + 1) rest with e | ss
      · rw [hss] at h
        cases h
        exact segmentsFrom_error hss
      · rw [hss] at h
        cases h

/-- What the segment of a clause has of it: a token, unless it is made of blanks with a
mark among them, and the word for a direction that is all there is between white space. -/
structure Segment.Fills (text : List Char) (clause : Nat × List Char) (s : Segment) : Prop where
  inside : clause.1 ≤ s.start ∧ s.stop ≤ clause.1 + clause.2.length
  token : HasToken text s.start s.stop ∨
    (∀ c ∈ stretch text s.start s.stop, Text.isBlank c = true) ∧
      mark ∈ stretch text s.start s.stop
  word : ∀ lead word trail d, Spaces lead → Spaces trail → Direction.ofWord? word = some d →
    clause.2 = lead ++ (word ++ trail) →
    s = ⟨clause.1 + lead.length, clause.1 + lead.length + word.length, .ascending⟩

theorem segments_fill (hok : (tokens text).ending = .ok stop) {ss : List Segment}
    (hss : segments text = .ok ss) :
    List.Forall₂ (Segment.Fills text) (clauses text) ss := by
  refine ((List.forall₂_and_left _ _).mpr ⟨(clauses_cut hok).1, segmentsFrom_forall hss⟩).imp ?_
  rintro ⟨a, cs⟩ s ⟨⟨htext, hcut⟩, number, hs⟩
  dsimp only at htext hcut hs
  have hsegment := hs
  rw [htext] at hsegment
  obtain ⟨hdirected, hundirected⟩ := segmentOf_tokens hok hcut hsegment
  have hanswers : s.Answers text a (a + cs.length) := ⟨hdirected, hundirected⟩
  refine ⟨hanswers.inside, hanswers.hasToken hok hcut, ?_⟩
  rintro lead word trail d hlead htrail hword rfl
  rw [segmentOf_word hlead htrail hword] at hs
  exact (Except.ok.inj hs).symm

/-- **An ordering fails just if a clause of it is empty.** Its clauses are what stands
between the commas in no brackets. As far as the text has no fault, the ordering fails, as
one with an empty clause, if there is a clause with neither a token nor a byte order mark;
and if it does not fail, each of its segments has a token of its clause, but for those that
are made of blanks with such a mark. A clause that is only a word for a direction, between
white space, keeps the word. -/
theorem segments_nonempty (hok : (tokens text).ending = .ok stop) :
    clauses text = cuts 0 text (topCommas 0 (tokens text).list) ∧
    (∀ f, segments text = .error f → f.cause.code = 2010) ∧
    ((∃ f, segments text = .error f) ↔ ∃ clause ∈ clauses text,
      ¬ HasToken text clause.1 (clause.1 + clause.2.length) ∧ mark ∉ clause.2) ∧
    ∀ ss, segments text = .ok ss → List.Forall₂ (Segment.Fills text) (clauses text) ss := by
  refine ⟨clauses_eq_cuts hok, fun f hf => segmentsFrom_error hf, ?_,
    fun ss hss => segments_fill hok hss⟩
  have hempty : ∀ clause ∈ clauses text, Spaces clause.2 ↔
      ¬ HasToken text clause.1 (clause.1 + clause.2.length) ∧ mark ∉ clause.2 := by
    intro clause hclause
    obtain ⟨htext, hcut⟩ := (clauses_cut hok).1 clause hclause
    have hspaces := spaces_iff hok hcut
    rwa [← htext] at hspaces
  have hsegments : (∃ ss, segments text = .ok ss) ↔ ∀ clause ∈ clauses text, ¬ Spaces clause.2 :=
    exists_segmentsFrom 1 _
  constructor
  · rintro ⟨f, hf⟩
    have hnone : ¬ ∃ ss, segments text = .ok ss := by
      rintro ⟨ss, hss⟩
      rw [hf] at hss
      cases hss
    rw [hsegments] at hnone
    push Not at hnone
    obtain ⟨clause, hclause, hspaces⟩ := hnone
    exact ⟨clause, hclause, (hempty clause hclause).mp hspaces⟩
  · rintro ⟨clause, hclause, hnone⟩
    rcases hss : segments text with f | ss
    · exact ⟨f, rfl⟩
    · exact absurd ((hempty clause hclause).mpr hnone) (hsegments.mp ⟨ss, hss⟩ clause hclause)

/-- A word for a direction is kept if it is alone, and an ordering with nothing behind its
comma fails. -/
theorem segments_nonempty_desc :
    (tokens "a desc, Desc ".toList).ending = .ok 13 ∧
    List.Forall₂ (Segment.Fills "a desc, Desc ".toList) (clauses "a desc, Desc ".toList)
      [⟨0, 1, .descending⟩, ⟨8, 12, .ascending⟩] ∧
    (tokens "a desc, ".toList).ending = .ok 8 ∧
    ∃ clause ∈ clauses "a desc, ".toList,
      ¬ HasToken "a desc, ".toList clause.1 (clause.1 + clause.2.length) ∧ mark ∉ clause.2 := by
  have hok : (tokens "a desc, Desc ".toList).ending = .ok 13 := by decide +kernel
  have hss : segments "a desc, Desc ".toList =
      .ok [⟨0, 1, .descending⟩, ⟨8, 12, .ascending⟩] := by decide +kernel
  have hok' : (tokens "a desc, ".toList).ending = .ok 8 := by decide +kernel
  have hf : segments "a desc, ".toList = .error ⟨.emptyClause 2, .empty 8⟩ := by decide +kernel
  exact ⟨hok, (segments_nonempty hok).2.2.2 _ hss, hok',
    (segments_nonempty hok').2.2.1.mp ⟨_, hf⟩⟩

/-- A byte order mark alone has no token, and the ordering does not fail; in front of a
direction it is all that the segment has. -/
theorem not_segments_nonempty_of_mark :
    (tokens "\ufeff".toList).ending = .ok 1 ∧ (tokens "\ufeff".toList).list = [] ∧
    clauses "\ufeff".toList = [(0, "\ufeff".toList)] ∧
    segments "\ufeff".toList = .ok [⟨0, 1, .ascending⟩] ∧
    ¬ HasToken "\ufeff".toList 0 1 ∧
    segments "\ufeff desc".toList = .ok [⟨0, 1, .descending⟩] ∧
    ¬ HasToken "\ufeff desc".toList 0 1 := by
  have hnone : (tokens "\ufeff".toList).list = [] := by decide +kernel
  have hword : (tokens "\ufeff desc".toList).list =
      [⟨.identifier, ⟨2, 4⟩, "desc", "desc"⟩] := by decide +kernel
  refine ⟨by decide +kernel, hnone, by decide +kernel, by decide +kernel, ?_,
    by decide +kernel, ?_⟩
  · rintro ⟨t, ht, -⟩
    rw [hnone] at ht
    cases ht
  · rintro ⟨t, ht, -, hstop⟩
    rw [hword, List.mem_singleton] at ht
    subst ht
    exact absurd hstop (by decide)

end Ordering
end QueryExpr
