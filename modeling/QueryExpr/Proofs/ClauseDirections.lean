/-
# Directions are the last words of clauses

Where a clause of an ordering ends in a direction is told by its tokens, as far
as the text has no fault: the last one is a word for a direction, right behind
white space, and there is something else in front of that.

White space here is what the clauses know as such. Tokens may also have a byte
order mark between them; the last token of a clause is no direction if there is
such a mark behind it.

Key definitions: `Ordering.Cut`, `Ordering.EndsIn`, `Ordering.Segment.Trims`.
Key theorems: `Ordering.clauses_cut`, `Ordering.endsIn_of_directed`,
`Ordering.directed_of_endsIn`, `Ordering.segments_tokens`.
-/
import Mathlib.Data.List.Forall2
import QueryExpr.Proofs.ClauseBoundaries
import QueryExpr.Proofs.PlacedTokens

namespace QueryExpr
namespace Ordering

open Text (Spaces trim)

variable {text cs front word behind : List Char} {a b stop : Nat} {t : Token} {d : Direction}
  {s : Segment}

/-! ### Clauses begin and end between tokens -/

/-- A stretch of a text into which and out of which no token reaches, and behind
which no name goes on. -/
structure Cut (text : List Char) (a b : Nat) : Prop where
  le : a ≤ b
  bound : b ≤ text.length
  first : ∀ t ∈ (tokens text).list, t.stop ≤ a ∨ a ≤ t.span.start
  last : ∀ t ∈ (tokens text).list, t.stop ≤ b ∨ b ≤ t.span.start
  ended : ∀ c ∈ text[b]?, Text.isNamePart c = false

theorem topCommas_mem {p : Nat} : ∀ {depth : Nat} {ts : List Token}, p ∈ topCommas depth ts →
    ∃ t ∈ ts, t.kind = .comma ∧ t.span.start = p
  | _, [], h => by cases h
  | depth, t :: ts, h => by
    have later {depth : Nat} (h : p ∈ topCommas depth ts) :
        ∃ u ∈ t :: ts, u.kind = .comma ∧ u.span.start = p := by
      obtain ⟨u, hu, hkind, hstart⟩ := topCommas_mem h
      exact ⟨u, List.mem_cons_of_mem _ hu, hkind, hstart⟩
    rw [topCommas] at h
    split at h
    · rename_i hcomma
      rcases List.mem_cons.mp h with rfl | h
      · exact ⟨t, List.mem_cons_self, hcomma.1, rfl⟩
      · exact later h
    · exact later h

theorem topCommas_sublist : ∀ (depth : Nat) (ts : List Token),
    (topCommas depth ts).Sublist (ts.map (·.span.start))
  | _, [] => .slnil
  | depth, t :: ts => by
    rw [topCommas]
    split
    · exact (topCommas_sublist 0 ts).cons_cons _
    · exact (topCommas_sublist _ ts).cons _

theorem topCommas_ascending (text : List Char) :
    (topCommas 0 (tokens text).list).Pairwise (· < ·) := by
  have htiling := tokens_tiling text
  refine List.Pairwise.sublist (topCommas_sublist 0 _) (List.pairwise_map.mpr ?_)
  refine htiling.apart.imp_of_mem fun {t u} ht _ hle => ?_
  have hpos := htiling.nonempty t ht
  have hstop : t.stop = t.span.start + t.span.length := rfl
  omega

/-- No token reaches into or out of a comma, and no name goes on with one. -/
theorem comma_cut (ht : t ∈ (tokens text).list) (hk : t.kind = .comma) :
    t.span.start < text.length ∧ (∀ c ∈ text[t.span.start]?, Text.isNamePart c = false) ∧
    ∀ u ∈ (tokens text).list, (u.stop ≤ t.span.start ∨ t.span.start ≤ u.span.start) ∧
      (u.stop ≤ t.span.start + 1 ∨ t.span.start + 1 ≤ u.span.start) := by
  obtain ⟨c, rest, l, hdrop, -, hl, hofLexeme⟩ := tokens_mem ht
  have hkind : l.kind = .comma := by
    rw [hofLexeme] at hk
    exact hk
  obtain ⟨rfl, hlen, -⟩ := clausesFrom_comma 0 [] hl hkind
  have hstop : t.stop = t.span.start + 1 := by
    rw [hofLexeme, ← hlen]
    rfl
  have hchar : text[t.span.start]? = some ',' := by
    rw [← List.head?_drop, hdrop]
    rfl
  refine ⟨(List.getElem?_eq_some_iff.mp hchar).1, fun c hc => ?_, fun u hu => ?_⟩
  · rw [hchar] at hc
    cases hc
    decide
  · rcases tokens_apart ht hu with rfl | h | h <;> omega

/-- The pieces of the rest of a text, which is cut at ascending positions. -/
theorem cuts_bounds : ∀ {ps : List Nat} {start : Nat}, start ≤ text.length →
    ps.Pairwise (· < ·) → (∀ p ∈ ps, start ≤ p ∧ p < text.length) →
    (∀ piece ∈ cuts start (text.drop start) ps, ∃ b, piece.2 = stretch text piece.1 b ∧
      piece.1 ≤ b ∧ b ≤ text.length ∧ start ≤ piece.1 ∧
      (piece.1 = start ∨ ∃ p ∈ ps, piece.1 = p + 1) ∧ (b = text.length ∨ b ∈ ps)) ∧
    (cuts start (text.drop start) ps).Pairwise fun x y => x.1 + x.2.length < y.1
  | [], start, hstart, _, _ => by
    refine ⟨fun piece hpiece => ?_, List.pairwise_singleton _ _⟩
    rw [cuts, List.mem_singleton] at hpiece
    subst hpiece
    refine ⟨text.length, ?_, hstart, Nat.le_refl _, Nat.le_refl _, .inl rfl, .inl rfl⟩
    rw [stretch, List.take_length]
  | p :: ps, start, hstart, hsorted, hin => by
    obtain ⟨hp, hps⟩ := List.pairwise_cons.mp hsorted
    obtain ⟨⟨hle, hlt⟩, hin⟩ := List.forall_mem_cons.mp hin
    have hrest : (text.drop start).drop (p + 1 - start) = text.drop (p + 1) := by
      rw [List.drop_drop, Nat.add_sub_cancel' (by omega)]
    have hfirst : (text.drop start).take (p - start) = stretch text start p := by
      rw [stretch, List.drop_take]
    have hbehind : ∀ q ∈ ps, p + 1 ≤ q ∧ q < text.length := fun q hq =>
      ⟨hp q hq, (hin q hq).2⟩
    obtain ⟨hpieces, hapart⟩ := cuts_bounds hlt hps hbehind
    rw [cuts, hrest, hfirst]
    refine ⟨List.forall_mem_cons.mpr ⟨?_, fun piece hpiece => ?_⟩,
      List.pairwise_cons.mpr ⟨fun piece hpiece => ?_, hapart⟩⟩
    · exact ⟨p, rfl, hle, Nat.le_of_lt hlt, Nat.le_refl _, .inl rfl, .inr List.mem_cons_self⟩
    · obtain ⟨b, htext, hpb, hb, hge, hpstart, hpend⟩ := hpieces piece hpiece
      refine ⟨b, htext, hpb, hb, by omega, .inr ?_, hpend.imp id (List.mem_cons_of_mem _)⟩
      rcases hpstart with h | ⟨q, hq, h⟩
      · exact ⟨p, List.mem_cons_self, h⟩
      · exact ⟨q, List.mem_cons_of_mem _ hq, h⟩
    · obtain ⟨b, -, -, -, hge, -, -⟩ := hpieces piece hpiece
      show start + (stretch text start p).length < piece.1
      rw [length_stretch (Nat.le_of_lt hlt)]
      omega

/-- **The clauses of a text without a fault are cut off between its tokens**, and
are one behind the other. -/
theorem clauses_cut (hok : (tokens text).ending = .ok stop) :
    (∀ clause ∈ clauses text,
      clause.2 = stretch text clause.1 (clause.1 + clause.2.length) ∧
      Cut text clause.1 (clause.1 + clause.2.length)) ∧
    (clauses text).Pairwise fun x y => x.1 + x.2.length < y.1 := by
  have hcommas : ∀ p ∈ topCommas 0 (tokens text).list, ∃ t ∈ (tokens text).list,
      t.kind = .comma ∧ t.span.start = p := fun p hp => topCommas_mem hp
  have hin : ∀ p ∈ topCommas 0 (tokens text).list, 0 ≤ p ∧ p < text.length := by
    intro p hp
    obtain ⟨t, ht, hkind, rfl⟩ := hcommas p hp
    exact ⟨Nat.zero_le _, (comma_cut ht hkind).1⟩
  obtain ⟨hpieces, hapart⟩ := cuts_bounds (Nat.zero_le _) (topCommas_ascending text) hin
  rw [List.drop_zero, ← clauses_eq_cuts hok] at hpieces hapart
  refine ⟨fun clause hclause => ?_, hapart⟩
  obtain ⟨b, htext, hle, hbound, -, hstart, hend⟩ := hpieces clause hclause
  have hb : clause.1 + clause.2.length = b := by
    rw [htext, length_stretch hbound]
    omega
  rw [hb]
  refine ⟨htext, hle, hbound, fun t ht => ?_, fun t ht => ?_, fun c hc => ?_⟩
  · rcases hstart with h0 | ⟨p, hp, h⟩
    · exact .inr (h0 ▸ Nat.zero_le _)
    · obtain ⟨u, hu, hkind, rfl⟩ := hcommas p hp
      rw [h]
      exact ((comma_cut hu hkind).2.2 t ht).2
  · rcases hend with rfl | hp
    · exact .inl ((tokens_tiling text).inside t ht).2
    · obtain ⟨u, hu, hkind, rfl⟩ := hcommas b hp
      exact ((comma_cut hu hkind).2.2 t ht).1
  · rcases hend with rfl | hp
    · rw [List.getElem?_eq_none (Nat.le_refl _)] at hc
      cases hc
    · obtain ⟨u, hu, hkind, rfl⟩ := hcommas b hp
      exact (comma_cut hu hkind).2.1 c hc

/-! ### Directions in tokens -/

/-- The last token of the stretch from `first` up to `last` is a word for a
direction, right behind white space, and in front of that is something else. -/
structure EndsIn (text : List Char) (first last : Nat) (t : Token) (d : Direction) : Prop where
  mem : t ∈ (tokens text).list
  inside : first ≤ t.span.start ∧ t.stop ≤ last
  final : ∀ u ∈ (tokens text).list, u.stop ≤ last → u.stop ≤ t.stop
  identifier : t.kind = .identifier
  word : Direction.ofWord? t.written.toList = some d
  apart : endsWithSpace (stretch text first t.span.start) = true
  other : ¬ Spaces (stretch text first t.span.start)

/-- The segment is what is left of the stretch from `first` up to `last` without
the white space at both ends. -/
structure Segment.Trims (text : List Char) (first last : Nat) (s : Segment) : Prop where
  inside : first ≤ s.start ∧ s.start < s.stop ∧ s.stop ≤ last
  lead : Spaces (stretch text first s.start)
  trail : Spaces (stretch text s.stop last)
  trimmed : trim (stretch text s.start s.stop) = stretch text s.start s.stop

theorem trims_trimmed (hle : a ≤ b) (hb : b ≤ text.length)
    (hne : trim (stretch text a b) ≠ []) (d : Direction) :
    (trimmed a (stretch text a b) d).Trims text a b := by
  obtain ⟨lead, trail, hlead, htrail, hsplit, hstart, hfirst, hlast⟩ :=
    Text.trim_split (stretch text a b)
  have hlen := congrArg List.length hsplit
  rw [length_stretch hb] at hlen
  have hskip : (stretch text a b).length - (Text.trimStart (stretch text a b)).length =
      lead.length := by
    rw [length_stretch hb, hstart]
    simp only [List.length_append] at hlen ⊢
    omega
  have hpos : 0 < (trim (stretch text a b)).length := List.length_pos_of_ne_nil hne
  obtain ⟨hleft, hmiddle⟩ := stretch_split hsplit
  obtain ⟨hbody, hright⟩ := stretch_split hmiddle
  have hidem : trim (trim (stretch text a b)) = trim (stretch text a b) := by
    have hnil : Spaces [] := fun _ h => by cases h
    have h := (Text.trim_between hnil hnil hne hfirst hlast).1
    rwa [List.nil_append, List.append_nil] at h
  simp only [List.length_append] at hlen
  unfold trimmed
  rw [hskip]
  refine ⟨⟨Nat.le_add_right _ _, by dsimp only; omega, by dsimp only; omega⟩, ?_, ?_, ?_⟩
  · rwa [hleft]
  · rwa [hright]
  · rw [hbody, hidem]

/-- **A direction of a clause is its last token.** -/
theorem endsIn_of_directed (hok : (tokens text).ending = .ok stop) (hcut : Cut text a b)
    (h : Directed (stretch text a b) front word behind d) :
    ∃ t, EndsIn text a b t d ∧ Spaces (stretch text t.stop b) := by
  have hle := hcut.le
  have hbound := hcut.bound
  obtain ⟨hne, hletters, hkeyword⟩ := Direction.letters_of_ofWord? h.direction
  have hwordpos : 0 < word.length := List.length_pos_of_ne_nil hne
  have hlen := congrArg List.length h.split
  rw [length_stretch hcut.bound, List.length_append, List.length_append] at hlen
  obtain ⟨hfront, hrest⟩ := stretch_split h.split
  obtain ⟨hword, hbehind⟩ := stretch_split hrest
  -- the word starts with a letter, so there is a token
  obtain ⟨t, ht, hstart, hstop⟩ : ∃ t ∈ (tokens text).list,
      t.span.start ≤ a + front.length ∧ a + front.length < t.stop := by
    obtain ⟨c, cs, rfl⟩ := List.exists_cons_of_ne_nil hne
    have hc : text[a + front.length]? = some c := by
      rw [← Nat.add_zero (a + front.length), ← getElem?_stretch (b := b) (by omega), hrest]
      rfl
    exact exists_token hok hc (Text.letter_classes (hletters c List.mem_cons_self)).2.2.2.1
  have hfirst : a ≤ t.span.start := (hcut.first t ht).resolve_left (by omega)
  have hlast : t.stop ≤ b := (hcut.last t ht).resolve_right (by omega)
  -- it starts with the word, as no literal ends behind the white space
  have hat : t.span.start = a + front.length := by
    refine Nat.le_antisymm hstart (Nat.not_lt.mp fun hlt => ?_)
    obtain ⟨c, hc, hspace⟩ : ∃ c, front.getLast? = some c ∧ Text.isWhiteSpace c = true := by
      have hapart := h.apart
      unfold endsWithSpace at hapart
      cases hc : front.getLast? with
      | none =>
        rw [hc] at hapart
        cases hapart
      | some c =>
        rw [hc] at hapart
        exact ⟨c, rfl, hapart⟩
    have hplace : text[a + front.length - 1]? = some c := by
      rw [List.getLast?_eq_getElem?, ← hfront, length_stretch (by omega),
        getElem?_stretch (by omega)] at hc
      rw [← hc]
      congr 1
      omega
    obtain ⟨quote, hquote, hend, hin⟩ := tokens_space ht (by omega) (by omega) hplace hspace
    have hmem : quote ∈ word ++ behind := by
      rw [← hrest]
      exact mem_stretch (by omega) (by omega) hend
    rcases List.mem_append.mp hmem with hmem | hmem
    · have hletter := hletters quote hmem
      rcases hquote with rfl | rfl <;> cases hletter
    · have hspace := h.behind quote hmem
      rcases hquote with rfl | rfl <;> exact absurd hspace (by decide)
  have hnext : ∀ c ∈ (behind ++ text.drop b).head?, Text.isNamePart c = false := by
    intro c hc
    cases hb : behind with
    | nil =>
      rw [hb, List.nil_append, List.head?_drop] at hc
      exact hcut.ended c hc
    | cons e es =>
      rw [hb] at hc
      cases hc
      exact (Text.space_classes (h.behind _ (hb ▸ List.mem_cons_self))).2.1
  have hdrop : text.drop t.span.start = word ++ (behind ++ text.drop b) := by
    rw [hat, drop_eq_stretch (b := b) (by omega) hcut.bound, hrest, List.append_assoc]
  obtain ⟨hkind, hwritten, hend⟩ := tokens_word ht hdrop hne hletters hkeyword hnext
  have hspaces : Spaces (stretch text t.stop b) := by
    rw [hend, hat, hbehind]
    exact h.behind
  refine ⟨t, ⟨ht, ⟨hfirst, hlast⟩, fun u hu hub => ?_, hkind, ?_, ?_, ?_⟩, hspaces⟩
  · -- a token behind would start with white space
    refine Nat.not_lt.mp fun hlt => ?_
    have hpos := (tokens_tiling text).nonempty u hu
    have hustop : u.stop = u.span.start + u.span.length := rfl
    have htstop : t.stop = t.span.start + t.span.length := rfl
    rcases tokens_apart ht hu with rfl | hu' | hu'
    · omega
    · obtain ⟨c, hc, hblank⟩ := tokens_first hu
      have hspace := hspaces c (mem_stretch hu' (by omega) hc)
      exact hblank (Bool.or_eq_true_iff.mpr (.inl hspace))
    · omega
  · rw [hwritten, String.toList_ofList]
    exact h.direction
  · rw [hat, hfront]
    exact h.apart
  · rw [hat, hfront]
    exact h.some

/-- The last token of a clause is a direction, if there is nothing but white space
behind it. -/
theorem directed_of_endsIn (h : EndsIn text a b t d) (hbehind : Spaces (stretch text t.stop b)) :
    Directed (stretch text a b) (stretch text a t.span.start) t.written.toList
      (stretch text t.stop b) d where
  split := by
    have hstop : t.span.start ≤ t.stop := Nat.le_add_right _ _
    rw [(tokens_tiling text).written t h.mem, String.toList_ofList,
      ← stretch_append hstop h.inside.2, ← stretch_append h.inside.1
        (Nat.le_trans hstop h.inside.2)]
  direction := h.word
  apart := h.apart
  some := h.other
  behind := hbehind

/-! ### Segments in tokens -/

/-- What the segment of a clause is. -/
theorem segmentOf_tokens {number : Nat} (hok : (tokens text).ending = .ok stop)
    (hcut : Cut text a b) (hs : segmentOf number a (stretch text a b) = .ok s) :
    (∀ t d, EndsIn text a b t d → Spaces (stretch text t.stop b) →
      s.direction = d ∧ s.Trims text a t.span.start) ∧
    ((¬ ∃ t d, EndsIn text a b t d ∧ Spaces (stretch text t.stop b)) →
      s.direction = .ascending ∧ s.Trims text a b) := by
  refine ⟨fun t d hends hspaces => ?_, fun hnone => ?_⟩
  · rw [segmentOf_directed (directed_of_endsIn hends hspaces)] at hs
    have hbound := hcut.bound
    have hstop : t.span.start ≤ t.stop := Nat.le_add_right _ _
    have hin := hends.inside
    rw [← Except.ok.inj hs]
    exact ⟨rfl, trims_trimmed hin.1 (by omega) (trim_ne_nil hends.other) d⟩
  · have hundirected : ¬ ∃ front word behind d, Directed (stretch text a b) front word behind d := by
      rintro ⟨front, word, behind, d, h⟩
      obtain ⟨t, ht⟩ := endsIn_of_directed hok hcut h
      exact hnone ⟨t, d, ht⟩
    obtain ⟨hne, rfl⟩ := segmentOf_undirected hundirected hs
    exact ⟨rfl, trims_trimmed hcut.le hcut.bound hne _⟩

theorem segmentsFrom_forall : ∀ {number : Nat} {clauses : List (Nat × List Char)}
    {ss : List Segment}, segmentsFrom number clauses = .ok ss →
    List.Forall₂ (fun clause s => ∃ number, segmentOf number clause.1 clause.2 = .ok s) clauses ss
  | _, [], _, h => by
    cases h
    exact .nil
  | number, clause :: rest, ss, h => by
    rw [segmentsFrom] at h
    cases hs : segmentOf number clause.1 clause.2 with
    | error failure =>
      rw [hs] at h
      cases h
    | ok s =>
      rw [hs] at h
      cases hss : segmentsFrom (number + 1) rest with
      | error failure =>
        rw [hss] at h
        cases h
      | ok ss =>
        rw [hss] at h
        cases h
        exact .cons ⟨number, hs⟩ (segmentsFrom_forall hss)

/-- There is a segment for every clause that is not empty. -/
theorem exists_segmentOf (number start : Nat) (cs : List Char) :
    (∃ s, segmentOf number start cs = .ok s) ↔ ¬ Spaces cs := by
  constructor
  · rintro ⟨s, hs⟩ hspaces
    unfold segmentOf at hs
    dsimp only at hs
    rw [Text.trim_spaces hspaces] at hs
    cases hs
  · intro hother
    unfold segmentOf
    dsimp only
    rw [List.isEmpty_eq_false_iff.mpr (trim_ne_nil hother)]
    split
    · rename_i hempty
      cases hempty
    · split
      · split <;> exact ⟨_, rfl⟩
      · exact ⟨_, rfl⟩

theorem exists_segmentsFrom : ∀ (number : Nat) (clauses : List (Nat × List Char)),
    (∃ ss, segmentsFrom number clauses = .ok ss) ↔ ∀ clause ∈ clauses, ¬ Spaces clause.2
  | number, [] => ⟨fun _ => List.forall_mem_nil _, fun _ => ⟨[], rfl⟩⟩
  | number, clause :: rest => by
    have hhead := exists_segmentOf number clause.1 clause.2
    have htail := exists_segmentsFrom (number + 1) rest
    rw [List.forall_mem_cons, ← hhead, ← htail, segmentsFrom]
    constructor
    · rintro ⟨ss, hss⟩
      cases hs : segmentOf number clause.1 clause.2 with
      | error failure =>
        rw [hs] at hss
        cases hss
      | ok s =>
        rw [hs] at hss
        cases hrest : segmentsFrom (number + 1) rest with
        | error failure =>
          rw [hrest] at hss
          cases hss
        | ok ss => exact ⟨⟨s, rfl⟩, ss, rfl⟩
    · rintro ⟨⟨s, hs⟩, ss, hss⟩
      exact ⟨s :: ss, by rw [hs, hss]⟩

/-- What the segment of the clause from `first` up to `last` has to be. A
direction counts if there is nothing but white space behind it. -/
structure Segment.Answers (text : List Char) (first last : Nat) (s : Segment) : Prop where
  directed : ∀ t d, EndsIn text first last t d → Spaces (stretch text t.stop last) →
    s.direction = d ∧ s.Trims text first t.span.start
  undirected : (¬ ∃ t d, EndsIn text first last t d ∧ Spaces (stretch text t.stop last)) →
    s.direction = .ascending ∧ s.Trims text first last

theorem Segment.Answers.inside (h : s.Answers text a b) : a ≤ s.start ∧ s.stop ≤ b := by
  by_cases hends : ∃ t d, EndsIn text a b t d ∧ Spaces (stretch text t.stop b)
  · obtain ⟨t, d, hends, hspaces⟩ := hends
    obtain ⟨hstart, -, hstop⟩ := (h.directed t d hends hspaces).2.inside
    have hin := hends.inside
    have hle : t.span.start ≤ t.stop := Nat.le_add_right _ _
    omega
  · obtain ⟨hstart, -, hstop⟩ := (h.undirected hends).2.inside
    exact ⟨hstart, hstop⟩

/-- **The clauses of an ordering agree with its tokens.** A text without a fault is
cut at the commas among its tokens that stand in no brackets. There are segments if
no clause is empty, one for each clause, one behind the other. Each is what is left
of its clause without the white space at both ends. If the last token of a clause is
a word for a direction, right behind white space with something else in front, and
there is nothing but white space behind it, then the segment ends before that white
space and has the direction of the word; and if not, it is ascending. -/
theorem segments_tokens (hok : (tokens text).ending = .ok stop) :
    clauses text = cuts 0 text (topCommas 0 (tokens text).list) ∧
    ((∃ ss, segments text = .ok ss) ↔ ∀ clause ∈ clauses text, ¬ Spaces clause.2) ∧
    ∀ ss, segments text = .ok ss → (ss.Pairwise fun s u => s.stop < u.start) ∧
      List.Forall₂ (fun clause s => s.Answers text clause.1 (clause.1 + clause.2.length))
        (clauses text) ss := by
  obtain ⟨hcut, hapart⟩ := clauses_cut hok
  refine ⟨clauses_eq_cuts hok, exists_segmentsFrom 1 _, fun ss hss => ?_⟩
  have hanswers : List.Forall₂
      (fun clause s => s.Answers text clause.1 (clause.1 + clause.2.length))
      (clauses text) ss := by
    refine ((List.forall₂_and_left _ _).mpr ⟨hcut, segmentsFrom_forall hss⟩).imp ?_
    rintro clause s ⟨⟨htext, hclause⟩, number, hs⟩
    rw [htext] at hs
    obtain ⟨hdirected, hundirected⟩ := segmentOf_tokens hok hclause hs
    exact ⟨hdirected, hundirected⟩
  refine ⟨List.pairwise_iff_getElem.mpr fun i j hi hj hij => ?_, hanswers⟩
  have hlen := hanswers.length_eq
  have hbehind := List.pairwise_iff_getElem.mp hapart i j (by omega) (by omega) hij
  have hfirst := (hanswers.get (i := i) (by omega) hi).inside
  have hsecond := (hanswers.get (i := j) (by omega) hj).inside
  simp only [List.get_eq_getElem] at hfirst hsecond
  omega

set_option maxRecDepth 2000 in
/-- A comma in brackets and one in a literal cut nothing, and one of the two
directions is in a literal. -/
theorem segments_tokens_nested :
    (tokens "iif(A, 1, 2) DESC , 'x, y desc'".toList).ending = .ok 31 ∧
    segments "iif(A, 1, 2) DESC , 'x, y desc'".toList =
      .ok [⟨0, 12, .descending⟩, ⟨20, 31, .ascending⟩] ∧
    List.Forall₂ (fun clause (s : Segment) => s.Answers "iif(A, 1, 2) DESC , 'x, y desc'".toList clause.1
        (clause.1 + clause.2.length))
      (clauses "iif(A, 1, 2) DESC , 'x, y desc'".toList)
      [⟨0, 12, .descending⟩, ⟨20, 31, .ascending⟩] := by
  have hok : (tokens "iif(A, 1, 2) DESC , 'x, y desc'".toList).ending = .ok 31 := by
    decide +kernel
  have hss : segments "iif(A, 1, 2) DESC , 'x, y desc'".toList =
      .ok [⟨0, 12, .descending⟩, ⟨20, 31, .ascending⟩] := by decide +kernel
  exact ⟨hok, hss, ((segments_tokens hok).2.2 _ hss).2⟩

set_option maxRecDepth 2000 in
/-- Behind a byte order mark, which may stand between tokens, the last token of a
clause is no direction, although it is a word for one right behind white space. -/
theorem not_segments_tokens_of_mark : ¬ ∀ (text : List Char) (stop : Nat) (ss : List Segment),
    (tokens text).ending = .ok stop → segments text = .ok ss →
    List.Forall₂ (fun clause (s : Segment) => ∀ t d,
      EndsIn text clause.1 (clause.1 + clause.2.length) t d → s.direction = d)
      (clauses text) ss := by
  intro h
  have hok : (tokens "A desc\ufeff".toList).ending = .ok 7 := by decide +kernel
  have hss : segments "A desc\ufeff".toList = .ok [⟨0, 7, .ascending⟩] := by decide +kernel
  have hclauses : clauses "A desc\ufeff".toList = [(0, "A desc\ufeff".toList)] := by
    decide +kernel
  have hends : EndsIn "A desc\ufeff".toList 0 7 ⟨.identifier, ⟨2, 4⟩, "desc", "desc"⟩
      .descending := by
    refine ⟨by decide +kernel, by decide, by decide +kernel, rfl, by decide +kernel,
      by decide +kernel, fun hspaces => ?_⟩
    have hA := hspaces 'A' (by decide +kernel)
    exact absurd hA (by decide +kernel)
  have hall := h _ _ _ hok hss
  rw [hclauses, List.forall₂_cons] at hall
  cases hall.1 _ _ hends

end Ordering
end QueryExpr
