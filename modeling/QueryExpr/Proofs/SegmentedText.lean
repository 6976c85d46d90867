/-
# Where the clauses of an ordering are

The clauses of a text lie inside of it, and so do the segments that keys are
read from, and the places of clauses that are empty.

Key definitions: `Ordering.Inside`.
Key theorems: `Ordering.clausesFrom_inside`, `Ordering.segmentOf_inside`,
`Ordering.segments_inside`.
-/
import Mathlib.Data.List.TakeWhile
import QueryExpr.Ordering.Split

namespace QueryExpr

namespace Text

theorem length_trimStart_le (cs : List Char) : (trimStart cs).length ≤ cs.length :=
  List.length_dropWhile_le _ _

theorem length_trimEnd_le (cs : List Char) : (trimEnd cs).length ≤ cs.length := by
  have h := length_trimStart_le cs.reverse
  rw [List.length_reverse] at h
  rwa [trimEnd, List.length_reverse]

end Text

namespace Ordering

variable {text : List Char}

/-- A clause ends where the characters read so far do, or further on. -/
theorem clausesFrom_inside : ∀ (start : Nat) (taken : List Char) (depth : Nat) (quote : Option Char)
    (cs : List Char), ∀ clause ∈ clausesFrom start taken depth quote cs,
      clause.1 + clause.2.length ≤ start + taken.length + cs.length
  | start, taken, depth, quote, [], clause, h => by
    rw [List.mem_singleton.mp h, List.length_reverse]
    exact Nat.le_refl _
  | start, taken, depth, quote, c :: cs, clause, h => by
    have hstep (depth : Nat) (quote : Option Char)
        (h : clause ∈ clausesFrom start (c :: taken) depth quote cs) :
        clause.1 + clause.2.length ≤ start + taken.length + (c :: cs).length := by
      have hle := clausesFrom_inside start (c :: taken) depth quote cs clause h
      simp only [List.length_cons] at hle ⊢
      omega
    unfold clausesFrom at h
    split at h
    · exact hstep _ _ h
    · split at h
      · exact hstep _ _ h
      · split at h
        · exact hstep _ _ h
        · split at h
          · exact hstep _ _ h
          · split at h
            · rcases List.mem_cons.mp h with rfl | h
              · rw [List.length_reverse]
                exact Nat.le_add_right _ _
              · have hle := clausesFrom_inside _ _ _ _ cs clause h
                simp only [List.length_cons, List.length_nil] at hle ⊢
                omega
            · exact hstep _ _ h

theorem clauses_inside : ∀ clause ∈ clauses text, clause.1 + clause.2.length ≤ text.length := by
  intro clause h
  have hle := clausesFrom_inside 0 [] 0 none text clause h
  rwa [List.length_nil, Nat.zero_add] at hle

/-- Segments in order in front of a position, or a failure in front of it. -/
def Inside (n : Nat) : Except Failure (List Segment) → Prop
  | .ok ss => ∀ s ∈ ss, s.start ≤ s.stop ∧ s.stop ≤ n
  | .error failure => failure.span.stop ≤ n

theorem segmentOf_inside (number start : Nat) (cs : List Char) :
    Inside (start + cs.length) ((segmentOf number start cs).map ([·])) := by
  have hstart := Text.length_trimStart_le cs
  have hbody : (Text.trim cs).length ≤ (Text.trimStart cs).length := Text.length_trimEnd_le _
  have hbefore := Text.length_trimEnd_le
    ((Text.trim cs).take ((Text.trim cs).length - (lastWord (Text.trim cs)).length))
  rw [List.length_take] at hbefore
  have hsegment {stop : Nat} (direction : Direction) (h : stop ≤ (Text.trim cs).length) :
      Inside (start + cs.length)
        (.ok [⟨start + (cs.length - (Text.trimStart cs).length),
          start + (cs.length - (Text.trimStart cs).length) + stop, direction⟩]) := by
    refine List.forall_mem_singleton.mpr ⟨Nat.le_add_right _ _, ?_⟩
    dsimp only
    omega
  unfold segmentOf
  dsimp only
  split
  · show start + (cs.length - (Text.trimStart cs).length) ≤ _
    omega
  · split
    · split
      · exact hsegment _ (by omega)
      · exact hsegment _ (Nat.le_refl _)
    · exact hsegment _ (Nat.le_refl _)

theorem segmentsFrom_inside {n : Nat} : ∀ (number : Nat) (clauses : List (Nat × List Char)),
    (∀ clause ∈ clauses, clause.1 + clause.2.length ≤ n) → Inside n (segmentsFrom number clauses)
  | _, [], _ => List.forall_mem_nil _
  | number, clause :: rest, h => by
    obtain ⟨hclause, hrest⟩ := List.forall_mem_cons.mp h
    have hhead := segmentOf_inside number clause.1 clause.2
    have htail := segmentsFrom_inside (number + 1) rest hrest
    rw [segmentsFrom]
    cases hs : segmentOf number clause.1 clause.2 with
    | error failure =>
      rw [hs] at hhead
      exact Nat.le_trans hhead hclause
    | ok s =>
      rw [hs] at hhead
      obtain ⟨hle, hstop⟩ := hhead s (.head _)
      cases hss : segmentsFrom (number + 1) rest with
      | error failure => rwa [hss] at htail
      | ok ss =>
        rw [hss] at htail
        exact List.forall_mem_cons.mpr ⟨⟨hle, Nat.le_trans hstop hclause⟩, htail⟩

/-- **The segments of an ordering are in order and inside of the text**, and so
is the place of an empty clause. -/
theorem segments_inside (text : List Char) : Inside text.length (segments text) :=
  segmentsFrom_inside 1 (clauses text) clauses_inside

end Ordering
end QueryExpr
