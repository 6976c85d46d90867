/-
# Tokens tile a text

The tokens of a stretch of a text lie in it one behind the other, each covers
something, and what none of them covers is blank, up to the end of the stretch
or up to the fault that ends the reading. A fault covers something of the
stretch, too.

Key definitions: `Text.Blank`, `endingSpan`, `Tiling`, `Scanner.At`.
Key theorems: `Scanner.Reads.tiling`, `Scanner.reads_tiling`.
-/
import QueryExpr.Proofs.ScannedText

namespace QueryExpr

/-- Nothing but blanks from one position up to another one. -/
def Text.Blank (text : List Char) (first last : Nat) : Prop :=
  ∀ i, first ≤ i → i < last → ∃ c, text[i]? = some c ∧ Text.isBlank c = true

/-- The place of the token or the fault that a text ends with. -/
def endingSpan (ending : Except Failure Token) : Span :=
  match ending with
  | .ok t => t.span
  | .error f => f.span

/-- The tokens of a text from one position up to another one, and what they end
with: the end, or a fault. -/
structure Tiling (text : List Char) (first last : Nat) (ts : List Token)
    (ending : Except Failure Token) : Prop where
  nonempty : ∀ t ∈ ts, 0 < t.span.length
  inside : ∀ t ∈ ts, first ≤ t.span.start ∧ t.stop ≤ last
  apart : ts.Pairwise fun t u => t.stop ≤ u.span.start
  written : ∀ t ∈ ts, t.written = String.ofList (stretch text t.span.start t.stop)
  ended : match ending with
    | .ok t => t = .endAt last
    | .error f => 0 < f.span.length
  endingInside : first ≤ (endingSpan ending).start ∧ (endingSpan ending).stop ≤ last
  endingApart : ∀ t ∈ ts, t.stop ≤ (endingSpan ending).start
  blank : ∀ i, first ≤ i → i < (endingSpan ending).start →
    (∀ t ∈ ts, t.span.covers i = false) → ∃ c, text[i]? = some c ∧ Text.isBlank c = true

namespace Tiling

variable {text : List Char} {first last : Nat} {t : Token} {ts : List Token} {f : Failure}
  {ending : Except Failure Token}

theorem of_ending (hle : first ≤ last) (hb : Text.Blank text first last) :
    Tiling text first last [] (.ok (.endAt last)) where
  nonempty := List.forall_mem_nil _
  inside := List.forall_mem_nil _
  apart := .nil
  written := List.forall_mem_nil _
  ended := rfl
  endingInside := ⟨hle, Nat.le_refl _⟩
  endingApart := List.forall_mem_nil _
  blank i hi hlt _ := hb i hi hlt

theorem of_fault (hpos : 0 < f.span.length) (hfirst : first ≤ f.span.start)
    (hlast : f.span.stop ≤ last) (hb : Text.Blank text first f.span.start) :
    Tiling text first last [] (.error f) where
  nonempty := List.forall_mem_nil _
  inside := List.forall_mem_nil _
  apart := .nil
  written := List.forall_mem_nil _
  ended := hpos
  endingInside := ⟨hfirst, hlast⟩
  endingApart := List.forall_mem_nil _
  blank i hi hlt _ := hb i hi hlt

/-- Another token in front. -/
theorem cons (h : Tiling text t.stop last ts ending) (hpos : 0 < t.span.length)
    (hfirst : first ≤ t.span.start) (hlast : t.stop ≤ last)
    (hwritten : t.written = String.ofList (stretch text t.span.start t.stop))
    (hb : Text.Blank text first t.span.start) : Tiling text first last (t :: ts) ending := by
  have hstop : first ≤ t.stop := Nat.le_trans hfirst (Nat.le_add_right _ _)
  refine ⟨List.forall_mem_cons.mpr ⟨hpos, h.nonempty⟩, List.forall_mem_cons.mpr ⟨⟨hfirst, hlast⟩,
    fun u hu => ⟨Nat.le_trans hstop (h.inside u hu).1, (h.inside u hu).2⟩⟩,
    h.apart.cons fun u hu => (h.inside u hu).1, List.forall_mem_cons.mpr ⟨hwritten, h.written⟩,
    h.ended, ⟨Nat.le_trans hstop h.endingInside.1, h.endingInside.2⟩,
    List.forall_mem_cons.mpr ⟨h.endingInside.1, h.endingApart⟩, fun i hi hlt hnone => ?_⟩
  obtain ⟨ht, hts⟩ := List.forall_mem_cons.mp hnone
  -- a position outside of the token is in front of it or behind it
  by_cases hbefore : i < t.span.start
  · exact hb i hi hbefore
  · refine h.blank i (Nat.le_of_not_lt fun hin => ?_) hlt hts
    simp [Span.covers, Nat.le_of_not_lt hbefore] at ht
    exact absurd hin (Nat.not_lt.mpr ht)

end Tiling

namespace Scanner

variable {text bs cs : List Char} {last n : Nat} {s : Scanner} {ts : List Token}
  {ending : Except Failure Token}

/-- The scanner has the text up to a position in front of it. -/
structure At (text : List Char) (last : Nat) (s : Scanner) : Prop where
  rest : s.rest = stretch text s.position last
  le : s.position ≤ last
  bound : last ≤ text.length

theorem At.stop_eq (h : s.At text last) : s.position + s.rest.length = last := by
  have := h.le
  have := h.bound
  rw [h.rest, stretch, List.length_drop, List.length_take]
  omega

/-- What is in front of a scanner is a stretch from where it starts. -/
theorem At.stretch_behind (h : s.At text last) (hrest : s.rest = bs ++ cs) :
    cs = stretch text (s.position + bs.length) last := by
  have hdrop := congrArg (List.drop bs.length) (hrest.symm.trans h.rest)
  rwa [List.drop_left, stretch, List.drop_drop] at hdrop

theorem At.blank (h : s.At text last) (hrest : s.rest = bs ++ cs)
    (hb : ∀ b ∈ bs, Text.isBlank b = true) :
    Text.Blank text s.position (s.position + bs.length) := by
  intro i hi hlt
  have hin : i - s.position < bs.length := by omega
  have hlast : i < last := by
    have := h.stop_eq
    rw [hrest, List.length_append] at this
    omega
  refine ⟨bs[i - s.position], ?_, hb _ (List.getElem_mem _)⟩
  have hget := congrArg (·[i - s.position]?) (hrest.symm.trans h.rest)
  simp only [List.getElem?_append_left hin, List.getElem?_eq_getElem hin, stretch,
    List.getElem?_drop, Nat.add_sub_cancel' hi, List.getElem?_take_of_lt hlast] at hget
  exact hget.symm

theorem At.written (h : s.At text last) (hrest : s.rest = bs ++ cs) (hn : n ≤ cs.length) :
    cs.take n = stretch text (s.position + bs.length) (s.position + bs.length + n) := by
  have := h.stop_eq
  rw [hrest, List.length_append] at this
  rw [h.stretch_behind hrest, stretch, stretch, List.take_drop, List.take_take,
    Nat.min_eq_left (by omega)]

/-- What a scanner reads tiles the text in front of it. -/
theorem Reads.tiling (h : s.Reads ts ending) (hat : s.At text last) :
    Tiling text s.position last ts ending := by
  induction h with
  | @ending s s' h =>
    have hscan := s.scan_outcome
    generalize s.scan = o at h hscan
    cases hscan with
    | @ending bs hrest hb =>
      obtain ⟨-, rfl⟩ := Prod.mk.inj h
      have hstop := hat.stop_eq
      have hblank := hat.blank (hrest.trans (List.append_nil bs).symm) hb
      rw [hrest] at hstop
      rw [hstop] at hblank ⊢
      exact .of_ending hat.le hblank
    | fault => cases h
    | token hrest hb hc hl =>
      obtain ⟨hk, -⟩ := Prod.mk.inj h
      exact absurd (Except.ok.inj hk) (lexeme_kind hl)
  | @fault s s' f h =>
    have hscan := s.scan_outcome
    generalize s.scan = o at h hscan
    cases hscan with
    | ending | token => cases h
    | @fault bs cs c cause n hrest hb hc hl =>
      cases h
      have hstop := hat.stop_eq
      obtain ⟨hpos, hle⟩ := lexeme_fault hl
      rw [hrest, List.length_append, List.length_cons] at hstop
      refine .of_fault hpos (Nat.le_add_right _ _) ?_ (hat.blank hrest hb)
      show s.position + bs.length + n ≤ last
      omega
  | @token s s' k ts ending h hk next ih =>
    have hscan := s.scan_outcome
    generalize s.scan = o at h hscan
    cases hscan with
    | ending =>
      obtain ⟨hkind, -⟩ := Prod.mk.inj h
      exact absurd (Except.ok.inj hkind).symm hk
    | fault => cases h
    | @token bs cs c l hrest hb hc hl =>
      obtain ⟨-, rfl⟩ := Prod.mk.inj h
      have hstop := hat.stop_eq
      obtain ⟨n, hn, hle, -⟩ := lexeme_cut hl
      rw [hrest, List.length_append, List.length_cons] at hstop
      have hlast : s.position + bs.length + l.length ≤ last := by omega
      have hsplit : s.rest = (bs ++ (c :: cs).take l.length) ++ (c :: cs).drop l.length := by
        rw [hrest, List.append_assoc, List.take_append_drop]
      have htake : (bs ++ (c :: cs).take l.length).length = bs.length + l.length := by
        rw [List.length_append, List.length_take, List.length_cons]
        omega
      have hbehind := hat.stretch_behind hsplit
      rw [htake, ← Nat.add_assoc] at hbehind
      refine (ih ⟨hbehind, hlast, hat.bound⟩).cons ?_ (Nat.le_add_right _ _) hlast ?_
        (hat.blank hrest hb)
      · show 0 < l.length
        rw [hn]
        exact Nat.succ_pos n
      · exact congrArg String.ofList (hat.written hrest (by rw [List.length_cons]; omega))

theorem at_ofRange (text : List Char) (start stop : Nat) :
    (ofRange text start stop).At text (min stop text.length) where
  rest := by
    show (text.take stop).drop start = (text.take _).drop (min start (min stop text.length))
    rw [← List.take_eq_take_min]
    rcases Nat.le_total start (min stop text.length) with h | h
    · rw [Nat.min_eq_left h]
    · have hlength : (text.take stop).length = min stop text.length := List.length_take
      rw [Nat.min_eq_right h, List.drop_of_length_le (Nat.le_trans (Nat.le_of_eq hlength) h),
        List.drop_of_length_le (Nat.le_of_eq hlength)]
  le := Nat.min_le_right _ _
  bound := Nat.min_le_right _ _

theorem tiling_tokensIn (text : List Char) (start stop : Nat) :
    Tiling text (stretchStart text start stop) (min stop text.length)
      (tokensIn text start stop).list ((tokensIn text start stop).ending.map .endAt) :=
  (reads_rest (ofRange text start stop)).tiling (at_ofRange text start stop)

/-- **Tokens tile a text.** From any stretch of any text a scanner reads tokens
to the end, in no more steps than there are positions in the stretch, its end
included. The last step comes to the end of the text, which is at the end of the
stretch, or to a fault. The tokens are those that an expression is read from;
they lie in the stretch one behind the other, each covers something, and what is
between them is blank. A fault covers something of the stretch, behind the last
token. -/
theorem reads_tiling (text : List Char) (start stop : Nat) :
    (ofRange text start stop).Reads (tokensIn text start stop).list
        ((tokensIn text start stop).ending.map .endAt) ∧
      (tokensIn text start stop).list.length + 1 ≤ stop - start + 1 ∧
      Tiling text (stretchStart text start stop) (min stop text.length)
        (tokensIn text start stop).list ((tokensIn text start stop).ending.map .endAt) := by
  have hreads := reads_rest (ofRange text start stop)
  refine ⟨hreads, Nat.succ_le_succ (Nat.le_trans hreads.length_le ?_),
    tiling_tokensIn text start stop⟩
  show ((text.take stop).drop start).length ≤ stop - start
  rw [List.length_drop, List.length_take]
  omega

end Scanner
end QueryExpr
