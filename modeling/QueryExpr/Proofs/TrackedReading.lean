/-
# Reading, moved and in order

Each routine of the parser is followed from cursors in a row: on moved tokens it
comes to the same, moved, however it makes its spans; and what it reads is laid
out between where it starts and the last token it passes.

Key theorems: `Reader.tracks_primary`, `Reader.reads_suffixChain`,
`Reader.lays_expression`, `Expr.ofTokensBy_relocate`.
-/
import QueryExpr.Proofs.TrackedSteps

namespace QueryExpr
namespace Reader

open Cursor (InRow)
open QueryExpr.Expr (Fits relocate)

variable {f : Nat → Nat} {hi a b : Nat} {t : Token} {target : Expr} {es : List Expr}
  {bounds : Nat → Nat → Reader Span} {m m' : Reader Expr}

/-- From a token as given both steps read an expression, which is laid out
behind the position. -/
abbrev ReadsAt (f : Nat → Nat) (hi a : Nat) (t : Token) (m m' : Reader Expr) : Prop :=
  Tracks f (relocate f) (fun c => c.InRow hi a ∧ c.current = t) m m' (Yields Fits hi a)

/-- The same, behind a position. -/
abbrev ReadsFrom (f : Nat → Nat) (hi a b : Nat) (m m' : Reader Expr) : Prop :=
  Tracks f (relocate f) (InRow hi b) m m' (Yields Fits hi a)

theorem reads_pure {P : Cursor → Prop} {e e' : Expr} (he : e' = e.relocate f) (hfits : e.Fits a b)
    (hp : ∀ c, P c → c.InRow hi b) :
    Tracks f (relocate f) P (pure e) (pure e') (Yields Fits hi a) :=
  he ▸ tracks_pure (h := relocate f) fun c hc => ⟨b, hfits, hp c hc⟩

/-- An entry of a projection, laid out between two positions. -/
def FitsEntry (a : Nat) (entry : Name × Expr) (b : Nat) : Prop :=
  entry.2.Fits a b ∧ a ≤ entry.1.span.start ∧ entry.1.span.stop ≤ b

/-- An entry of a projection at its new place. -/
def relocateEntry (f : Nat → Nat) (entry : Name × Expr) : Name × Expr :=
  (entry.1.relocate f, entry.2.relocate f)

theorem fits_of_entries {xs : List (Name × Expr)} (h : Chain FitsEntry a xs b) :
    Chain Fits a (xs.map (·.2)) b ∧
      ∀ n ∈ xs.map (·.1), a ≤ n.span.start ∧ n.span.stop ≤ b := by
  induction h with
  | nil h => exact ⟨.nil h, List.forall_mem_nil _⟩
  | cons head _ ih =>
    obtain ⟨hfits, hstart, hstop⟩ := head
    have hle := Expr.le_of_chain ih.1
    refine ⟨.cons hfits ih.1, List.forall_mem_cons.mpr ⟨⟨hstart, Nat.le_trans hstop hle⟩,
      fun n hn => ⟨Nat.le_trans hfits.le (ih.2 n hn).1, (ih.2 n hn).2⟩⟩⟩

/-- A node over what is between its start and a position in front of its end. -/
theorem fits_node {e : Expr} {start : Nat} {s : Span} (hlt : start < b) (ha : a ≤ start)
    (hs : s.start = start) (hstop : b ≤ s.stop) (hspan : e.span = s)
    (hchildren : Chain Fits start e.children b)
    (hlabels : ∀ l ∈ e.labels, start ≤ l.start ∧ l.stop ≤ b) : e.Fits a s.stop := by
  subst hs hspan
  exact Fits.mono (.of_chain hchildren (Nat.le_refl _) hstop (Nat.lt_of_lt_of_le hlt hstop)
    fun l hl => ⟨(hlabels l hl).1, Nat.le_trans (hlabels l hl).2 hstop⟩) ha (Nat.le_refl _)

/-- A node over what is between two positions. -/
theorem fits_bounds {e : Expr} {start stop : Nat} (hlt : start < stop) (ha : a ≤ start)
    (hstop : stop ≤ b) (hspan : e.span = .ofBounds start stop)
    (hchildren : Chain Fits start e.children stop)
    (hlabels : ∀ l ∈ e.labels, start ≤ l.start ∧ l.stop ≤ stop) : e.Fits a b := by
  have hs : (Span.ofBounds start stop).stop = stop := Span.stop_ofBounds (Nat.le_of_lt hlt)
  exact (fits_node hlt ha rfl (Nat.le_of_eq hs.symm) hspan hchildren hlabels).mono (Nat.le_refl _)
    (Nat.le_trans (Nat.le_of_eq hs) hstop)

/-- A node over the operands that it reaches from and to. -/
theorem fits_union {e first last : Expr} {m m' : Nat} (ha : a ≤ first.span.start)
    (hfirst : first.Fits first.span.start m) (hlast : last.Fits m m')
    (hspan : e.span = first.span.union last.span)
    (hchildren : Chain Fits first.span.start e.children last.span.stop) (hlabels : e.labels = []) :
    e.Fits a m' := by
  have hle : first.span.start ≤ last.span.start := Nat.le_trans hfirst.le hlast.start
  have hle' : first.span.stop ≤ last.span.stop :=
    Nat.le_trans hfirst.stop (Nat.le_trans hlast.start last.span.start_le_stop)
  rw [Span.union, Nat.min_eq_left hle, Nat.max_eq_right hle'] at hspan
  refine fits_bounds (Nat.lt_of_le_of_lt hle hlast.laid.start_lt_stop) ha hlast.stop hspan
    hchildren fun l hl => ?_
  rw [hlabels] at hl
  cases hl

section
variable (hf : Monotone f) (hb : ∀ a b, a ≤ b → bounds a b = pure (Span.ofBounds a b))

/-! ### Literals -/

section
variable (ht : t.After a) (hk : t.kind ≠ .endOfText)
include ht hk

/-- A node that is the token just passed. -/
theorem reads_leaf {e e' : Expr} (he : e' = e.relocate f) (hspan : e.span = t.span)
    (hchildren : e.children = []) (hlabels : ∀ l ∈ e.labels, l = t.span) :
    ReadsFrom f hi a t.stop (pure e) (pure e') := by
  have hlt : e.span.start < e.span.stop := hspan ▸ ht.covers hk
  have hfits : e.Fits t.span.start t.stop := by
    show e.Fits t.span.start t.span.stop
    rw [← hspan] at hlabels ⊢
    exact .leaf hlt hchildren hlabels
  exact reads_pure he (hfits.mono ht.start (Nat.le_refl _)) fun _ hc => hc

include hf

theorem tracks_literal (v : Literal) : ReadsAt f hi a t (literal v) (literal v) := by
  refine tracksAt_current ((tracks_advance hf).bind fun _ => ?_)
  exact reads_leaf ht hk (by rw [relocate]; rfl) rfl rfl (List.forall_mem_nil _)

theorem tracks_character : ReadsAt f hi a t character character := by
  refine tracksAt_current ?_
  rw [t.value_relocate]
  split
  · exact tracks_literal hf ht hk _
  · exact tracks_fail _ _

end

include hf hb

/-- A number covers its token, and a minus sign in front that belongs to it. -/
theorem tracks_number (minus : Option Nat)
    (hstart : a ≤ minus.getD t.span.start) (hlt : minus.getD t.span.start < t.stop) :
    Tracks f (relocate f) (fun c => c.InRow hi b ∧ c.current = t) (number minus)
      (numberBy bounds (minus.map f)) (Yields Fits hi a) := by
  refine tracksAt_current ?_
  have hspan : bounds ((minus.map f).getD (t.relocate f).span.start) (t.relocate f).stop =
      pure ((Span.ofBounds (minus.getD t.span.start) t.stop).relocate f) := by
    have hfirst : (minus.map f).getD (t.relocate f).span.start = f (minus.getD t.span.start) := by
      cases minus <;> rfl
    have hstop : (t.relocate f).stop = f t.stop := Span.stop_relocate hf
    rw [hfirst, hstop, hb _ _ (hf (Nat.le_of_lt hlt)), Span.relocate_ofBounds (Nat.le_of_lt hlt)]
  have hnumber : numberOf (t.relocate f) (minus.map f).isSome = numberOf t minus.isSome := by
    rw [Option.isSome_map]
    rfl
  rw [hspan, pure_bind, hnumber, Option.isSome_map]
  dsimp only
  cases numberOf t minus.isSome with
  | error cause => exact tracks_fail _ _
  | ok v =>
    refine (tracks_advance hf).bind fun _ => reads_pure (by rw [relocate]; rfl) ?_ fun _ hc => hc
    have hstop : (Span.ofBounds (minus.getD t.span.start) t.stop).stop = t.stop :=
      Span.stop_ofBounds (Nat.le_of_lt hlt)
    refine Fits.mono (.leaf ?_ rfl (List.forall_mem_nil _)) hstart (Nat.le_of_eq hstop)
    exact Nat.lt_of_lt_of_eq hlt hstop.symm

/-- A node over what is read between two positions. -/
theorem reads_bounds {start stop : Nat} {F F' : Span → Expr} (hlt : start < stop)
    (ha : a ≤ start) (hstop : stop ≤ b) (hspan : ∀ s, (F s).span = s)
    (hchildren : ∀ s, Chain Fits start (F s).children stop)
    (hlabels : ∀ s, ∀ l ∈ (F s).labels, start ≤ l.start ∧ l.stop ≤ stop)
    (hF : ∀ s, F' (s.relocate f) = (F s).relocate f) :
    ReadsFrom f hi a b (pure (F (.ofBounds start stop)))
      (bounds (f start) (f stop) >>= fun s => pure (F' s)) := by
  have hle := Nat.le_of_lt hlt
  rw [hb _ _ (hf hle), pure_bind, ← Span.relocate_ofBounds hle]
  exact reads_pure (hF _) (fits_bounds hlt ha hstop (hspan _) (hchildren _) (hlabels _))
    fun _ hc => hc

/-- The same, where the second position is that of the last token passed. -/
theorem reads_node {start : Nat} {F F' : Span → Expr} (hlt : start < b) (ha : a ≤ start)
    (hspan : ∀ s, (F s).span = s) (hchildren : ∀ s, Chain Fits start (F s).children b)
    (hlabels : ∀ s, ∀ l ∈ (F s).labels, start ≤ l.start ∧ l.stop ≤ b)
    (hF : ∀ s, F' (s.relocate f) = (F s).relocate f) :
    ReadsFrom f hi a b (spanFrom start >>= fun s => pure (F s))
      (spanFromBy bounds (f start) >>= fun s => pure (F' s)) :=
  tracks_spanFrom hb hf (Nat.le_of_lt hlt) fun s hs hstop =>
    reads_pure (hF s) (fits_node hlt ha hs hstop (hspan s) (hchildren s) (hlabels s)) fun _ hc => hc

/-! ### Names, calls and constructions -/

section
variable {expr expr' : Reader Expr} (he : Lays f hi Fits (relocate f) expr expr') (fuel : Nat)
include he

/-- A node over what is read already and a list of expressions. -/
theorem reads_arguments (close : TokenKind) {start : Nat} {F F' : List Expr → Span → Expr}
    (hes : Chain Fits start es b) (hlt : start < b) (ha : a ≤ start)
    (hspan : ∀ as s, (F as s).span = s) (hchildren : ∀ as s, (F as s).children = es ++ as)
    (hlabels : ∀ as s, ∀ l ∈ (F as s).labels, start ≤ l.start ∧ l.stop ≤ b)
    (hF : ∀ as s, F' (as.map (relocate f)) (s.relocate f) = (F as s).relocate f) :
    ReadsFrom f hi a b
      (listUpTo close expr fuel >>= fun as => spanFrom start >>= fun s => pure (F as s))
      (listUpTo close expr' fuel >>= fun as => spanFromBy bounds (f start) >>= fun s =>
        pure (F' as s)) := by
  refine (lays_listUpTo hf close he fuel b).andThen fun as m has => ?_
  have hm := Expr.le_of_chain has
  refine reads_node hf hb (Nat.lt_of_lt_of_le hlt hm) ha (hspan as) (fun s => ?_)
    (fun s l hl => ⟨(hlabels as s l hl).1, Nat.le_trans (hlabels as s l hl).2 hm⟩) (hF as)
  rw [hchildren]
  exact Expr.chain_append hes has

theorem tracks_named (g : Grammar) (ht : t.After a) (hk : t.kind ≠ .endOfText) :
    ReadsAt f hi a t (named g expr fuel) (namedBy bounds g expr' fuel) := by
  have hlt := ht.covers hk
  have hlabel : ∀ l ∈ [t.span], t.span.start ≤ l.start ∧ l.stop ≤ t.stop := fun l hl => by
    rw [List.mem_singleton.mp hl]
    exact ⟨Nat.le_refl _, Nat.le_refl _⟩
  have hnil : Chain Fits t.span.start [] t.stop := .nil (Nat.le_of_lt hlt)
  refine tracksAt_name ((tracks_advance hf).bind fun _ => tracks_kind fun u hu => Tracks.from ?_
    fun _ hc => hc.1)
  dsimp only
  -- a name of a type and any other one are read alike
  cases g.typeOf? t.value
  all_goals
    dsimp only
    split
    · refine (tracks_pass hf).bind fun _ => reads_arguments hf hb he fuel _ hnil hlt ht.start
        (fun _ _ => rfl) (fun _ _ => rfl) (fun _ _ => hlabel) fun as s => ?_
      rw [relocate, Expr.relocateAll_eq_map]
      rfl
    · exact reads_leaf ht hk (by rw [relocate]; rfl) rfl rfl fun l hl => List.mem_singleton.mp hl

theorem tracks_iif (ht : t.After a) (hk : t.kind ≠ .endOfText) :
    ReadsAt f hi a t (iif expr fuel) (iifBy bounds expr' fuel) := by
  have hlt := ht.covers hk
  refine tracksAt_current ((tracks_advance hf).bind fun _ => (tracks_expect hf _).bind fun _ => ?_)
  refine reads_arguments hf hb he fuel _ (.nil (Nat.le_of_lt hlt)) hlt ht.start (fun _ _ => rfl)
    (fun _ _ => rfl) (fun _ _ l hl => ?_) fun as s => ?_
  · rw [List.mem_singleton.mp hl]
    exact ⟨Nat.le_refl _, Nat.le_refl _⟩
  · rw [relocate, Expr.relocateAll_eq_map]
    rfl

omit hb in
/-- An entry of a projection has its value and its name where it stands. -/
theorem lays_projection : Lays f hi FitsEntry (relocateEntry f) (projection expr)
    (projection expr') := by
  intro a
  refine tracks_kind fun t ht => tracks_get fun c => ?_
  rw [c.next?_relocate]
  split
  · rename_i hk
    have hk : t.kind.isNameLike = true := (Bool.and_eq_true_iff.mp hk).1
    refine tracksAt_name ((tracks_advance hf).bind fun _ => (tracks_pass hf).bind fun _ => ?_)
    refine (he t.stop).andThen fun e b hfits => tracks_pure (h := relocateEntry f) fun d hd => ?_
    exact ⟨b, ⟨hfits.mono ht.le (Nat.le_refl _), ht.start, hfits.le⟩, hd⟩
  · refine ((he a).from fun _ hc => hc.1).andThen fun e b hfits => tracks_kind fun u hu => ?_
    split
    · refine (tracks_advance hf).bind fun _ => tracks_kind fun v hv => ?_
      dsimp only
      split
      · exact tracksAt_current (tracks_fail_bind _ _)
      · refine tracksAt_name ((tracks_advance hf).bind fun _ =>
          tracks_pure (h := relocateEntry f) fun d hd => ⟨v.stop, ⟨?_, ?_, Nat.le_refl _⟩, hd⟩)
        · exact hfits.mono (Nat.le_refl _) (Nat.le_trans hu.le hv.le)
        · exact Nat.le_trans hfits.le (Nat.le_trans hu.le hv.start)
    · rw [e.propertyName?_relocate, e.span_relocate]
      cases e.propertyName? with
      | some text =>
        refine tracks_pure (h := relocateEntry f) fun d hd => ?_
        exact ⟨b, ⟨hfits, hfits.start, hfits.stop⟩, hd.1⟩
      | none => exact tracks_fail _ _

theorem reads_newRecord (close : TokenKind) {start : Nat} (hlt : start < b) (ha : a ≤ start) :
    ReadsFrom f hi a b (newRecord expr fuel start close)
      (newRecordBy bounds expr' fuel (f start) close) := by
  refine (lays_listUpTo hf close (lays_projection hf he) fuel b).andThen fun xs m hxs => ?_
  obtain ⟨hes, hns⟩ := fits_of_entries hxs
  have hm := Expr.le_of_chain hes
  refine reads_node hf hb (F := fun s => .newRecord (xs.map (·.1)) (xs.map (·.2)) s)
    (Nat.lt_of_lt_of_le hlt hm) ha (fun _ => rfl)
    (fun _ => Expr.chain_mono hes (Nat.le_of_lt hlt)) (fun s l hl => ?_) fun s => ?_
  · obtain ⟨n, hn, rfl⟩ := List.mem_map.mp hl
    exact ⟨Nat.le_trans (Nat.le_of_lt hlt) (hns n hn).1, (hns n hn).2⟩
  · simp only [relocate, Expr.relocateAll_eq_map, List.map_map, Function.comp_def, relocateEntry]

theorem reads_newArray {start : Nat} {type : Option TypeName} (hlt : start < b) (ha : a ≤ start)
    (htype : ∀ T ∈ type, start ≤ T.name.span.start ∧ T.name.span.stop ≤ b) :
    ReadsFrom f hi a b (newArray expr fuel start type)
      (newArrayBy bounds expr' fuel (f start) (type.map (TypeName.relocate f))) := by
  refine (tracks_expect hf _).bind fun _ => ?_
  refine reads_arguments hf hb he fuel _ (.nil (Nat.le_of_lt hlt)) hlt ha (fun _ _ => rfl)
    (fun _ _ => rfl) (fun _ _ l hl => ?_) fun as s => ?_
  · obtain ⟨T, hT, rfl⟩ := List.mem_map.mp hl
    exact htype T (Option.mem_toList.mp hT)
  · rw [relocate, Expr.relocateAll_eq_map]

theorem tracks_construction (ht : t.After a) (hk : t.kind ≠ .endOfText) :
    ReadsAt f hi a t (construction expr fuel) (constructionBy bounds expr' fuel) := by
  have hlt := ht.covers hk
  refine tracksAt_current ((tracks_advance hf).bind fun _ => tracks_current fun u hu => ?_)
  rw [u.kind_relocate, u.value_relocate]
  cases u.kind
  case openBrace | openParen =>
    exact ((tracks_pass hf).from fun _ hc => hc.1).bind fun _ =>
      reads_newRecord hf hb he fuel _ hlt ht.start
  case openBracket =>
    refine ((tracks_pass hf).from fun _ hc => hc.1).bind fun _ => ?_
    refine (tracks_expect hf _).bind fun _ => ?_
    exact reads_newArray hf hb he fuel hlt ht.start fun _ hT => by cases hT
  case identifier =>
    dsimp only
    rcases KnownType.ofName? u.value with _ | p | _
    · exact tracks_fail _ _
    · have hult : t.span.start < u.stop := Nat.lt_of_lt_of_le hlt hu.le
      have htype : ∀ T ∈ some (⟨⟨u.value, u.span⟩, .prim p⟩ : TypeName),
          t.span.start ≤ T.name.span.start ∧ T.name.span.stop ≤ u.stop := by
        intro T hT
        cases hT
        exact ⟨Nat.le_trans (Nat.le_of_lt hlt) hu.start, Nat.le_refl _⟩
      refine (tracks_advance hf).bind fun _ => ?_
      refine tracks_kind fun v _ => Tracks.from ?_ fun _ hc => hc.1
      split
      · refine (tracks_pass hf).bind fun _ => (tracks_expect hf _).bind fun _ => ?_
        exact reads_newArray hf hb he fuel hult ht.start htype
      · exact reads_newArray hf hb he fuel hult ht.start htype
    · exact tracks_fail _ _
  all_goals exact tracks_fail _ _

/-! ### From primary expressions to conditionals -/

theorem tracks_primary (g : Grammar) (ht : t.After a) :
    ReadsAt f hi a t (primary g expr fuel) (primaryBy bounds g expr' fuel) := by
  refine tracksAt_current ?_
  rw [t.kind_relocate]
  generalize hk : t.kind = k
  have hne : k ≠ .endOfText → t.kind ≠ .endOfText := fun h => hk ▸ h
  cases k
  case integer | real => exact tracks_number hf hb none ht.start (ht.covers (hne (by decide)))
  case string => exact tracks_literal hf ht (hne (by decide)) _
  case char => exact tracks_character hf ht (hne (by decide))
  case trueWord | falseWord | nullWord => exact tracks_literal hf ht (hne (by decide)) _
  case itWord =>
    exact (tracks_advance hf).bind fun _ =>
      reads_leaf ht (hne (by decide)) (by rw [relocate]; rfl) rfl rfl fun l hl =>
        List.mem_singleton.mp hl
  case iifWord => exact tracks_iif hf hb he fuel ht (hne (by decide))
  case newWord => exact tracks_construction hf hb he fuel ht (hne (by decide))
  case openParen =>
    refine (tracks_advance hf).bind fun _ => (he t.stop).andThen fun e b hfits => ?_
    refine (tracks_expect hf _).bind fun _ => reads_pure rfl ?_ fun _ hc => hc
    exact hfits.mono ht.le (Nat.le_refl _)
  case identifier => exact tracks_named hf hb he fuel g ht (hne (by decide))
  all_goals exact tracks_unexpected.from fun _ hc => hc.1

theorem reads_memberSuffix (htarget : target.Fits a b) :
    ReadsFrom f hi a b (memberSuffix expr fuel target)
      (memberSuffixBy bounds expr' fuel (target.relocate f)) := by
  refine (tracks_pass hf).bind fun _ => tracks_kind fun u hu => ?_
  dsimp only
  split
  · exact tracksAt_current (tracks_fail_bind _ _)
  · have hlt : target.span.start < u.stop :=
      Nat.lt_of_lt_of_le htarget.laid.start_lt_stop (Nat.le_trans htarget.stop hu.le)
    have hname : target.span.start ≤ u.span.start ∧ u.span.stop ≤ u.stop :=
      ⟨Nat.le_trans (Nat.le_of_lt htarget.laid.start_lt_stop)
        (Nat.le_trans htarget.stop hu.start), Nat.le_refl _⟩
    have hchain : Chain Fits target.span.start [target] u.stop :=
      .cons ⟨htarget.laid, Nat.le_refl _, htarget.stop⟩ (.nil hu.le)
    rw [Expr.span_relocate]
    refine tracksAt_name ((tracks_advance hf).bind fun _ => tracks_kind fun v _ => Tracks.from ?_
      fun _ hc => hc.1)
    split
    · refine (tracks_pass hf).bind fun _ => ?_
      refine reads_arguments hf hb he fuel _ hchain hlt htarget.start (fun _ _ => rfl)
        (fun _ _ => rfl) (fun _ _ l hl => ?_) fun as s => ?_
      · rw [List.mem_singleton.mp hl]
        exact hname
      · rw [relocate, Expr.relocateAll_eq_map]
        rfl
    · rw [Span.stop_relocate hf]
      refine reads_bounds hf hb (F := fun s => .member target ⟨u.value, u.span⟩ s) hlt
        htarget.start (Nat.le_refl _) (fun _ => rfl) (fun _ => hchain) (fun _ l hl => ?_)
        fun s => by rw [relocate]; rfl
      rw [List.mem_singleton.mp hl]
      exact hname

theorem reads_indexSuffix (htarget : target.Fits a b) :
    ReadsFrom f hi a b (indexSuffix expr fuel target)
      (indexSuffixBy bounds expr' fuel (target.relocate f)) := by
  refine tracks_current fun u hu => (tracks_advance hf).bind fun _ => ?_
  refine (lays_listUpTo hf _ he fuel _).andThen fun as m has => ?_
  have hempty : (as.map (relocate f)).isEmpty = as.isEmpty := by cases as <;> rfl
  dsimp only
  rw [hempty]
  split
  · exact tracks_fail_bind _ _
  · have hm := Nat.le_trans hu.le (Expr.le_of_chain has)
    have hlt : target.span.start < m :=
      Nat.lt_of_lt_of_le htarget.laid.start_lt_stop (Nat.le_trans htarget.stop hm)
    rw [Expr.span_relocate]
    refine reads_node hf hb (F := fun s => .index target as s) hlt htarget.start (fun _ => rfl)
      (fun _ => ?_) (fun _ => List.forall_mem_nil _) fun s => ?_
    · exact .cons ⟨htarget.laid, Nat.le_refl _, htarget.stop⟩ (Expr.chain_mono has hu.le)
    · rw [relocate, Expr.relocateAll_eq_map]

theorem reads_suffixChain (g : Grammar) : ∀ (fuel : Nat) {b : Nat} {target : Expr},
    target.Fits a b → ReadsFrom f hi a b (suffixChain g expr fuel target)
      (suffixChainBy bounds g expr' fuel (target.relocate f))
  | 0, b, target, htarget => reads_pure rfl htarget fun _ hc => hc
  | fuel + 1, b, target, htarget => by
    refine tracks_kind fun t _ => Tracks.from ?_ fun _ hc => hc.1
    cases t.kind
    case dot =>
      refine (tracks_charge g.limit).bind fun _ => ?_
      exact (reads_memberSuffix hf hb he fuel htarget).andThen fun _ _ hfits =>
        reads_suffixChain g fuel hfits
    case openBracket =>
      refine (tracks_charge g.limit).bind fun _ => ?_
      exact (reads_indexSuffix hf hb he fuel htarget).andThen fun _ _ hfits =>
        reads_suffixChain g fuel hfits
    case openParen => exact tracks_current fun _ _ => tracks_fail _ _
    all_goals exact reads_pure rfl htarget fun _ hc => hc

theorem reads_suffixes (g : Grammar) (htarget : target.Fits a b) :
    ReadsFrom f hi a b (suffixes g expr fuel target)
      (suffixesBy bounds g expr' fuel (target.relocate f)) :=
  (reads_suffixChain hf hb he g fuel htarget).charging

theorem tracks_operand (g : Grammar) (ht : t.After a) :
    ReadsAt f hi a t (primary g expr fuel >>= suffixes g expr fuel)
      (primaryBy bounds g expr' fuel >>= suffixesBy bounds g expr' fuel) :=
  (tracks_primary hf hb he fuel g ht).andThen fun _ _ hfits =>
    reads_suffixes hf hb he fuel g hfits

theorem tracks_unary (g : Grammar) : ∀ (fuel : Nat) {a : Nat} {t : Token}, t.After a →
    ReadsAt f hi a t (unary g expr fuel) (unaryBy bounds g expr' fuel)
  | 0, a, t, ht => tracks_operand hf hb he 0 g ht
  | fuel + 1, a, t, ht => by
    refine tracksAt_current ?_
    rw [t.kind_relocate]
    cases hop : UnaryOp.ofToken? t.kind with
    | none => exact tracks_operand hf hb he fuel g ht
    | some op =>
      have hlt : t.span.start < t.stop := ht.covers fun h => by
        rw [h] at hop
        cases hop
      refine tracks_get fun c => ?_
      rw [c.next?_relocate]
      dsimp only
      split
      · -- the minus sign is in front of the number, and part of it
        refine (tracks_advance hf).bind fun _ => Tracks.andThen (.whatever fun u hu => ?_)
          fun _ _ hfits => reads_suffixes hf hb he fuel g hfits
        exact tracks_number hf hb (some t.span.start) ht.start
          (Nat.lt_of_lt_of_le hlt hu.le)
      · refine (tracks_advance hf).bind fun _ => ?_
        have hunary : ReadsFrom f hi t.stop t.stop (unary g expr fuel)
            (unaryBy bounds g expr' fuel) := .whatever fun u hu => tracks_unary g fuel hu
        refine (hunary.within g.limit).andThen fun e b hfits => ?_
        have hlast : t.span.start < e.span.stop :=
          Nat.lt_of_lt_of_le hlt (Nat.le_trans hfits.start e.span.start_le_stop)
        rw [Expr.span_relocate, Span.stop_relocate hf]
        refine reads_bounds hf hb (F := fun s => .unary op e s) hlast ht.start hfits.stop
          (fun _ => rfl) (fun _ => ?_) (fun _ => List.forall_mem_nil _) fun s => by rw [relocate]
        exact .cons ⟨hfits.laid, Nat.le_trans (Nat.le_of_lt hlt) hfits.start, Nat.le_refl _⟩
          (.nil (Nat.le_refl _))

mutual
theorem reads_climb (g : Grammar) : ∀ (fuel : Nat) {a : Nat} (bound : Level),
    ReadsFrom f hi a a (climb g expr fuel bound) (climbBy bounds g expr' fuel bound)
  | 0, a, bound => by
    rw [climb, climbBy]
    exact .whatever fun t ht => tracks_unary hf hb he g 0 ht
  | fuel + 1, a, bound => by
    rw [climb, climbBy]
    exact Tracks.charging (Tracks.andThen (.whatever fun t ht => tracks_unary hf hb he g _ ht)
      fun e b hfits => reads_climbChain g fuel bound hfits)

/-- What a chain has read is the left operand of the next operator. -/
theorem reads_climbChain (g : Grammar) : ∀ (fuel : Nat) {a b : Nat} {left : Expr} (bound : Level),
    left.Fits a b → ReadsFrom f hi a b (climbChain g expr fuel bound left)
      (climbChainBy bounds g expr' fuel bound (left.relocate f))
  | 0, a, b, left, bound, hleft => by
    rw [climbChain, climbChainBy]
    exact reads_pure rfl hleft fun _ hc => hc
  | fuel + 1, a, b, left, bound, hleft => by
    rw [climbChain, climbChainBy]
    refine tracks_current fun t ht => ?_
    rw [t.kind_relocate]
    cases t.kind.level? with
    | none => exact reads_pure rfl hleft fun _ hc => hc.1
    | some level =>
      dsimp only
      split
      · exact reads_pure rfl hleft fun _ hc => hc.1
      · refine (tracks_advance hf).bind fun _ => (tracks_charge g.limit).bind fun _ => ?_
        have hlt : left.span.start < t.stop :=
          Nat.lt_of_lt_of_le hleft.laid.start_lt_stop (Nat.le_trans hleft.stop ht.le)
        have hfirst : left.Fits left.span.start t.stop :=
          ⟨hleft.laid, Nat.le_refl _, Nat.le_trans hleft.stop ht.le⟩
        cases BinaryOp.ofToken? t.kind with
        | some op =>
          refine ((reads_climb g fuel _).within g.limit).andThen fun right m hright => ?_
          rw [Expr.span_relocate, Expr.span_relocate, unionBy_eq hb, pure_bind,
            ← Span.relocate_union hf]
          have hwhole := reads_climbChain g fuel bound
            (fits_union (e := .binary op left right (left.span.union right.span)) hleft.start
              hfirst hright rfl (.cons hfirst (.cons ⟨hright.laid, hright.start, Nat.le_refl _⟩
                (.nil (Nat.le_refl _)))) rfl)
          rw [relocate] at hwhole
          exact hwhole
        | none =>
          refine tracks_kind fun u hu => Tracks.from ?_ fun _ hc => hc.1
          rw [Expr.span_relocate]
          split
          · refine (tracks_pass hf).bind fun _ => ?_
            refine (lays_listUpTo hf _ he fuel _).andThen fun es m hes => ?_
            have hm := Expr.le_of_chain hes
            refine tracks_spanFrom hb hf (Nat.le_trans (Nat.le_of_lt hlt) hm) fun s hs hstop => ?_
            have hwhole := reads_climbChain g fuel bound
              (fits_node (e := .inList left es s) (Nat.lt_of_lt_of_le hlt hm) hleft.start hs hstop
                rfl (.cons hfirst hes) (List.forall_mem_nil _))
            rw [relocate, Expr.relocateAll_eq_map] at hwhole
            exact hwhole
          · refine (reads_climb g fuel .relational).andThen fun source m hsource => ?_
            have hm := hsource.le
            refine tracks_spanFrom hb hf (Nat.le_trans (Nat.le_of_lt hlt) hm) fun s hs hstop => ?_
            have hwhole := reads_climbChain g fuel bound
              (fits_node (e := .inSource left source s) (Nat.lt_of_lt_of_le hlt hm) hleft.start hs
                hstop rfl (.cons hfirst (.cons hsource (.nil (Nat.le_refl _))))
                (List.forall_mem_nil _))
            rw [relocate] at hwhole
            exact hwhole
end

theorem lays_conditional (g : Grammar) : Lays f hi Fits (relocate f) (conditional g expr fuel)
    (conditionalBy bounds g expr' fuel) := by
  intro a
  refine Tracks.within ((reads_climb hf hb he g fuel _).andThen fun c b hc =>
    tracks_kind fun t ht => ?_) g.limit
  split
  · refine (tracks_advance hf).bind fun _ => (he t.stop).andThen fun x m hx => ?_
    refine (tracks_expect hf _).bind fun _ => (he m).andThen fun y m' hy => ?_
    have hfirst : c.Fits c.span.start t.stop :=
      ⟨hc.laid, Nat.le_refl _, Nat.le_trans hc.stop ht.le⟩
    rw [Expr.span_relocate, Expr.span_relocate, unionBy_eq hb, pure_bind,
      ← Span.relocate_union hf]
    refine reads_pure (by rw [relocate]) (fits_union hc.start hfirst
      (hy.mono hx.le (Nat.le_refl _)) rfl (.cons hfirst (.cons hx
        (.cons ⟨hy.laid, hy.start, Nat.le_refl _⟩ (.nil (Nat.le_refl _))))) rfl) fun _ hd => hd
  · exact reads_pure rfl hc fun _ hd => hd.1

end

/-- **Every expression is read laid out, and alike on moved tokens.** -/
theorem lays_expression (g : Grammar) : ∀ fuel,
    Lays f hi Fits (relocate f) (expression g fuel) (expressionBy bounds g fuel)
  | 0, _ => tracks_unexpected
  | fuel + 1, a => lays_conditional hf hb (lays_expression g fuel) fuel g a

theorem reads_whole (g : Grammar) (fuel : Nat) :
    ReadsFrom f hi a a (whole g fuel) (wholeBy bounds g fuel) := by
  refine tracks_meetFault.bind fun _ => (lays_expression hf hb g fuel a).andThen fun e b hfits =>
    tracks_kind fun t _ => Tracks.from ?_ fun _ hc => hc.1
  dsimp only
  split
  · exact (tracks_unexpected (h := id) (Q := fun _ _ => False)).bind fun _ _ hc => hc.elim
  · exact reads_pure rfl hfits fun _ hc => hc

end
end Reader

namespace Expr

variable {f : Nat → Nat} {hi : Nat} {bounds : Nat → Nat → Reader Span}

/-- What tokens in a row spell, moved or not, and however the spans are made. -/
theorem ofTokensBy_relocate (hf : Monotone f)
    (hb : ∀ a b, a ≤ b → bounds a b = pure (Span.ofBounds a b)) (g : Grammar) {start : Nat}
    {ts : Tokens} (hrow : Row hi ts.ending start ts.list) :
    ofTokensBy bounds g (f start) (ts.relocate f) =
        relocated f (relocate f) (ofTokens g start ts) ∧
      ∀ e, ofTokens g start ts = .ok e → e.Fits start hi := by
  obtain ⟨heq, hfits⟩ := Reader.reads_whole hf hb g (ts.list.length + 1) (.atStart start ts)
    ⟨hrow, Nat.le_refl _⟩
  refine ⟨?_, fun e he => ?_⟩
  · have hlength : (ts.relocate f).list.length = ts.list.length := List.length_map _
    unfold ofTokensBy
    rw [hlength]
    exact congrArg Prod.fst heq
  · obtain ⟨b, hfits, hd⟩ := hfits e _ (Prod.ext he rfl)
    exact hfits.mono (Nat.le_refl _) (Nat.le_trans hd.le hd.row.le)

end Expr
end QueryExpr
