/-
# Operands that are read back

Literals, names, calls and constructions are read back from their pieces, and
so are suffixes behind what they follow: each suffix is a link of the chain
that goes on behind its target.

Key theorems: `ReadsPrimary.suffixed`, `ReadsSuffixed.literal`,
`ReadsPrimary.called`, `ReadsPrimary.newRecord`, `ReadsSuffixed.member`,
`ReadsSuffixed.callOn`, `ReadsSuffixed.index`.
-/
import QueryExpr.Proofs.ReadBack

namespace QueryExpr

open Step (Achieves achieves_pure)
open Cursor (On)
open Reader

variable {g : Grammar} {F fuel D q : Nat} {ps qs rest : List String} {w n : String}
  {k : TokenKind} {v : Literal} {b b' : Expr} {e : Expr} {es : List Expr} {ns : List Name}

/-! ### Literals -/

/-- A token that is a literal by itself. -/
theorem achieves_literal (hw : k.Shows w) :
    Achieves (On (w :: rest) D q) (literal v)
      fun x d => x.bare = .literal v w (.empty 0) ∧ d.On rest D q := by
  refine achieves_current hw fun t _ _ hwritten => ?_
  refine (achieves_advance hw).andThen fun _ _ => achieves_pure fun d hd => ⟨?_, hd⟩
  rw [hwritten]
  rfl

theorem numberOf_alike {t t' : Token} (hk : t'.kind = t.kind) (hv : t'.value = t.value)
    (negative : Bool) : numberOf t' negative = numberOf t negative := by
  unfold numberOf
  rw [hk, hv]

/-- A number is read back from its token, behind a minus sign or not. -/
theorem achieves_number {t : Token} (ht : t.Genuine) (hk : t.kind = .integer ∨ t.kind = .real)
    (minus : Option Nat) (hv : numberOf t minus.isSome = .ok v) :
    Achieves (On (t.written :: rest) D q) (number minus) fun x d =>
      x.bare = .literal v (if minus.isSome then "-" ++ t.written else t.written) (.empty 0) ∧
        d.On rest D q := by
  refine achieves_current ht.shows fun t' ht' _ hwritten => ?_
  obtain ⟨hkind, hvalue⟩ := ht'.alike ht hwritten
  have hspelled : t.value = t.written := (ht.spells (or_assoc.mp (.inl hk))).1
  dsimp only
  rw [numberOf_alike hkind hvalue, hv]
  refine (achieves_advance ht.shows).andThen fun _ _ => achieves_pure fun d hd => ⟨?_, hd⟩
  rw [← hspelled, ← hvalue]
  rfl

/-! ### Operands -/

/-- What needs no suffix is read back in front of suffixes. -/
theorem ReadsPrimary.suffixed (h : ReadsPrimary g ps b) (hnil : ps ≠ [])
    (hfirst : UnaryOp.ofToken? (follow ps) = none) : ReadsSuffixed g ps b := by
  intro F fuel D q rest R Q hF hfuel hD hrest hgo
  have hread : Achieves (On (ps ++ rest) D q)
      (primary g (expression g F) fuel >>= suffixes g (expression g F) fuel)
      fun y d => Q y ∧ d.On R D q :=
    (h F fuel D q rest hF hfuel hD hrest).andThen fun x hx =>
      achieves_charging (hgo 0 fuel x hx (weight_pos hnil) (Nat.zero_add fuel))
  intro c hc
  rw [unary_operand g _ _ (by rw [hc.kind, follow_append hnil]; exact hfirst)]
  exact hread c hc

/-- A literal that is one token. -/
theorem ReadsSuffixed.token {t : Token} (ht : t.Genuine)
    (hfirst : UnaryOp.ofToken? t.kind = none)
    (h : ∀ F fuel D q rest, Achieves (On (t.written :: rest) D q) (primary g (expression g F) fuel)
      fun x d => x.bare = .literal v t.written (.empty 0) ∧ d.On rest D q) :
    ReadsSuffixed g [t.written] (.literal v t.written (.empty 0)) := by
  refine ReadsPrimary.suffixed (fun F fuel D q rest _ _ _ _ => h F fuel D q rest)
    (List.cons_ne_nil _ _) ?_
  rw [follow_word ht.shows]
  exact hfirst

/-- A minus sign in front of a number becomes part of it again. -/
theorem ReadsSuffixed.negative {t : Token} (ht : t.Genuine)
    (hk : t.kind = .integer ∨ t.kind = .real) (hv : numberOf t true = .ok v) :
    ReadsSuffixed g ["-" ++ t.written] (.literal v ("-" ++ t.written) (.empty 0)) := by
  intro F fuel D q rest R Q hF hfuel hD hrest hgo
  have hminus : TokenKind.minus.Shows "-" := TokenKind.shows_symbol rfl
  have hword : [("-" ++ t.written)].flatMap wordsOf = ["-", t.written] := by
    rw [List.flatMap_singleton, wordsOf_minus ht.shows.word]
  have hweight : weight ["-" ++ t.written] = 2 := congrArg List.length hword
  -- the piece is two words
  have hpieces {c : Cursor} (h : c.On (["-" ++ t.written] ++ rest) D q) :
      c.On ("-" :: t.written :: rest) D q := by
    refine { h with written := h.written.trans ?_ }
    rw [List.flatMap_append, hword, List.flatMap_cons, List.flatMap_cons,
      wordsOf_word hminus.word, wordsOf_word ht.shows.word]
    rfl
  have hread : Achieves (On ("-" :: t.written :: rest) D q)
      (unary g (expression g F) (fuel + 1)) fun y d => Q y ∧ d.On R D q := by
    refine achieves_current hminus fun t' _ hk' _ => ?_
    rw [hk']
    refine achieves_get fun c hc => ?_
    rw [hc.next? hminus.word, follow_word ht.shows]
    rw [if_pos (by rcases hk with hk | hk <;> rw [hk] <;> rfl)]
    refine (achieves_advance hminus).andThen fun _ _ =>
      (achieves_number ht hk (some t'.span.start) hv).andThen fun x hx => ?_
    exact achieves_charging (hgo 0 fuel x hx (by omega) (Nat.zero_add fuel))
  exact fun c hc => hread c (hpieces hc)

/-- A literal is read back, as one token or as a minus sign and a number. -/
theorem ReadsSuffixed.literal (hv : v.Spelled w) :
    ReadsSuffixed g [w] (.literal v w (.empty 0)) := by
  -- the step that a token of the kind is read by stands for itself
  have step {t : Token} (ht : t.Genuine) (hfirst : UnaryOp.ofToken? t.kind = none)
      (h : ∀ expr fuel (c : Cursor), c.current.kind = t.kind → c.current.value = t.value →
        primary g expr fuel c = Reader.literal v c) :
      ReadsSuffixed g [t.written] (.literal v t.written (.empty 0)) := by
    refine .token ht hfirst fun F fuel D q rest c hc => ?_
    obtain ⟨hg, hwritten, -⟩ := hc.current ht.shows.word
    obtain ⟨hkind, hvalue⟩ := hg.alike ht hwritten
    rw [h _ _ _ hkind hvalue]
    exact achieves_literal ht.shows c hc
  cases hv with
  | number ht hk hv =>
    refine .token ht (by rcases hk with hk | hk <;> rw [hk] <;> rfl) fun F fuel D q rest => ?_
    refine achieves_current ht.shows fun t' _ hk' _ => ?_
    rw [hk']
    rcases hk with hk | hk <;> rw [hk]
    · exact achieves_number ht (.inl hk) none hv
    · exact achieves_number ht (.inr hk) none hv
  | negative ht hk hv => exact .negative ht hk hv
  | string ht hk =>
    exact step ht (by rw [hk]; rfl) fun expr fuel c hkind hvalue => by
      simp only [primary, current_bind, hkind, hk, hvalue]
  | char ht hk hc =>
    exact step ht (by rw [hk]; rfl) fun expr fuel c hkind hvalue => by
      simp only [primary, character, current_bind, hkind, hk, hvalue, hc]
  | true ht hk | false ht hk | null ht hk =>
    exact step ht (by rw [hk]; rfl) fun expr fuel c hkind hvalue => by
      simp only [primary, current_bind, hkind, hk]

/-! ### Names, calls and constructions -/

section
variable (hn : TokenKind.identifier.Spells n)
include hn

/-- A bare name is read back, as that of a type if it is one. -/
theorem ReadsPrimary.named : ReadsPrimary g [n]
    ((g.typeOf? n).elim (.name ⟨n, .empty 0⟩) fun known => .typeName ⟨⟨n, .empty 0⟩, known⟩) := by
  intro F fuel D q rest _ _ _ hrest
  have hcalled : ¬ (follow rest == .openParen) = true := mt beq_iff_eq.mp hrest
  refine achieves_current hn.shows fun t _ hk _ => ?_
  rw [hk]
  refine achieves_name hn fun s => (achieves_advance hn.shows).andThen fun _ _ =>
    achieves_kind (Eq.refl (follow rest)) ?_
  cases g.typeOf? n <;> dsimp only <;> rw [if_neg hcalled] <;>
    exact achieves_pure fun d hd => ⟨rfl, hd⟩

/-- A name with arguments is read back, as a conversion if it is that of a type. -/
theorem ReadsPrimary.called (hes : ∀ e ∈ es, ReadsBack g e) :
    ReadsPrimary g (n :: enclosed "(" (Expr.piecesAll es) ")")
      ((g.typeOf? n).elim (.call ⟨n, .empty 0⟩ (Expr.bareAll es) (.empty 0))
        fun known => .conversion ⟨⟨n, .empty 0⟩, known⟩ (Expr.bareAll es) (.empty 0)) := by
  intro F fuel D q rest hF hfuel hD _
  have hopen : TokenKind.openParen.Shows "(" := TokenKind.shows_symbol rfl
  have hclose : TokenKind.closeParen.Shows ")" := TokenKind.shows_symbol rfl
  rw [weight_word hn.shows] at hF hfuel hD
  refine achieves_current hn.shows fun t _ hk _ => ?_
  rw [hk]
  refine achieves_name hn fun s => (achieves_advance hn.shows).andThen fun _ _ =>
    achieves_kind (follow_word hopen _) ?_
  cases g.typeOf? n <;> dsimp only <;> rw [if_pos (beq_self_eq_true _)] <;>
    refine ReadsBack.enclosed hes hopen hclose rfl (by decide) (by omega) (by omega) (by omega)
      fun xs hxs => achieves_spanFrom fun s' => achieves_pure fun d hd => ⟨?_, hd⟩ <;>
    simp only [Expr.bare, Name.bare, TypeName.bare, hxs, Option.elim]

end

/-- Arguments behind the word `iif`. -/
theorem ReadsPrimary.iif (hes : ∀ e ∈ es, ReadsBack g e) :
    ReadsPrimary g ("iif" :: enclosed "(" (Expr.piecesAll es) ")")
      (.call ⟨"iif", .empty 0⟩ (Expr.bareAll es) (.empty 0)) := by
  intro F fuel D q rest hF hfuel hD _
  have hopen : TokenKind.openParen.Shows "(" := TokenKind.shows_symbol rfl
  have hclose : TokenKind.closeParen.Shows ")" := TokenKind.shows_symbol rfl
  have hiif : TokenKind.iifWord.Shows "iif" := TokenKind.shows_keyword rfl
  rw [weight_word hiif, weight_enclosed hopen hclose] at hF hfuel hD
  rw [List.cons_append, enclosed_append]
  refine achieves_current hiif fun t _ hk _ => ?_
  rw [hk]
  refine achieves_current hiif fun t _ hk _ => ?_
  refine (achieves_advance hiif).andThen fun _ _ => (achieves_expect hopen).andThen fun _ _ =>
    (ReadsBack.arguments hes hclose rfl (by decide) (by omega) (by omega) (by omega)).andThen
      fun xs hxs => achieves_spanFrom fun s' => achieves_pure fun d hd => ⟨?_, hd⟩
  simp only [Expr.bare, Name.bare, hxs]

theorem ReadsPrimary.it : ReadsPrimary g ["it"] (.name ⟨"it", .empty 0⟩) := by
  intro F fuel D q rest _ _ _ _
  have hit : TokenKind.itWord.Shows "it" := TokenKind.shows_keyword rfl
  refine achieves_current hit fun t _ hk _ => ?_
  rw [hk]
  exact (achieves_advance hit).andThen fun _ _ => achieves_pure fun d hd => ⟨rfl, hd⟩

theorem ReadsPrimary.parens (h : ReadsExpression g ps b) :
    ReadsPrimary g ("(" :: (ps ++ [")"])) b := by
  intro F fuel D q rest hF hfuel hD _
  have hopen : TokenKind.openParen.Shows "(" := TokenKind.shows_symbol rfl
  have hclose : TokenKind.closeParen.Shows ")" := TokenKind.shows_symbol rfl
  rw [weight_word hopen, weight_append, weight_word hclose] at hF hD
  rw [List.cons_append, List.append_assoc]
  refine achieves_current hopen fun t _ hk _ => ?_
  rw [hk]
  refine (achieves_advance hopen).andThen fun _ _ =>
    (h F D q (")" :: rest) (by omega) (by omega) ?_).andThen fun x hx =>
      (achieves_expect hclose).andThen fun _ _ => achieves_pure fun d hd => ⟨hx, hd⟩
  rw [follow_word hclose]
  rfl

/-- One entry of a projection. -/
def entryPieces (p : Name × Expr) : List String := p.1.text :: ":" :: p.2.pieces

/-- The entry without the places of its parts. -/
def bareEntry (p : Name × Expr) : Name × Expr := (p.1.bare, p.2.bare)

theorem bare_entries {entries : List (Name × Expr)} (hlength : ns.length = es.length)
    (h : entries.map bareEntry = (ns.zip es).map bareEntry) :
    (entries.map (·.1)).map Name.bare = ns.map Name.bare ∧
      (entries.map (·.2)).map Expr.bare = es.map Expr.bare := by
  constructor
  · calc (entries.map (·.1)).map Name.bare = (entries.map bareEntry).map (·.1) := by
          rw [List.map_map, List.map_map]; rfl
      _ = ((ns.zip es).map (·.1)).map Name.bare := by
          rw [h, List.map_map, List.map_map]; rfl
      _ = ns.map Name.bare := by rw [List.map_fst_zip (Nat.le_of_eq hlength)]
  · calc (entries.map (·.2)).map Expr.bare = (entries.map bareEntry).map (·.2) := by
          rw [List.map_map, List.map_map]; rfl
      _ = ((ns.zip es).map (·.2)).map Expr.bare := by
          rw [h, List.map_map, List.map_map]; rfl
      _ = es.map Expr.bare := by rw [List.map_snd_zip (Nat.le_of_eq hlength.symm)]

/-- An entry of a projection is read back. -/
theorem achieves_projection {m : Name} (hm : Named m.text) (he : ReadsBack g e)
    (hF : weight e.pieces < F) (hD : D + 2 * weight e.pieces + 1 ≤ g.limit)
    (hrest : (follow rest).isClosing = true) :
    Achieves (On (m.text :: ":" :: (e.pieces ++ rest)) D q) (projection (expression g F))
      fun x d => bareEntry x = bareEntry (m, e) ∧ d.On rest D q := by
  have hcolon : TokenKind.colon.Shows ":" := TokenKind.shows_symbol rfl
  obtain ⟨k, hk, hspells⟩ := hm
  refine achieves_kind (follow_word hspells.shows _) (achieves_get fun c hc => ?_)
  rw [hc.next? hspells.shows.word]
  rw [if_pos]
  · refine achieves_name hspells fun s => (achieves_advance hspells.shows).andThen fun _ _ =>
      (achieves_advance hcolon).andThen fun _ _ =>
        (he.reads F D q rest hF hD hrest).andThen fun x hx => achieves_pure fun d hd => ⟨?_, hd⟩
    exact congrArg (Prod.mk m.bare) hx
  · rw [follow_word hcolon, hk]
    rfl

/-- The entry is read back in front of what may follow, and does not look like the end
of the projection. -/
structure ReadsEntry (g : Grammar) (ps : List String) (p : Name × Expr) : Prop where
  reads : ∀ F D q rest, weight ps < F → D + 2 * weight ps + 1 ≤ g.limit →
    (follow rest).isClosing = true →
    Achieves (On (ps ++ rest) D q) (projection (expression g F))
      fun x d => bareEntry x = bareEntry p ∧ d.On rest D q
  ne_nil : ps ≠ []
  starts : follow ps ≠ .closeBrace ∧ follow ps ≠ .closeParen

/-- Entries that are read back are read back as a projection, between braces or
between parentheses. -/
theorem ReadsPrimary.entries {pieces : Name × Expr → List String} {o c : String}
    (hbrackets : (o, c) = ("\x7b", "\x7d") ∨ (o, c) = ("(", ")"))
    (hlength : ns.length = es.length) (hes : ∀ p ∈ ns.zip es, ReadsEntry g (pieces p) p) :
    ReadsPrimary g ("new" :: enclosed o ((ns.zip es).map pieces) c)
      (.newRecord (ns.map Name.bare) (Expr.bareAll es) (.empty 0)) := by
  intro F fuel D q rest hF hfuel hD _
  have hnew : TokenKind.newWord.Shows "new" := TokenKind.shows_keyword rfl
  have hentries : ∀ p ∈ ns.zip es, pieces p ≠ [] := fun p hp => (hes p hp).ne_nil
  have hcount := length_le_commas (List.forall_mem_map.mpr hentries)
  rw [List.length_map] at hcount
  have items {k : TokenKind} {start : Nat} (hclose : k.Shows c)
      (hk : k = .closeBrace ∨ k = .closeParen) (hF : weight (commas ((ns.zip es).map pieces)) < F)
      (hfuel : weight (commas ((ns.zip es).map pieces)) ≤ fuel)
      (hD : D + 2 * weight (commas ((ns.zip es).map pieces)) + 1 ≤ g.limit) :
      Achieves (On (commas ((ns.zip es).map pieces) ++ c :: rest) D q)
        (newRecord (expression g F) fuel start k) fun x d =>
          x.bare = .newRecord (ns.map Name.bare) (Expr.bareAll es) (.empty 0) ∧ d.On rest D q := by
    refine (achieves_listUpTo (f := bareEntry) hclose (by rcases hk with rfl | rfl <;> decide)
      (fun p hp qs hqs => ?_) (fun p hp => ⟨hentries p hp, ?_⟩) (by omega)).andThen fun xs hxs =>
        achieves_spanFrom fun s => achieves_pure fun d hd => ⟨?_, hd⟩
    · have hle := weight_le_commas (List.mem_map_of_mem (f := pieces) hp)
      refine (hes p hp).reads F D q qs (by omega) (by omega) ?_
      rcases hqs with hqs | hqs <;> rw [hqs]
      · rfl
      · rcases hk with rfl | rfl <;> rfl
    · rcases hk with rfl | rfl
      · exact (hes p hp).starts.1
      · exact (hes p hp).starts.2
    · obtain ⟨hnames, hvalues⟩ := bare_entries hlength hxs
      simp only [Expr.bare, Expr.bareAll_eq_map, hnames, hvalues]
  rcases hbrackets with hbrackets | hbrackets <;> obtain ⟨rfl, rfl⟩ := Prod.mk.inj hbrackets
  · have hopen : TokenKind.openBrace.Shows "\x7b" := TokenKind.shows_symbol rfl
    have hclose : TokenKind.closeBrace.Shows "\x7d" := TokenKind.shows_symbol rfl
    rw [weight_word hnew, weight_enclosed hopen hclose] at hF hfuel hD
    rw [List.cons_append, enclosed_append]
    refine achieves_current hnew fun t _ hk _ => ?_
    rw [hk]
    refine achieves_current hnew fun t _ _ _ => (achieves_advance hnew).andThen fun _ _ =>
      achieves_current hopen fun t _ hk _ => ?_
    rw [hk]
    exact (achieves_advance hopen).andThen fun _ _ =>
      items hclose (.inl rfl) (by omega) (by omega) (by omega)
  · have hopen : TokenKind.openParen.Shows "(" := TokenKind.shows_symbol rfl
    have hclose : TokenKind.closeParen.Shows ")" := TokenKind.shows_symbol rfl
    rw [weight_word hnew, weight_enclosed hopen hclose] at hF hfuel hD
    rw [List.cons_append, enclosed_append]
    refine achieves_current hnew fun t _ hk _ => ?_
    rw [hk]
    refine achieves_current hnew fun t _ _ _ => (achieves_advance hnew).andThen fun _ _ =>
      achieves_current hopen fun t _ hk _ => ?_
    rw [hk]
    exact (achieves_advance hopen).andThen fun _ _ =>
      items hclose (.inr rfl) (by omega) (by omega) (by omega)

theorem ReadsPrimary.newRecord (hlength : ns.length = es.length) (hns : ∀ n ∈ ns, Named n.text)
    (hes : ∀ e ∈ es, ReadsBack g e) :
    ReadsPrimary g ("new" :: enclosed "\x7b"
      (ns.zipWith (fun n ps => n.text :: ":" :: ps) (Expr.piecesAll es)) "\x7d")
      (.newRecord (ns.map Name.bare) (Expr.bareAll es) (.empty 0)) := by
  have hcolon : TokenKind.colon.Shows ":" := TokenKind.shows_symbol rfl
  have htexts : ns.zipWith (fun n ps => n.text :: ":" :: ps) (Expr.piecesAll es) =
      (ns.zip es).map entryPieces := by
    rw [Expr.piecesAll_eq_map, List.zipWith_map_right]
    exact (List.map_zip_eq_zipWith (f := entryPieces)).symm
  rw [htexts]
  refine .entries (.inl rfl) hlength fun p hp => ?_
  obtain ⟨hn, he⟩ := List.of_mem_zip hp
  obtain ⟨k, hk, hspells⟩ := hns _ hn
  refine ⟨fun F D q rest hF hD hrest => ?_, List.cons_ne_nil _ _, ?_⟩
  · rw [entryPieces, weight_word hspells.shows, weight_word hcolon] at hF hD
    exact achieves_projection ⟨k, hk, hspells⟩ (hes _ he) (by omega) (by omega) hrest
  · rw [entryPieces, follow_word hspells.shows]
    constructor <;> rintro rfl <;> cases hk

/-- The elements of an array are read back. -/
theorem achieves_newArray {start : Nat} {type : Option TypeName} (hes : ∀ e ∈ es, ReadsBack g e)
    (hF : weight (commas (Expr.piecesAll es)) < F)
    (hfuel : weight (commas (Expr.piecesAll es)) ≤ fuel + 1)
    (hD : D + 2 * weight (commas (Expr.piecesAll es)) + 1 ≤ g.limit) :
    Achieves (On (enclosed "\x7b" (Expr.piecesAll es) "\x7d" ++ rest) D q)
      (newArray (expression g F) fuel start type) fun x d =>
        x.bare = .newArray (type.map TypeName.bare) (Expr.bareAll es) (.empty 0) ∧
          d.On rest D q := by
  have hopen : TokenKind.openBrace.Shows "\x7b" := TokenKind.shows_symbol rfl
  have hclose : TokenKind.closeBrace.Shows "\x7d" := TokenKind.shows_symbol rfl
  rw [enclosed_append]
  refine (achieves_expect hopen).andThen fun _ _ =>
    (ReadsBack.arguments hes hclose rfl (by decide) hF hfuel hD).andThen fun xs hxs =>
      achieves_spanFrom fun s => achieves_pure fun d hd => ⟨?_, hd⟩
  simp only [Expr.bare, hxs]

theorem ReadsPrimary.newArray {type : Option TypeName}
    (htype : ∀ t ∈ type, TypeName.Elementary t) (hes : ∀ e ∈ es, ReadsBack g e) :
    ReadsPrimary g ("new" :: ((type.map (·.name.text)).toList ++
      "[" :: "]" :: enclosed "\x7b" (Expr.piecesAll es) "\x7d"))
      (.newArray (type.map TypeName.bare) (Expr.bareAll es) (.empty 0)) := by
  intro F fuel D q rest hF hfuel hD _
  have hopen : TokenKind.openBrace.Shows "\x7b" := TokenKind.shows_symbol rfl
  have hclose : TokenKind.closeBrace.Shows "\x7d" := TokenKind.shows_symbol rfl
  have hopen' : TokenKind.openBracket.Shows "[" := TokenKind.shows_symbol rfl
  have hclose' : TokenKind.closeBracket.Shows "]" := TokenKind.shows_symbol rfl
  have hnew : TokenKind.newWord.Shows "new" := TokenKind.shows_keyword rfl
  rw [weight_word hnew, weight_append, weight_word hopen', weight_word hclose',
    weight_enclosed hopen hclose] at hF hfuel hD
  rw [List.cons_append, List.append_assoc, List.cons_append, List.cons_append]
  refine achieves_current hnew fun t _ hk _ => ?_
  rw [hk]
  refine achieves_current hnew fun t _ _ _ => (achieves_advance hnew).andThen fun _ _ => ?_
  cases type with
  | none =>
    refine achieves_current hopen' fun t _ hk _ => ?_
    rw [hk]
    exact (achieves_advance hopen').andThen fun _ _ => (achieves_expect hclose').andThen fun _ _ =>
      achieves_newArray hes (by omega) (by omega) (by omega)
  | some type =>
    obtain ⟨hname, p, hknown, hfind⟩ := htype type rfl
    refine achieves_current hname.shows fun t ht hk hwritten => ?_
    have hvalue : t.value = type.name.text := ht.value_eq hwritten hname
    rw [hk, hvalue, hfind]
    refine (achieves_advance hname.shows).andThen fun _ _ =>
      achieves_kind (follow_word hopen' _) ?_
    rw [if_pos (beq_self_eq_true _)]
    refine (achieves_advance hopen').andThen fun _ _ => (achieves_expect hclose').andThen fun _ _ =>
      (achieves_newArray hes (by omega) (by omega) (by omega)).mono fun x d h => ⟨?_, h.2⟩
    rw [h.1, Option.map_some, Option.map_some, TypeName.bare, TypeName.bare, hknown]
    rfl

/-! ### Suffixes -/

namespace ReadsSuffixed

theorem operand (h : ReadsSuffixed g ps b) (hnil : ps ≠ []) : ReadsOperand g ps b := by
  intro F fuel D q rest hF hfuel hD hrest
  have hpos := weight_pos hnil
  obtain ⟨fuel, rfl⟩ : ∃ fuel', fuel = fuel' + 1 := ⟨fuel - 1, by omega⟩
  refine h F fuel D q rest rest (·.bare = b) hF hfuel hD
    (fun heq => by rw [heq] at hrest; cases hrest) fun j fuel' x hx _ _ => ?_
  exact fun c hc => ⟨x, c, suffixChain_stops (hc.kind.symm ▸ hrest), hx, j, hc⟩

/-- Behind the target the loop reads one more link. -/
theorem link (suffix : Reader Expr → Nat → Expr → Reader Expr) (h : ReadsSuffixed g ps b)
    (hqs : 2 ≤ weight qs) (hfirst : follow qs ≠ .openParen)
    (hchain : ∀ expr fuel x (c : Cursor), c.current.kind = follow qs →
      suffixChain g expr (fuel + 1) x c =
        (charge g.limit >>= fun _ => suffix expr fuel x >>= suffixChain g expr fuel) c)
    (hlink : ∀ F fuel D q rest x, x.bare = b → weight qs ≤ F → weight qs ≤ fuel + 1 →
      D + 2 * weight qs ≤ g.limit → follow rest ≠ .openParen →
      Achieves (On (qs ++ rest) D q) (suffix (expression g F) fuel x)
        fun y d => y.bare = b' ∧ d.On rest D q) :
    ReadsSuffixed g (ps ++ qs) b' := by
  intro F fuel D q rest R Q hF hfuel hD hrest hgo
  have hnil : qs ≠ [] := by
    rintro rfl
    exact absurd hqs (by decide)
  rw [weight_append] at hF hfuel hD hgo
  rw [List.append_assoc]
  refine h F fuel D q _ R Q (by omega) (by omega) (by omega)
    (follow_append hnil rest ▸ hfirst) fun j fuel' x hx hj hsum => ?_
  obtain ⟨fuel', rfl⟩ : ∃ i, fuel' = i + 1 := ⟨fuel' - 1, by omega⟩
  have hread : Achieves (On (qs ++ rest) (D + j) j)
      (charge g.limit >>= fun _ => suffix (expression g F) fuel' x >>=
        suffixChain g (expression g F) fuel')
      fun y d => Q y ∧ ∃ i, d.On R (D + i) i :=
    (achieves_charge (by omega)).andThen fun _ _ =>
      (hlink F fuel' (D + j + 1) (j + 1) rest x hx (by omega) (by omega) (by omega) hrest).andThen
        fun y hy => hgo (j + 1) fuel' y hy (by omega) (by omega)
  intro c hc
  rw [hchain _ _ _ _ (hc.kind.trans (follow_append hnil rest))]
  exact hread c hc

/-- A link that starts with a point. -/
theorem dot (h : ReadsSuffixed g ps b) (hqs : 1 ≤ weight qs)
    (hlink : ∀ F fuel D q rest x, x.bare = b → weight qs < F → weight qs ≤ fuel →
      D + 2 * weight qs ≤ g.limit → follow rest ≠ .openParen →
      Achieves (On ("." :: (qs ++ rest)) D q) (memberSuffix (expression g F) fuel x)
        fun y d => y.bare = b' ∧ d.On rest D q) :
    ReadsSuffixed g (ps ++ "." :: qs) b' := by
  have hdot : TokenKind.dot.Shows "." := TokenKind.shows_symbol rfl
  have hfollow : follow ("." :: qs) = .dot := follow_word hdot qs
  have hweight : weight ("." :: qs) = weight qs + 1 := weight_word hdot qs
  refine link memberSuffix h (by omega) (by rw [hfollow]; decide)
    (fun expr fuel x c hk => ?_) fun F fuel D q rest x hx hF hfuel hD hrest =>
      hlink F fuel D q rest x hx (by omega) (by omega) (by omega) hrest
  rw [suffixChain, kind_bind, hk, hfollow]

theorem member (h : ReadsSuffixed g ps b) (hn : Named n) :
    ReadsSuffixed g (ps ++ [".", n]) (.member b ⟨n, .empty 0⟩ (.empty 0)) := by
  have hdot : TokenKind.dot.Shows "." := TokenKind.shows_symbol rfl
  obtain ⟨k, hk, hspells⟩ := hn
  refine dot h (weight_pos (List.cons_ne_nil _ _)) fun F fuel D q rest x hx _ _ _ hrest => ?_
  refine (achieves_advance hdot).andThen fun _ _ => achieves_kind (follow_word hspells.shows _) ?_
  rw [hk, if_neg (by decide)]
  refine achieves_name hspells fun s => (achieves_advance hspells.shows).andThen fun _ _ =>
    achieves_kind (Eq.refl (follow rest)) ?_
  rw [if_neg (mt beq_iff_eq.mp hrest)]
  refine achieves_pure fun d hd => ⟨?_, hd⟩
  rw [Expr.bare, hx]
  rfl

theorem callOn (h : ReadsSuffixed g ps b) (hn : Named n) (hes : ∀ e ∈ es, ReadsBack g e) :
    ReadsSuffixed g (ps ++ "." :: n :: enclosed "(" (Expr.piecesAll es) ")")
      (.callOn b ⟨n, .empty 0⟩ (Expr.bareAll es) (.empty 0)) := by
  have hdot : TokenKind.dot.Shows "." := TokenKind.shows_symbol rfl
  have hopen : TokenKind.openParen.Shows "(" := TokenKind.shows_symbol rfl
  have hclose : TokenKind.closeParen.Shows ")" := TokenKind.shows_symbol rfl
  obtain ⟨k, hk, hspells⟩ := hn
  refine dot h (weight_pos (List.cons_ne_nil _ _)) fun F fuel D q rest x hx hF hfuel hD _ => ?_
  rw [weight_word hspells.shows] at hF hfuel hD
  refine (achieves_advance hdot).andThen fun _ _ => achieves_kind (follow_word hspells.shows _) ?_
  rw [hk, if_neg (by decide)]
  refine achieves_name hspells fun s => (achieves_advance hspells.shows).andThen fun _ _ =>
    achieves_kind (follow_word hopen _) ?_
  rw [if_pos (beq_self_eq_true _)]
  refine ReadsBack.enclosed hes hopen hclose rfl (by decide) (by omega) (by omega) (by omega)
    fun xs hxs => achieves_spanFrom fun s' => achieves_pure fun d hd => ⟨?_, hd⟩
  simp only [Expr.bare, Name.bare, hx, hxs]

/-- An indexer has an argument at least. -/
theorem index (h : ReadsSuffixed g ps b) (hnil : es ≠ []) (hes : ∀ e ∈ es, ReadsBack g e) :
    ReadsSuffixed g (ps ++ enclosed "[" (Expr.piecesAll es) "]")
      (.index b (Expr.bareAll es) (.empty 0)) := by
  have hopen : TokenKind.openBracket.Shows "[" := TokenKind.shows_symbol rfl
  have hclose : TokenKind.closeBracket.Shows "]" := TokenKind.shows_symbol rfl
  have hw : weight (enclosed "[" (Expr.piecesAll es) "]") =
      weight (commas (Expr.piecesAll es)) + 2 := weight_enclosed hopen hclose
  have hfollow : follow (enclosed "[" (Expr.piecesAll es) "]") = .openBracket :=
    follow_word hopen _
  refine link indexSuffix h (by omega) (by rw [hfollow]; decide)
    (fun expr fuel x c hk => ?_) fun F fuel D q rest x hx hF hfuel hD hrest => ?_
  · rw [suffixChain, kind_bind, hk, hfollow]
  · refine achieves_current hopen fun t _ _ _ => ReadsBack.enclosed hes hopen hclose rfl (by decide)
      hF hfuel hD fun xs hxs => ?_
    have hxsnil : xs.isEmpty = false := by
      cases xs with
      | nil => cases es <;> first | exact absurd rfl hnil | cases hxs
      | cons => rfl
    rw [if_neg (by rw [hxsnil]; decide)]
    refine achieves_spanFrom fun s' => achieves_pure fun d hd => ⟨?_, hd⟩
    simp only [Expr.bare, hx, hxs]

end ReadsSuffixed

end QueryExpr
