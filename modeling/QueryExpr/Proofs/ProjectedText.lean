/-
# Projections with a member behind them

The entries of a projection may name their values behind the word `as`. A value that
starts with a name does not go on with a colon, so that such an entry is not taken for
one with its name in front. A member behind the projection is a suffix of it.

Key definitions: `Expr.projected`, `Expr.projectedPieces`.
Key theorems: `Derives.unlabelled`, `ReadsEntry.named`, `Expr.spells_projected`,
`Expr.readAs_projected`.
-/
import QueryExpr.Proofs.ListedMembership

namespace QueryExpr

open Step (Achieves achieves_pure)
open Cursor (On)
open Reader

namespace Expr

/-- The member of a name of the projection of the expressions under their names. -/
def projected (entries : List (Expr × String)) (name : String) : Expr :=
  .member (.newRecord (entries.map fun p => ⟨p.2, .empty 0⟩) (entries.map (·.1)) (.empty 0))
    ⟨name, .empty 0⟩ (.empty 0)

/-- The pieces of the projection with the word `as` in each entry, and of the member. -/
def projectedPieces (entries : List (Expr × String)) (name : String) : List String :=
  "new" :: enclosed "(" (entries.map fun p => p.1.pieces ++ ["as", p.2]) ")" ++ [".", name]

end Expr

variable {g : Grammar} {form : Form} {e : Expr} {ps qs : List String} {p : String}

/-! ### No colon behind a name -/

/-- Behind the first piece of what may be in parentheses no colon follows, if none
does without them and none follows all of it. -/
theorem follow_tail_wrapped {needed : Bool} {rest : List String}
    (hs : (follow ps).isClosing = false)
    (hps : ∀ p qs, ps = p :: qs → follow qs ≠ .colon) (hrest : follow rest ≠ .colon)
    (h : wrapped needed ps ++ rest = p :: qs) : follow qs ≠ .colon := by
  cases needed with
  | true =>
    have hqs : ps ++ ([")"] ++ rest) = qs := by
      rw [← List.append_assoc]
      exact (List.cons.inj h).2
    rw [← hqs, follow_append (ne_nil_of_follow hs)]
    intro heq
    rw [heq] at hs
    cases hs
  | false =>
    obtain ⟨p', qs', rfl⟩ := List.exists_cons_of_ne_nil (ne_nil_of_follow hs)
    have hqs : qs' ++ rest = qs := (List.cons.inj h).2
    rw [← hqs]
    cases qs' with
    | nil => exact hrest
    | cons q qs' =>
      rw [follow_append (List.cons_ne_nil q qs')]
      exact hps p' _ rfl

/-- **Behind the first piece of a rendered expression no colon follows.** -/
theorem Derives.unlabelled (h : Derives g form e) {p : String} {qs : List String}
    (hp : e.pieces = p :: qs) : follow qs ≠ .colon := by
  have word {k : TokenKind} {w : String} {ps : List String} (hw : k.Shows w) (hk : k ≠ .colon) :
      follow (w :: ps) ≠ .colon := by
    rwa [follow_word hw]
  have symbol {k : TokenKind} {w : String} (ps : List String) (hw : k.symbolText? = some w)
      (hk : k ≠ .colon) : follow (w :: ps) ≠ .colon := word (TokenKind.shows_symbol hw) hk
  have brackets (ps : List String) := symbol (k := .openParen) ps rfl (by decide)
  induction h generalizing p qs with
  | literal | it | name | typeName =>
    obtain ⟨-, rfl⟩ := List.cons.inj hp
    exact (by decide : TokenKind.endOfText ≠ .colon)
  | call | iif | conversion =>
    obtain ⟨-, rfl⟩ := List.cons.inj hp
    exact brackets _
  | newRecord =>
    obtain ⟨-, rfl⟩ := List.cons.inj hp
    exact symbol (k := .openBrace) _ rfl (by decide)
  | @newArray _ type _ _ htype =>
    obtain ⟨-, rfl⟩ := List.cons.inj hp
    cases type with
    | none => exact symbol (k := .openBracket) _ rfl (by decide)
    | some t => exact word (htype t rfl).1.shows (by decide)
  | parens _ ih | target _ ih | operand _ ih | chain _ ih | expression _ ih => exact ih hp
  | member ht _ ih =>
    exact follow_tail_wrapped ht.starts (fun _ _ => ih) (symbol (k := .dot) _ rfl (by decide)) hp
  | callOn ht _ _ ih =>
    exact follow_tail_wrapped ht.starts (fun _ _ => ih) (symbol (k := .dot) _ rfl (by decide)) hp
  | index ht _ _ ih =>
    exact follow_tail_wrapped ht.starts (fun _ _ => ih)
      (symbol (k := .openBracket) _ rfl (by decide)) hp
  | @unary _ _ _ op e _ _ he =>
    obtain ⟨-, rfl⟩ := List.cons.inj hp
    intro heq
    have hs := wrapped_starts (!e.isLeaf || op == .negate && e.isNumber) he.starts []
    rw [List.append_nil, heq] at hs
    cases hs
  | @binary _ _ _ _ _ _ _ _ op _ _ _ hl _ _ _ ih =>
    obtain ⟨k, hshows, hop⟩ := op.shows
    refine follow_tail_wrapped hl.starts (fun _ _ => ih) (word hshows ?_) hp
    rintro rfl
    cases hop
  | inList hl _ _ _ ih | inSource hl _ _ _ _ ih =>
    exact follow_tail_wrapped hl.starts (fun _ _ => ih)
      (word (TokenKind.shows_keyword (k := .inWord) rfl) (by decide)) hp
  | conditional hc _ _ ih =>
    exact follow_tail_wrapped hc.starts (fun _ _ => ih)
      (symbol (k := .question) _ rfl (by decide)) hp

/-! ### Entries and members -/

/-- **An entry with its name behind the word `as` is read back.** -/
theorem ReadsEntry.named {g' : Grammar} {n : String} {s : Span} (he : Derives g form e)
    (hg : g'.declared = g.declared) (hn : Named n) :
    ReadsEntry g' (e.pieces ++ ["as", n]) (⟨n, s⟩, e) := by
  have has : TokenKind.asWord.Shows "as" := TokenKind.shows_keyword rfl
  have hstarts := he.starts
  have hnil := ne_nil_of_follow hstarts
  obtain ⟨k, hk, hspells⟩ := hn
  refine ⟨fun F D q rest hF hD _ => ?_, List.append_ne_nil_of_left_ne_nil hnil _, ?_⟩
  · rw [weight_append] at hF hD
    rw [List.append_assoc]
    -- the first piece is no name in front of a colon
    refine achieves_kind rfl (achieves_get fun c hc => ?_)
    rw [if_neg]
    · refine ((he.reread hg).expression F D q ("as" :: n :: rest) (by omega) (by omega)
        (by rw [follow_word has]; rfl)).andThen fun x hx => achieves_kind (follow_word has _) ?_
      rw [if_pos (beq_self_eq_true _)]
      refine (achieves_advance has).andThen fun _ _ => ?_
      refine achieves_kind (follow_word hspells.shows _) ?_
      rw [hk, if_neg (by decide)]
      refine achieves_name hspells fun s' => (achieves_advance hspells.shows).andThen fun _ _ =>
        achieves_pure fun d hd => ⟨?_, hd⟩
      exact congrArg (Prod.mk (⟨n, .empty 0⟩ : Name)) hx
    · rw [Bool.and_eq_true]
      rintro ⟨hname, hcolon⟩
      obtain ⟨p, qs, hp⟩ := List.exists_cons_of_ne_nil hnil
      rw [hp, List.cons_append] at hc hname
      rcases he.pieces p (by rw [hp]; exact List.mem_cons_self) with hw | ⟨w, hw, rfl⟩
      · rw [hc.next? hw] at hcolon
        have hfollow := Option.some_inj.mp (beq_iff_eq.mp hcolon)
        cases qs with
        | nil =>
          rw [List.nil_append, List.cons_append, follow_word has] at hfollow
          cases hfollow
        | cons q qs =>
          rw [follow_append (List.cons_ne_nil q qs)] at hfollow
          exact he.unlabelled hp hfollow
      · rw [follow_cons _ _ [], follow_minus hw] at hname
        cases hname
  · rw [follow_append hnil]
    constructor <;> intro heq <;> rw [heq] at hstarts <;> cases hstarts

namespace Expr

variable {declared : String → Bool} {entries : List (Expr × String)} {n : String}

/-- Each piece of a member of a projection is a word, or two with a minus sign. There is
a text with just these words. -/
theorem spells_projected (hentries : ∀ p ∈ entries, p.1.Spelt declared ∧ Named p.2)
    (hn : Named n) : Spells (spaced (projectedPieces entries n))
      ((projectedPieces entries n).flatMap wordsOf) := by
  refine spells_spaced (List.forall_mem_append.mpr ⟨List.forall_mem_cons.mpr ⟨?_, ?_⟩, ?_⟩)
  · exact piece_keyword (k := .newWord) rfl
  · refine pieces_enclosed (piece_symbol (k := .openParen) rfl)
      (piece_symbol (k := .closeParen) rfl) fun ps hps => ?_
    obtain ⟨p, hp, rfl⟩ := List.mem_map.mp hps
    obtain ⟨⟨limit, text, hparse⟩, hm⟩ := hentries p hp
    refine List.forall_mem_append.mpr ⟨(derives_of_parse hparse).pieces, ?_⟩
    exact List.forall_mem_cons.mpr ⟨piece_keyword (k := .asWord) rfl,
      List.forall_mem_singleton.mpr (.inl hm.word)⟩
  · exact List.forall_mem_cons.mpr ⟨piece_symbol (k := .dot) rfl,
      List.forall_mem_singleton.mpr (.inl hn.word)⟩

/-- A member of a projection is read back. -/
theorem reads_projected (limit : Nat) (hentries : ∀ p ∈ entries, p.1.Spelt declared ∧ Named p.2)
    (hn : Named n) :
    ReadsExpression ⟨limit, declared⟩ (projectedPieces entries n) (projected entries n).bare := by
  have hnew : TokenKind.newWord.Shows "new" := TokenKind.shows_keyword rfl
  let ns : List Name := entries.map fun p => ⟨p.2, .empty 0⟩
  let es : List Expr := entries.map (·.1)
  let pieces : Name × Expr → List String := fun p => p.2.pieces ++ ["as", p.1.text]
  have hzip : ns.zip es = entries.map fun p => ((⟨p.2, .empty 0⟩ : Name), p.1) := List.zip_map'
  have hpieces : (ns.zip es).map pieces = entries.map fun p => p.1.pieces ++ ["as", p.2] := by
    rw [hzip, List.map_map]
    rfl
  have hread : ReadsPrimary ⟨limit, declared⟩
      ("new" :: enclosed "(" (entries.map fun p => p.1.pieces ++ ["as", p.2]) ")")
      (.newRecord (ns.map Name.bare) (bareAll es) (.empty 0)) := by
    rw [← hpieces]
    refine .entries (.inr rfl) (by rw [List.length_map, List.length_map]) fun p hp => ?_
    rw [hzip] at hp
    obtain ⟨⟨e, m⟩, hmem, rfl⟩ := List.mem_map.mp hp
    obtain ⟨⟨limit', text, hparse⟩, hm⟩ := hentries _ hmem
    exact .named (derives_of_parse hparse) rfl hm
  have hmember := (hread.suffixed (List.cons_ne_nil _ _)
    (by rw [follow_word hnew]; rfl)).member hn
  exact ((hmember.operand (by simp)).chain (by simp)).expression (by simp)

/-- **A member of a projection is read as one**, from every text with its words. -/
theorem readAs_projected (hentries : ∀ p ∈ entries, p.1.Spelt declared ∧ Named p.2)
    (hn : Named n) :
    ReadAs declared (projectedPieces entries n) (projected entries n).bare :=
  readAs_of_reads fun limit => reads_projected limit hentries hn

end Expr

end QueryExpr
