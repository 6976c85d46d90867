/-
# The tokens of a rendered expression

A word that is a token as a whole is read as that token in front of a blank, so
that a text of pieces with blanks between them has the tokens that the words of
the pieces are.

Key definitions: `Spells`, `Word`, `Piece`, `TokenKind.Shows`.
Key theorems: `readTokens_word`, `spells_spaced`, `Derives.pieces`,
`Derives.spells`.
-/
import QueryExpr.Proofs.RenderedExpr

namespace QueryExpr

open Lexeme

/-- The text has tokens that are written as given, and no fault. -/
def Spells (text : List Char) (ws : List String) : Prop :=
  (tokens text).list.map Token.written = ws ∧ ∃ stop, (tokens text).ending = .ok stop

instance (text : List Char) (ws : List String) : Decidable (Spells text ws) :=
  decidable_of_iff ((tokens text).list.map Token.written = ws ∧
    (tokens text).ending.toOption.isSome = true) <| by
      unfold Spells
      cases (tokens text).ending with
      | error f => simp [Except.toOption]
      | ok stop => simp [Except.toOption]

/-- A word that is a token as a whole. -/
def Word (w : String) : Prop := (whole? w.toList).isSome = true

/-- A piece that is one word, or a minus sign and a word. -/
def Piece (p : String) : Prop := Word p ∨ ∃ w, Word w ∧ p = "-" ++ w

instance (w : String) : Decidable (Word w) := inferInstanceAs (Decidable (_ = _))

variable {cs rest : List Char} {w p : String}

theorem readTokens_skip (position : Nat) (cs rest : List Char) :
    readTokens position cs.length (cs ++ rest) = readTokens (position + cs.length) 0 rest := by
  induction cs generalizing position with
  | nil => rfl
  | cons c cs ih =>
    rw [List.length_cons, List.cons_append, readTokens, ih]
    congr 1
    omega

theorem readTokens_blank (position : Nat) (rest : List Char) :
    readTokens position 0 (' ' :: rest) = readTokens (position + 1) 0 rest := by
  rw [readTokens, if_pos (by decide +kernel)]

/-- A token is read first, and then what is behind it. -/
theorem readTokens_of_lexeme (position : Nat) (cs : List Char) {c : Char} {l : Lexeme}
    (hb : ¬ Text.isBlank c = true) (h : lexeme c (cs ++ rest) = .ok l)
    (hl : l.length = cs.length + 1) :
    (readTokens position 0 (c :: (cs ++ rest))).list.map Token.written =
      String.ofList (c :: cs) ::
        (readTokens (position + (cs.length + 1)) 0 rest).list.map Token.written ∧
    (readTokens position 0 (c :: (cs ++ rest))).ending =
      (readTokens (position + (cs.length + 1)) 0 rest).ending := by
  have hskip : readTokens (position + 1) (l.length - 1) (cs ++ rest) =
      readTokens (position + (cs.length + 1)) 0 rest := by
    rw [hl, Nat.add_sub_cancel, readTokens_skip]
    congr 1
    omega
  have htake : (c :: (cs ++ rest)).take l.length = c :: cs := by
    rw [hl, List.take_succ_cons, List.take_left]
  rw [readTokens, if_neg hb, h]
  dsimp only
  rw [hskip]
  exact ⟨congrArg (fun cs => String.ofList cs :: _) htake, rfl⟩

theorem Word.cons (h : Word w) :
    ∃ c cs k v, w.toList = c :: cs ∧ whole? (c :: cs) = some (k, v) := by
  unfold Word at h
  cases hw : w.toList with
  | nil => rw [hw] at h; cases h
  | cons c cs =>
    rw [hw] at h
    obtain ⟨⟨k, v⟩, hkv⟩ := Option.isSome_iff_exists.mp h
    exact ⟨c, cs, k, v, rfl, hkv⟩

/-- A word in front of a blank is the token that it is as a whole. -/
theorem readTokens_word (position : Nat) (h : Word w) (hr : Apart rest) :
    (readTokens position 0 (w.toList ++ rest)).list.map Token.written =
      w :: (readTokens (position + w.toList.length) 0 rest).list.map Token.written ∧
    (readTokens position 0 (w.toList ++ rest)).ending =
      (readTokens (position + w.toList.length) 0 rest).ending := by
  obtain ⟨c, cs, k, v, hw, hwhole⟩ := h.cons
  obtain ⟨hb, hlex⟩ := whole?_cons hwhole
  obtain ⟨n, hn, -, hcut⟩ := lexeme_cut hlex
  obtain rfl : cs.length = n := Nat.succ.inj hn
  have hlex' := hcut rest hr
  rw [List.take_length] at hlex'
  have hlist : String.ofList (c :: cs) = w := by rw [← hw, String.ofList_toList]
  rw [hw, ← hlist]
  exact readTokens_of_lexeme position cs hb hlex' rfl

theorem lexeme_minus (cs : List Char) : lexeme '-' cs = .ok ⟨.minus, [], 1⟩ := rfl

theorem wordsOf_word (h : Word w) : wordsOf w = [w] := by
  unfold wordsOf
  split
  · rename_i c cs hw
    unfold Word at h
    rw [hw] at h
    obtain ⟨⟨k, v⟩, hkv⟩ := Option.isSome_iff_exists.mp h
    have hlex := (whole?_cons hkv).2
    rw [lexeme_minus] at hlex
    cases hlex
  · rfl

theorem wordsOf_minus (h : Word w) : wordsOf ("-" ++ w) = ["-", w] := by
  obtain ⟨c, cs, k, v, hw, -⟩ := h.cons
  have hlist : ("-" ++ w).toList = '-' :: c :: cs := by
    rw [String.toList_append, hw]
    rfl
  unfold wordsOf
  rw [hlist, ← String.ofList_toList (s := w), hw]
  rfl

/-- A piece in front of a blank is read as its words. -/
theorem readTokens_piece (position : Nat) (h : Piece p) (hr : Apart rest) :
    (readTokens position 0 (p.toList ++ rest)).list.map Token.written =
      wordsOf p ++ (readTokens (position + p.toList.length) 0 rest).list.map Token.written ∧
    (readTokens position 0 (p.toList ++ rest)).ending =
      (readTokens (position + p.toList.length) 0 rest).ending := by
  rcases h with h | ⟨w, h, rfl⟩
  · rw [wordsOf_word h]
    exact readTokens_word position h hr
  · have hlist : ("-" ++ w).toList = '-' :: w.toList := by rw [String.toList_append]; rfl
    have hminus : ¬ Text.isBlank '-' = true := by decide +kernel
    obtain ⟨h1, h2⟩ := readTokens_of_lexeme position [] hminus
      (lexeme_minus (w.toList ++ rest)) rfl
    obtain ⟨h3, h4⟩ := readTokens_word (position + 1) h hr
    rw [wordsOf_minus h, hlist, List.length_cons, Nat.add_comm w.toList.length 1, ← Nat.add_assoc]
    refine ⟨h1.trans ?_, h2.trans h4⟩
    exact congrArg ("-" :: ·) h3

/-- **Pieces with blanks between them are read as the words of the pieces.** -/
theorem spells_spaced {ps : List String} (h : ∀ p ∈ ps, Piece p) :
    Spells (spaced ps) (ps.flatMap wordsOf) := by
  suffices hread : ∀ position, (readTokens position 0 (spaced ps)).list.map Token.written =
      ps.flatMap wordsOf ∧ ∃ stop, (readTokens position 0 (spaced ps)).ending = .ok stop from
    hread 0
  induction ps with
  | nil => exact fun position => ⟨rfl, position, rfl⟩
  | cons p ps ih =>
    intro position
    have hp := h p List.mem_cons_self
    cases ps with
    | nil =>
      obtain ⟨h1, h2⟩ := readTokens_piece position hp apart_nil
      rw [List.append_nil, readTokens_nil] at h1 h2
      exact ⟨h1, _, h2⟩
    | cons p' ps =>
      have ih := ih fun p hp => h p (List.mem_cons_of_mem _ hp)
      obtain ⟨h1, h2⟩ := readTokens_piece position hp
        (apart_blank (spaced (p' :: ps)))
      rw [readTokens_blank] at h1 h2
      obtain ⟨h3, stop, h4⟩ := ih (position + p.toList.length + 1)
      exact ⟨h1.trans (congrArg (wordsOf p ++ ·) h3), stop, h2.trans h4⟩

/-! ### The words of what is read -/

namespace TokenKind

variable {k : TokenKind}

/-- A word that is a token of the kind, whatever the token stands for. -/
def Shows (k : TokenKind) (w : String) : Prop := (whole? w.toList).map (·.1) = some k

instance (k : TokenKind) (w : String) : Decidable (k.Shows w) :=
  inferInstanceAs (Decidable (_ = _))

theorem Shows.word (h : k.Shows w) : Word w := by
  unfold Word
  obtain ⟨x, hx, -⟩ := Option.map_eq_some_iff.mp h
  rw [hx]
  rfl

theorem Spells.shows (h : k.Spells w) : k.Shows w := by
  unfold Shows
  rw [h]
  rfl

theorem shows_symbol (h : k.symbolText? = some w) : k.Shows w := by
  cases k <;> cases h <;> decide +kernel

theorem shows_keyword (h : k.keywordText? = some w) : k.Shows w := by
  cases k <;> cases h <;> decide +kernel

end TokenKind

/-- The token that a binary operator is first spelled with. -/
theorem BinaryOp.shows : ∀ op : BinaryOp,
    ∃ k : TokenKind, k.Shows op.symbol ∧ BinaryOp.ofToken? k = some op
  | .coalesce => ⟨.doubleQuestion, TokenKind.shows_symbol rfl, rfl⟩
  | .or => ⟨.doubleBar, TokenKind.shows_symbol rfl, rfl⟩
  | .and => ⟨.doubleAmpersand, TokenKind.shows_symbol rfl, rfl⟩
  | .equal => ⟨.doubleEqual, TokenKind.shows_symbol rfl, rfl⟩
  | .notEqual => ⟨.notEqual, TokenKind.shows_symbol rfl, rfl⟩
  | .less => ⟨.less, TokenKind.shows_symbol rfl, rfl⟩
  | .lessEqual => ⟨.lessEqual, TokenKind.shows_symbol rfl, rfl⟩
  | .greater => ⟨.greater, TokenKind.shows_symbol rfl, rfl⟩
  | .greaterEqual => ⟨.greaterEqual, TokenKind.shows_symbol rfl, rfl⟩
  | .add => ⟨.plus, TokenKind.shows_symbol rfl, rfl⟩
  | .subtract => ⟨.minus, TokenKind.shows_symbol rfl, rfl⟩
  | .multiply => ⟨.asterisk, TokenKind.shows_symbol rfl, rfl⟩
  | .divide => ⟨.slash, TokenKind.shows_symbol rfl, rfl⟩
  | .modulo => ⟨.percent, TokenKind.shows_symbol rfl, rfl⟩

theorem UnaryOp.shows : ∀ op : UnaryOp,
    ∃ k : TokenKind, k.Shows op.symbol ∧ UnaryOp.ofToken? k = some op
  | .negate => ⟨.minus, TokenKind.shows_symbol rfl, rfl⟩
  | .not => ⟨.exclamation, TokenKind.shows_symbol rfl, rfl⟩

theorem Token.Genuine.shows {t : Token} (h : t.Genuine) : t.kind.Shows t.written := by
  unfold TokenKind.Shows
  rw [h]
  rfl

theorem Named.word {w : String} (h : Named w) : Word w := h.elim fun _ h => h.2.shows.word

theorem Literal.Spelled.piece {v : Literal} {w : String} (h : v.Spelled w) : Piece w := by
  cases h with
  | negative hg => exact .inr ⟨_, hg.shows.word, rfl⟩
  | number hg | string hg | char hg | true hg | false hg | null hg =>
    exact .inl hg.shows.word

theorem piece_symbol {k : TokenKind} (h : k.symbolText? = some w) : Piece w :=
  .inl (TokenKind.shows_symbol h).word

theorem piece_keyword {k : TokenKind} (h : k.keywordText? = some w) : Piece w :=
  .inl (TokenKind.shows_keyword h).word

/-! ### The pieces of what is read -/

section
variable {ps : List String} {pss : List (List String)} {es : List Expr}

theorem pieces_commas (h : ∀ ps ∈ pss, ∀ p ∈ ps, Piece p) : ∀ p ∈ commas pss, Piece p := by
  induction pss with
  | nil => exact List.forall_mem_nil _
  | cons ps pss ih =>
    have hps := h ps List.mem_cons_self
    have ih := ih fun ps hps => h ps (List.mem_cons_of_mem _ hps)
    cases pss with
    | nil => exact hps
    | cons ps' pss =>
      exact List.forall_mem_append.mpr
        ⟨hps, List.forall_mem_cons.mpr ⟨piece_symbol (k := .comma) rfl, ih⟩⟩

theorem pieces_enclosed {o c : String} (ho : Piece o) (hc : Piece c)
    (h : ∀ ps ∈ pss, ∀ p ∈ ps, Piece p) : ∀ p ∈ enclosed o pss c, Piece p :=
  List.forall_mem_cons.mpr ⟨ho, List.forall_mem_append.mpr
    ⟨pieces_commas h, List.forall_mem_singleton.mpr hc⟩⟩

theorem pieces_wrapped (needed : Bool) (h : ∀ p ∈ ps, Piece p) :
    ∀ p ∈ wrapped needed ps, Piece p := by
  cases needed with
  | false => exact h
  | true =>
    exact List.forall_mem_cons.mpr ⟨piece_symbol (k := .openParen) rfl,
      List.forall_mem_append.mpr
        ⟨h, List.forall_mem_singleton.mpr (piece_symbol (k := .closeParen) rfl)⟩⟩

theorem pieces_all (h : ∀ e ∈ es, ∀ p ∈ e.pieces, Piece p) :
    ∀ ps ∈ Expr.piecesAll es, ∀ p ∈ ps, Piece p := by
  rw [Expr.piecesAll_eq_map]
  exact List.forall_mem_map.mpr h

theorem pieces_entries {ns : List Name} (hns : ∀ n ∈ ns, Named n.text)
    (h : ∀ e ∈ es, ∀ p ∈ e.pieces, Piece p) :
    ∀ ps ∈ ns.zipWith (fun n ps => n.text :: ":" :: ps) (Expr.piecesAll es),
      ∀ p ∈ ps, Piece p := by
  rw [Expr.piecesAll_eq_map]
  intro ps hps
  obtain ⟨i, hi, rfl⟩ := List.mem_iff_getElem.mp hps
  rw [List.getElem_zipWith, List.forall_mem_cons, List.forall_mem_cons, List.getElem_map]
  exact ⟨.inl (hns _ (List.getElem_mem _)).word, piece_symbol (k := .colon) rfl,
    h _ (List.getElem_mem _)⟩

end

/-- What is read is written with pieces. -/
theorem Derives.pieces {g : Grammar} {form : Form} {e : Expr} (h : Derives g form e) :
    ∀ p ∈ e.pieces, Piece p := by
  have hopen : Piece "(" := piece_symbol (k := .openParen) rfl
  have hclose : Piece ")" := piece_symbol (k := .closeParen) rfl
  have hopen' : Piece "[" := piece_symbol (k := .openBracket) rfl
  have hclose' : Piece "]" := piece_symbol (k := .closeBracket) rfl
  have hbrace : Piece "\x7b" := piece_symbol (k := .openBrace) rfl
  have hbrace' : Piece "\x7d" := piece_symbol (k := .closeBrace) rfl
  have hdot : Piece "." := piece_symbol (k := .dot) rfl
  have hcolon : Piece ":" := piece_symbol (k := .colon) rfl
  have hquestion : Piece "?" := piece_symbol (k := .question) rfl
  have hin : Piece "in" := piece_keyword (k := .inWord) rfl
  have hnew : Piece "new" := piece_keyword (k := .newWord) rfl
  have nil : ∀ p ∈ ([] : List String), Piece p := List.forall_mem_nil _
  induction h <;> try simp only [Expr.pieces, List.forall_mem_append, List.forall_mem_cons]
  case parens ih | target ih | operand ih | chain ih | expression ih => exact ih
  case literal hv => exact ⟨hv.piece, nil⟩
  case it => exact ⟨piece_keyword (k := .itWord) rfl, nil⟩
  case name hn _ | typeName hn _ => exact ⟨.inl hn.shows.word, nil⟩
  case call hn _ _ ih | conversion hn _ _ ih =>
    exact ⟨.inl hn.shows.word, pieces_enclosed hopen hclose (pieces_all ih)⟩
  case iif ih =>
    exact ⟨piece_keyword (k := .iifWord) rfl, pieces_enclosed hopen hclose (pieces_all ih)⟩
  case newRecord hns _ ih => exact ⟨hnew, pieces_enclosed hbrace hbrace' (pieces_entries hns ih)⟩
  case newArray type _ _ ht _ ih =>
    refine ⟨hnew, ?_, hopen', hclose', pieces_enclosed hbrace hbrace' (pieces_all ih)⟩
    cases type with
    | none => exact nil
    | some t => exact List.forall_mem_singleton.mpr (.inl (ht t rfl).1.shows.word)
  case member hn ih => exact ⟨pieces_wrapped _ ih, hdot, .inl hn.word, nil⟩
  case callOn hn _ ih ihs =>
    exact ⟨pieces_wrapped _ ih, hdot, .inl hn.word, pieces_enclosed hopen hclose (pieces_all ihs)⟩
  case index ih ihs =>
    exact ⟨pieces_wrapped _ ih, pieces_enclosed hopen' hclose' (pieces_all ihs)⟩
  case unary op _ _ _ _ ih =>
    obtain ⟨k, hk, -⟩ := op.shows
    exact ⟨.inl hk.word, pieces_wrapped _ ih⟩
  case binary op _ _ _ _ _ _ _ ih ih' =>
    obtain ⟨k, hk, -⟩ := op.shows
    exact ⟨pieces_wrapped _ ih, .inl hk.word, pieces_wrapped _ ih'⟩
  case inList ih ihs =>
    exact ⟨pieces_wrapped _ ih, hin, pieces_enclosed hopen hclose (pieces_all ihs)⟩
  case inSource ih ih' => exact ⟨pieces_wrapped _ ih, hin, ih'⟩
  case conditional ih iha ihb =>
    exact ⟨pieces_wrapped _ ih, hquestion, pieces_wrapped _ iha, hcolon, pieces_wrapped _ ihb⟩

/-- **The text of what is read has the tokens that its words are.** -/
theorem Derives.spells {g : Grammar} {form : Form} {e : Expr} (h : Derives g form e) :
    Spells e.rendered e.words := spells_spaced h.pieces

end QueryExpr
