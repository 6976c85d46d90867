/-
# Tokens at their places

Each token of a text is the lexeme at its place: what it is can be read off the
characters from there on. Two tokens do not overlap, and in a text without a
fault every character that is no blank belongs to one.

Key theorems: `tokens_mem`, `tokens_apart`, `exists_token`, `tokens_space`,
`tokens_word`.
-/
import QueryExpr.Proofs.PlacedReading
import QueryExpr.Proofs.TiledText
import QueryExpr.Proofs.TrimmedClauses

namespace QueryExpr

open Lexeme

/-! ### Tokens at their places -/

/-- **Every token is the lexeme at its place.** -/
theorem readTokens_mem : ∀ (position skip : Nat) (cs : List Char),
    ∀ t ∈ (readTokens position skip cs).list, ∃ n c rest l, cs.drop n = c :: rest ∧
      ¬ Text.isBlank c = true ∧ lexeme c rest = .ok l ∧
      t = .ofLexeme (position + n) (c :: rest) l
  | position, skip, [], t, ht => by
    rw [readTokens_nil] at ht
    cases ht
  | position, skip + 1, _ :: cs, t, ht => by
    obtain ⟨n, c, rest, l, hdrop, hc, hl, rfl⟩ := readTokens_mem (position + 1) skip cs t ht
    exact ⟨n + 1, c, rest, l, hdrop, hc, hl, by rw [Nat.add_assoc, Nat.add_comm 1]⟩
  | position, 0, c :: cs, t, ht => by
    have later {skip : Nat} (ht : t ∈ (readTokens (position + 1) skip cs).list) :
        ∃ n d rest l, (c :: cs).drop n = d :: rest ∧ ¬ Text.isBlank d = true ∧
          lexeme d rest = .ok l ∧ t = .ofLexeme (position + n) (d :: rest) l := by
      obtain ⟨n, d, rest, l, hdrop, hd, hl, rfl⟩ := readTokens_mem (position + 1) skip cs t ht
      exact ⟨n + 1, d, rest, l, hdrop, hd, hl, by rw [Nat.add_assoc, Nat.add_comm 1]⟩
    unfold readTokens at ht
    split at ht
    · exact later ht
    · rename_i hc
      split at ht
      · cases ht
      · rename_i l hl
        rcases List.mem_cons.mp ht with rfl | ht
        · exact ⟨0, c, cs, l, rfl, hc, hl, rfl⟩
        · exact later ht

theorem tokens_mem {text : List Char} {t : Token} (h : t ∈ (tokens text).list) :
    ∃ c rest l, text.drop t.span.start = c :: rest ∧ ¬ Text.isBlank c = true ∧
      lexeme c rest = .ok l ∧ t = .ofLexeme t.span.start (c :: rest) l := by
  obtain ⟨n, c, rest, l, hdrop, hc, hl, rfl⟩ := readTokens_mem 0 0 text t h
  have hn : (Token.ofLexeme (0 + n) (c :: rest) l).span.start = n := Nat.zero_add n
  rw [hn]
  exact ⟨c, rest, l, hdrop, hc, hl, by rw [Nat.zero_add]⟩

/-- A token starts with a character that is no blank. -/
theorem tokens_first {text : List Char} {t : Token} (h : t ∈ (tokens text).list) :
    ∃ c, text[t.span.start]? = some c ∧ ¬ Text.isBlank c = true := by
  obtain ⟨c, rest, l, hdrop, hc, -⟩ := tokens_mem h
  refine ⟨c, ?_, hc⟩
  rw [← List.head?_drop, hdrop]
  rfl

theorem tokens_tiling (text : List Char) : Tiling text 0 text.length (tokens text).list
    ((tokens text).ending.map .endAt) := by
  have htiling := Scanner.tiling_tokensIn text 0 text.length
  rwa [← tokens_eq_tokensIn, stretchStart, Nat.zero_min, Nat.min_self] at htiling

/-- Two tokens of a text are the same, or one is behind the other. -/
theorem tokens_apart {text : List Char} {t u : Token} (ht : t ∈ (tokens text).list)
    (hu : u ∈ (tokens text).list) :
    t = u ∨ t.stop ≤ u.span.start ∨ u.stop ≤ t.span.start := by
  have hapart := (tokens_tiling text).apart
  exact List.Pairwise.forall_of_forall_of_flip
    (R := fun t u => t = u ∨ t.stop ≤ u.span.start ∨ u.stop ≤ t.span.start) (fun _ _ => .inl rfl)
    (hapart.imp fun h => .inr (.inl h)) (hapart.imp fun h => .inr (.inr h)) ht hu

/-- Where a text without a fault has no blank, there is a token. -/
theorem exists_token {text : List Char} {i stop : Nat} {c : Char}
    (hok : (tokens text).ending = .ok stop) (hi : text[i]? = some c)
    (hc : Text.isBlank c = false) :
    ∃ t ∈ (tokens text).list, t.span.start ≤ i ∧ i < t.stop := by
  have htiling := tokens_tiling text
  rw [hok] at htiling
  have hended : Token.endAt stop = Token.endAt text.length := htiling.ended
  have hend : (endingSpan (.ok (Token.endAt stop))).start = text.length := by
    rw [hended]
    rfl
  obtain ⟨hlt, -⟩ := List.getElem?_eq_some_iff.mp hi
  by_contra hnone
  have huncovered : ∀ t ∈ (tokens text).list, t.span.covers i = false := by
    intro t ht
    by_contra hcovers
    have hcovers := Bool.and_eq_true_iff.mp ((Bool.not_eq_false _).mp hcovers)
    exact hnone ⟨t, ht, of_decide_eq_true hcovers.1, of_decide_eq_true hcovers.2⟩
  obtain ⟨d, hd, hblank⟩ := htiling.blank i (Nat.zero_le i) (hend ▸ hlt) huncovered
  rw [hi] at hd
  cases hd
  rw [hc] at hblank
  cases hblank

/-! ### Stretches -/

section
variable {text as bs : List Char} {a b : Nat}

theorem getElem?_stretch {i : Nat} (h : a + i < b) : (stretch text a b)[i]? = text[a + i]? := by
  rw [stretch, List.getElem?_drop, List.getElem?_take_of_lt h]

theorem length_stretch (h : b ≤ text.length) : (stretch text a b).length = b - a := by
  rw [stretch, List.length_drop, List.length_take, Nat.min_eq_left h]

theorem stretch_split (h : stretch text a b = as ++ bs) :
    stretch text a (a + as.length) = as ∧ stretch text (a + as.length) b = bs := by
  have hlen := congrArg List.length h
  rw [stretch, List.length_drop, List.length_take, List.length_append] at hlen
  constructor
  · rw [stretch, List.drop_take, Nat.add_sub_cancel_left]
    rw [stretch, List.drop_take] at h
    have htake := congrArg (List.take as.length) h
    rwa [List.take_take, Nat.min_eq_left (by omega), List.take_left] at htake
  · have hdrop := congrArg (List.drop as.length) h
    rwa [stretch, List.drop_drop, List.drop_left] at hdrop

theorem stretch_append {m : Nat} (h : a ≤ m) (h' : m ≤ b) :
    stretch text a b = stretch text a m ++ stretch text m b := by
  have hleft : stretch text a m = (stretch text a b).take (m - a) := by
    rw [stretch, stretch, List.take_drop, List.take_take, Nat.add_sub_cancel' h,
      Nat.min_eq_left h']
  have hright : stretch text m b = (stretch text a b).drop (m - a) := by
    rw [stretch, stretch, List.drop_drop, Nat.add_sub_cancel' h]
  rw [hleft, hright, List.take_append_drop]

theorem drop_eq_stretch (h : a ≤ b) (hb : b ≤ text.length) :
    text.drop a = stretch text a b ++ text.drop b := by
  have hle : a ≤ (text.take b).length := by rwa [List.length_take, Nat.min_eq_left hb]
  calc text.drop a = (text.take b ++ text.drop b).drop a := by rw [List.take_append_drop]
    _ = stretch text a b ++ text.drop b := List.drop_append_of_le_length hle

theorem mem_stretch {i : Nat} {c : Char} (h : a ≤ i) (h' : i < b) (hc : text[i]? = some c) :
    c ∈ stretch text a b := by
  refine List.mem_of_getElem? (i := i - a) ?_
  rw [getElem?_stretch (by omega), Nat.add_sub_cancel' h, hc]

end

/-! ### Literals and words -/

/-- The last character of a quoted literal is a quote. -/
theorem Lexeme.quotedBody?_last {quote : Char} (n : Nat) : ∀ {cs value : List Char},
    quotedBody? quote cs = some (value, n) → 0 < n ∧ cs[n - 1]? = some quote := by
  induction n using Nat.strongRecOn with
  | _ n ih =>
    intro cs value h
    rcases quotedBody?_cases h with ⟨c, ds, v, k, hc, rfl, hb, rfl, rfl⟩ |
      ⟨ds, v, k, rfl, hb, rfl, rfl⟩ | ⟨ds, rfl, rfl, rfl⟩
    · obtain ⟨hpos, hlast⟩ := ih k (by omega) hb
      obtain ⟨m, rfl⟩ : ∃ m, k = m + 1 := ⟨k - 1, by omega⟩
      exact ⟨Nat.succ_pos _, hlast⟩
    · obtain ⟨hpos, hlast⟩ := ih k (by omega) hb
      obtain ⟨m, rfl⟩ : ∃ m, k = m + 1 := ⟨k - 1, by omega⟩
      exact ⟨Nat.succ_pos _, hlast⟩
    · exact ⟨Nat.one_pos, rfl⟩

/-- What starts a name starts a word. -/
theorem lexeme_name {c : Char} (h : Text.isNameStart c = true) (cs : List Char) :
    lexeme c cs = .ok (word c cs) := by
  have hdigit := (Text.nameStart_classes h).2
  have hsymbol : symbol? c cs.head? = none := by
    unfold symbol?
    split <;> first | cases h | rfl
  have hquote : (c == '"' || c == '\'') = false := by
    refine Bool.or_eq_false_iff.mpr ⟨beq_false_of_ne ?_, beq_false_of_ne ?_⟩ <;>
      (rintro rfl; cases h)
  unfold lexeme
  rw [hsymbol, hquote, hdigit, h]
  rfl

/-- White space inside of a token makes it a quoted literal. -/
theorem tokens_space {text : List Char} {t : Token} {i : Nat} {c : Char}
    (ht : t ∈ (tokens text).list) (hi : t.span.start ≤ i) (hi' : i < t.stop)
    (hc : text[i]? = some c) (hspace : Text.isWhiteSpace c = true) :
    ∃ quote, (quote = '"' ∨ quote = '\'') ∧ text[t.stop - 1]? = some quote ∧ i < t.stop - 1 := by
  obtain ⟨d, rest, l, hdrop, hd, hl, hofLexeme⟩ := tokens_mem ht
  have hstop : t.stop = t.span.start + l.length := by
    rw [hofLexeme]
    rfl
  have hblank : Text.isBlank c = true := Bool.or_eq_true_iff.mpr (.inl hspace)
  have hget (k : Nat) : text[t.span.start + k]? = (d :: rest)[k]? := by
    rw [← hdrop, List.getElem?_drop]
  -- the token does not start with white space
  have hlater : t.span.start < i := by
    refine Nat.lt_of_le_of_ne hi fun heq => hd ?_
    have h0 := hget 0
    rw [Nat.add_zero, heq, hc] at h0
    cases h0
    exact hblank
  cases Ordering.Scanned.of_lexeme hl with
  | opening _ hlen | closing _ hlen | comma _ hlen => omega
  | @literal value n hquote hbody hlen =>
    obtain ⟨hpos, hlast⟩ := quotedBody?_last n hbody
    have hend : text[t.stop - 1]? = some d := by
      have hplace : t.stop - 1 = t.span.start + (n - 1 + 1) := by omega
      rw [hplace, hget, List.getElem?_cons_succ, hlast]
    refine ⟨d, hquote, hend, Nat.lt_of_le_of_ne (by omega) fun heq => ?_⟩
    rw [← heq, hc] at hend
    cases hend
    exact hd hblank
  | solid hsolid =>
    have hmem : c ∈ (d :: rest).take l.length := by
      have hk := hget (i - t.span.start)
      rw [Nat.add_sub_cancel' hi, hc] at hk
      refine List.mem_of_getElem? (i := i - t.span.start) ?_
      rw [List.getElem?_take_of_lt (by omega), ← hk]
    exact absurd (List.mem_append_right _ (Text.mem_blanks hblank)) (hsolid c hmem)

/-- A word of letters, which no name goes on behind, is a token as a whole. -/
theorem tokens_word {text cs bs : List Char} {t : Token} (ht : t ∈ (tokens text).list)
    (hdrop : text.drop t.span.start = cs ++ bs) (hne : cs ≠ [])
    (hletters : ∀ c ∈ cs, c.isAlpha = true) (hkeyword : TokenKind.keyword? cs = none)
    (hend : ∀ c ∈ bs.head?, Text.isNamePart c = false) :
    t.kind = .identifier ∧ t.written = String.ofList cs ∧ t.stop = t.span.start + cs.length := by
  obtain ⟨d, rest, l, hdrop', hd, hl, hofLexeme⟩ := tokens_mem ht
  obtain ⟨c, cs, rfl⟩ := List.exists_cons_of_ne_nil hne
  rw [List.cons_append] at hdrop
  obtain ⟨rfl, rfl⟩ := List.cons.inj (hdrop'.symm.trans hdrop)
  rw [lexeme_name (Text.letter_classes (hletters d List.mem_cons_self)).2.1] at hl
  have hpart : ∀ c ∈ cs, Text.isNamePart c = true := fun c hc =>
    (Text.letter_classes (hletters c (List.mem_cons_of_mem _ hc))).2.2.1
  have hstop : bs.takeWhile Text.isNamePart = [] := by
    cases bs with
    | nil => rfl
    | cons b bs =>
      rw [List.takeWhile_cons, hend b rfl]
      rfl
  have hword : (cs ++ bs).takeWhile Text.isNamePart = cs := by
    rw [List.takeWhile_append_of_pos hpart, hstop, List.append_nil]
  have hl : l = ⟨.identifier, d :: cs, (d :: cs).length⟩ := by
    rw [← Except.ok.inj hl, word, hword, hkeyword]
    rfl
  rw [hofLexeme, hl]
  refine ⟨rfl, ?_, rfl⟩
  show String.ofList ((d :: (cs ++ bs)).take (d :: cs).length) = _
  rw [← List.cons_append, List.take_left]

end QueryExpr
