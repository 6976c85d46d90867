/-
# Quoted literals in clauses

What a literal stands for has no part in the clauses of an ordering: whatever the
text between its quotes, there are as many clauses, and each has its direction.
This is because a literal is closed behind its last quote, so that the clause
goes on as it would behind any other literal; and because a direction is found
behind white space, which no literal ends with.

Key definitions: `Ordering.toggled`, `Ordering.openQuote`, `Ordering.directions`.
Key theorems: `Ordering.clausesFrom_append`, `Ordering.clausesFrom_taken`,
`Ordering.openQuote_front`, `Ordering.clauseDirection_behind`,
`Quote.scan_and_split`.
-/
import QueryExpr.Proofs.ClauseDirections
import QueryExpr.Proofs.QuotedText

namespace QueryExpr
namespace Ordering

open Lexeme
open Text (Spaces)

variable {c : Char} {cs as bs : List Char} {l : Lexeme} {start depth position : Nat}
  {taken : List Char} {quote : Option Char}

/-! ### One character after the other -/

/-- The quote that is open behind a character. -/
def toggled (quote : Option Char) (c : Char) : Option Char :=
  match quote with
  | some q => if c == q then none else some q
  | none => if c == '"' || c == '\'' then some c else none

/-- The quote that is open behind characters. -/
def openQuote (quote : Option Char) (cs : List Char) : Option Char := cs.foldl toggled quote

/-- How many brackets are open behind a character outside of literals. -/
def nested (depth : Nat) (c : Char) : Nat :=
  if c == '(' || c == '[' || c == '\x7b' then depth + 1
  else if c == ')' || c == ']' || c == '\x7d' then depth - 1
  else depth

/-- A comma outside of brackets and literals ends the clause at hand, and every other
character belongs to it. -/
theorem clausesFrom_cons (start : Nat) (taken : List Char) (depth : Nat) (quote : Option Char)
    (c : Char) (cs : List Char) : clausesFrom start taken depth quote (c :: cs) =
      if quote = none ∧ c = ',' ∧ depth = 0 then
        (start, taken.reverse) :: clausesFrom (start + taken.length + 1) [] 0 none cs
      else clausesFrom start (c :: taken) (if quote = none then nested depth c else depth)
        (toggled quote c) cs := by
  cases quote with
  | some q => simp [clausesFrom, toggled]
  | none =>
    by_cases hq : c = '"' ∨ c = '\''
    · rcases hq with rfl | rfl <;> simp [clausesFrom, toggled, nested]
    · by_cases ho : c = '(' ∨ c = '[' ∨ c = '\x7b'
      · rcases ho with rfl | rfl | rfl <;> simp [clausesFrom, toggled, nested]
      · by_cases hc : c = ')' ∨ c = ']' ∨ c = '\x7d'
        · rcases hc with rfl | rfl | rfl <;> simp [clausesFrom, toggled, nested]
        · simp only [not_or] at hq ho hc
          simp [clausesFrom, toggled, nested, hq, ho, hc]

/-- The clauses of two texts in a row: those that end in the first one, and those of
the second one with what is open there. -/
theorem clausesFrom_append : ∀ (as : List Char) (start : Nat) (taken : List Char) (depth : Nat)
    (quote : Option Char), ∃ closed start' taken' depth', ∀ bs,
      clausesFrom start taken depth quote (as ++ bs) =
        closed ++ clausesFrom start' taken' depth' (openQuote quote as) bs
  | [], start, taken, depth, quote => ⟨[], start, taken, depth, fun _ => rfl⟩
  | c :: as, start, taken, depth, quote => by
    by_cases hcut : quote = none ∧ c = ',' ∧ depth = 0
    · obtain ⟨closed, start', taken', depth', h⟩ :=
        clausesFrom_append as (start + taken.length + 1) [] 0 none
      refine ⟨(start, taken.reverse) :: closed, start', taken', depth', fun bs => ?_⟩
      have hopen : openQuote quote (c :: as) = openQuote none as := by
        obtain ⟨rfl, rfl, -⟩ := hcut
        rfl
      rw [List.cons_append, clausesFrom_cons, if_pos hcut, h, hopen, List.cons_append]
    · obtain ⟨closed, start', taken', depth', h⟩ := clausesFrom_append as start (c :: taken)
        (if quote = none then nested depth c else depth) (toggled quote c)
      refine ⟨closed, start', taken', depth', fun bs => ?_⟩
      rw [List.cons_append, clausesFrom_cons, if_neg hcut, h]
      rfl

/-- What the clause at hand started with does not change what it goes on with, nor
the clauses behind it. -/
theorem clausesFrom_taken : ∀ (cs : List Char) (depth : Nat) (quote : Option Char),
    ∃ (more : List Char) (later : List (List Char)), ∀ start taken,
      (clausesFrom start taken depth quote cs).map Prod.snd = (taken.reverse ++ more) :: later
  | [], _, _ => ⟨[], [], fun _ _ => by rw [List.append_nil]; rfl⟩
  | c :: cs, depth, quote => by
    by_cases hcut : quote = none ∧ c = ',' ∧ depth = 0
    · obtain ⟨more, later, h⟩ := clausesFrom_taken cs 0 none
      refine ⟨[], more :: later, fun start taken => ?_⟩
      rw [clausesFrom_cons, if_pos hcut, List.map_cons, h, List.append_nil]
      rfl
    · obtain ⟨more, later, h⟩ := clausesFrom_taken cs
        (if quote = none then nested depth c else depth) (toggled quote c)
      refine ⟨c :: more, later, fun start taken => ?_⟩
      rw [clausesFrom_cons, if_neg hcut, h, List.reverse_cons, List.append_assoc]
      rfl

/-! ### Quotes are closed between tokens -/

theorem openQuote_append (quote : Option Char) (as bs : List Char) :
    openQuote quote (as ++ bs) = openQuote (openQuote quote as) bs := List.foldl_append

theorem openQuote_plain : ∀ {cs : List Char}, Plain cs → openQuote none cs = none
  | [], _ => rfl
  | c :: cs, h => by
    obtain ⟨hc, hcs⟩ := List.forall_mem_cons.mp h
    have hstep : toggled none c = none := by
      simp only [marks, List.mem_cons, not_or] at hc
      simp [toggled, hc.1, hc.2.1]
    rw [openQuote, List.foldl_cons, hstep]
    exact openQuote_plain hcs

theorem openQuote_literal {q : Char} (hq : q = '"' ∨ q = '\'') (n : Nat) :
    ∀ {cs value : List Char}, quotedBody? q cs = some (value, n) →
      openQuote (some q) (cs.take n) = none := by
  induction n using Nat.strongRecOn with
  | _ n ih =>
    intro cs value h
    rcases quotedBody?_cases h with ⟨c, ds, v, k, hc, rfl, hb, rfl, rfl⟩ |
      ⟨ds, v, k, rfl, hb, rfl, rfl⟩ | ⟨ds, rfl, rfl, rfl⟩
    · have hstep : toggled (some q) c = some q := by simp [toggled, hc]
      rw [List.take_succ_cons, openQuote, List.foldl_cons, hstep]
      exact ih k (by omega) hb
    · have hstep : toggled (toggled (some q) q) q = some q := by simp [toggled, hq]
      rw [List.take_succ_cons, List.take_succ_cons, openQuote, List.foldl_cons, List.foldl_cons,
        hstep]
      exact ih k (by omega) hb
    · simp [openQuote, toggled]

theorem openQuote_token (hl : lexeme c cs = .ok l) :
    openQuote none ((c :: cs).take l.length) = none := by
  cases Scanned.of_lexeme hl with
  | opening hc hlen | closing hc hlen =>
    rw [hlen]
    simp only [List.mem_cons, List.not_mem_nil, or_false] at hc
    rcases hc with rfl | rfl | rfl <;> rfl
  | comma hc hlen =>
    rw [hlen, hc]
    rfl
  | literal hc hbody hlen =>
    have hopen : toggled none c = some c := by rcases hc with rfl | rfl <;> rfl
    rw [hlen, List.take_succ_cons, openQuote, List.foldl_cons, hopen]
    exact openQuote_literal hc _ hbody
  | solid h => exact openQuote_plain h.plain

/-- **No quote is open in front of a token.** The induction is on the number of
characters left. -/
theorem openQuote_front (n : Nat) : ∀ {cs : List Char} {position : Nat} {t : Token},
    cs.length = n → t ∈ (readTokens position 0 cs).list →
    position ≤ t.span.start ∧ openQuote none (cs.take (t.span.start - position)) = none := by
  induction n using Nat.strongRecOn with
  | _ n ih =>
    intro cs position t hn ht
    obtain ⟨bs, ds, rfl, hb, hd⟩ := blanks_in_front cs
    rw [readTokens_blanks _ hb] at ht
    have hblanks : openQuote none bs = none :=
      openQuote_plain fun b hb' => not_mark_blank (hb b hb')
    cases ds with
    | nil =>
      rw [readTokens_nil] at ht
      cases ht
    | cons c ds =>
      cases hl : lexeme c ds with
      | error fault =>
        rw [readTokens_fault _ (hd c rfl) hl] at ht
        cases ht
      | ok l =>
        rw [readTokens_lexeme _ (hd c rfl) hl] at ht
        rcases List.mem_cons.mp ht with rfl | ht
        · have hstart : (Token.ofLexeme (position + bs.length) (c :: ds) l).span.start =
              position + bs.length := rfl
          rw [hstart, Nat.add_sub_cancel_left, List.take_left]
          exact ⟨Nat.le_add_right _ _, hblanks⟩
        · obtain ⟨m, hm, hle, -⟩ := lexeme_cut hl
          have hshort : ((c :: ds).drop l.length).length < n := by
            rw [← hn, hm, List.drop_succ_cons, List.length_drop, List.length_append,
              List.length_cons]
            omega
          obtain ⟨hstart, hrest⟩ := ih _ hshort rfl ht
          refine ⟨by omega, ?_⟩
          have hsplit : t.span.start - position =
              bs.length + (l.length + (t.span.start - (position + bs.length + l.length))) := by
            omega
          rw [hsplit, List.take_length_add_append, List.take_add, openQuote_append, hblanks,
            openQuote_append, openQuote_token hl]
          exact hrest

/-! ### Directions behind a literal -/

/-- The direction of a clause; an empty clause has none. -/
def clauseDirection (number : Nat) (cs : List Char) : Except Cause Direction :=
  ((segmentOf number 0 cs).map (·.direction)).mapError (·.cause)

/-- The directions of clauses from the given number on. -/
def directionsFrom (number : Nat) : List (List Char) → Except Cause (List Direction)
  | [] => .ok []
  | cs :: rest =>
    match clauseDirection number cs with
    | .error cause => .error cause
    | .ok d =>
      match directionsFrom (number + 1) rest with
      | .error cause => .error cause
      | .ok ds => .ok (d :: ds)

/-- The directions of the segments of an ordering, or why there are none. -/
def directions (text : List Char) : Except Cause (List Direction) :=
  ((segments text).map fun ss => ss.map (·.direction)).mapError (·.cause)

/-- Where a clause starts does not matter for its direction. -/
theorem clauseDirection_eq (number start : Nat) (cs : List Char) :
    ((segmentOf number start cs).map (·.direction)).mapError (·.cause) =
      clauseDirection number cs := by
  unfold clauseDirection segmentOf
  dsimp only
  split
  · rfl
  · split
    · split <;> rfl
    · rfl

theorem directionsFrom_eq : ∀ (number : Nat) (clauses : List (Nat × List Char)),
    ((segmentsFrom number clauses).map fun ss => ss.map (·.direction)).mapError (·.cause) =
      directionsFrom number (clauses.map Prod.snd)
  | _, [] => rfl
  | number, (start, cs) :: rest => by
    rw [segmentsFrom, List.map_cons, directionsFrom, ← clauseDirection_eq number start,
      ← directionsFrom_eq (number + 1) rest]
    cases segmentOf number start cs with
    | error failure => rfl
    | ok s => cases segmentsFrom (number + 1) rest <;> rfl

theorem directionsFrom_congr {c c' : List Char}
    (h : ∀ number, clauseDirection number c = clauseDirection number c') :
    ∀ (number : Nat) (before after : List (List Char)),
      directionsFrom number (before ++ c :: after) = directionsFrom number (before ++ c' :: after)
  | number, [], after => by
    rw [List.nil_append, List.nil_append, directionsFrom, directionsFrom, h]
  | number, cs :: before, after => by
    rw [List.cons_append, List.cons_append, directionsFrom, directionsFrom,
      directionsFrom_congr h (number + 1) before after]

/-- A direction of a clause with a quote in it stands behind that quote. -/
theorem Directed.behind_quote {q : Quote} {front word behind : List Char} {d : Direction}
    (h : Directed (as ++ q.char :: bs) front word behind d) (as' : List Char) :
    ∃ front', Directed (as' ++ q.char :: bs) front' word behind d := by
  obtain ⟨hword, hletters, -⟩ := Direction.letters_of_ofWord? h.direction
  have hspace : Text.isWhiteSpace q.char = false :=
    Text.isWhiteSpace_of_not_blank (Bool.not_eq_true _ ▸ q.not_blank)
  have hout : q.char ∉ word ++ behind := by
    intro hmem
    rcases List.mem_append.mp hmem with hmem | hmem
    · have hletter := hletters _ hmem
      cases q <;> cases hletter
    · exact absurd (h.behind _ hmem) (Bool.eq_false_iff.mp hspace)
  rcases List.append_eq_append_iff.mp h.split with ⟨ds, hfront, hbs⟩ | ⟨ds, -, hrest⟩
  · cases ds with
    | nil => exact absurd (hbs ▸ List.mem_cons_self) hout
    | cons e ds =>
      obtain ⟨rfl, hbs⟩ := List.cons.inj hbs
      have hne : ds ≠ [] := by
        rintro rfl
        have hapart := h.apart
        rw [hfront, endsWithSpace_append (List.cons_ne_nil _ _)] at hapart
        exact absurd hapart (Bool.eq_false_iff.mp hspace)
      have hends (as : List Char) : endsWithSpace (as ++ q.char :: ds) = endsWithSpace ds := by
        rw [List.append_cons, endsWithSpace_append hne]
      refine ⟨as' ++ q.char :: ds, ?_, h.direction, ?_, fun hspaces => ?_, h.behind⟩
      · rw [hbs, List.append_assoc, List.cons_append]
      · rw [hends, ← hends as, ← hfront]
        exact h.apart
      · exact absurd (hspaces _ (List.mem_append_right _ List.mem_cons_self))
          (Bool.eq_false_iff.mp hspace)
  · exact absurd (hrest ▸ List.mem_append_right _ List.mem_cons_self) hout

/-- What stands in front of a quote has no part in the direction of a clause. -/
theorem clauseDirection_behind (q : Quote) (number : Nat) (as as' bs : List Char) :
    clauseDirection number (as ++ q.char :: bs) = clauseDirection number (as' ++ q.char :: bs) := by
  have hsegment (as : List Char) : ∃ s, segmentOf number 0 (as ++ q.char :: bs) = .ok s := by
    refine (exists_segmentOf _ _ _).mpr fun hspaces => q.not_blank ?_
    exact Bool.or_eq_true_iff.mpr
      (.inl (hspaces _ (List.mem_append_right _ List.mem_cons_self)))
  by_cases hdirected : ∃ front word behind d, Directed (as ++ q.char :: bs) front word behind d
  · obtain ⟨front, word, behind, d, h⟩ := hdirected
    obtain ⟨front', h'⟩ := h.behind_quote as'
    rw [clauseDirection, clauseDirection, segmentOf_directed h, segmentOf_directed h']
    rfl
  · have hdirected' : ¬ ∃ front word behind d,
        Directed (as' ++ q.char :: bs) front word behind d := by
      rintro ⟨front, word, behind, d, h⟩
      exact hdirected (h.behind_quote as |>.imp fun _ h => ⟨_, _, _, h⟩)
    obtain ⟨s, hs⟩ := hsegment as
    obtain ⟨s', hs'⟩ := hsegment as'
    rw [clauseDirection, clauseDirection, hs, hs', (segmentOf_undirected hdirected hs).2,
      (segmentOf_undirected hdirected' hs').2]
    rfl

/-- **What a literal stands for has no part in the directions of an ordering**, nor in
their number. -/
theorem directions_enclosed (q : Quote) {front post : List Char} (value value' : List Char)
    (hfront : openQuote none front = none) (hpost : post.head? ≠ some q.char) :
    directions (front ++ (q.enclosed value ++ post)) =
      directions (front ++ (q.enclosed value' ++ post)) := by
  obtain ⟨closed, start, taken, depth, hclosed⟩ := clausesFrom_append front 0 [] 0 none
  obtain ⟨more, later, hmore⟩ := clausesFrom_taken post depth none
  have hq : q.char = '"' ∨ q.char = '\'' := by cases q <;> simp [Quote.char]
  -- the clause with the literal in it, from its start on
  have hclauses (value : List Char) :
      (clauses (front ++ (q.enclosed value ++ post))).map Prod.snd = closed.map Prod.snd ++
        ((taken.reverse ++ q.char :: q.doubled value) ++ q.char :: more) :: later := by
    have hopen : clausesFrom start taken depth none (q.enclosed value ++ post) =
        clausesFrom start (q.char :: taken) depth (some q.char)
          (q.doubled value ++ q.char :: post) := by
      rw [Quote.enclosed_append]
      cases q <;> rfl
    have hsplit : q.doubled value ++ q.char :: post = (q.doubled value ++ [q.char]) ++ post := by
      rw [List.append_assoc, List.singleton_append]
    have hlen : (q.doubled value).length + 1 = (q.doubled value ++ [q.char]).length := by
      rw [List.length_append, List.length_singleton]
    rw [clauses, hclosed, hfront, hopen,
      clausesFrom_literal hq _ (Quote.body_doubled hpost value), hsplit, hlen, List.take_left,
      List.drop_left, List.map_append, hmore]
    simp only [List.reverse_append, List.reverse_reverse, List.reverse_cons, List.append_assoc,
      List.cons_append, List.nil_append]
  rw [directions, directions, segments, segments, directionsFrom_eq, directionsFrom_eq, hclauses,
    hclauses]
  exact directionsFrom_congr (fun number => clauseDirection_behind q number _ _ _) _ _ _

end Ordering

namespace Quote

open QueryExpr.Ordering (directions)

/-- **Quoting and scanning are inverse, and clauses keep apart from both.** A text in
quotes, with its quotes written twice, is scanned as one literal that covers it and
stands for the text, wherever no further quote follows. Every literal that is scanned,
or read with the other tokens of a stretch, is written as what it stands for, in quotes.
And if a quoted text is a token of an ordering, then any other text in its place leaves
the directions of the segments as they are, and how many there are. -/
theorem scan_and_split (q : Quote) :
    (∀ (s : Scanner) (bs value post : List Char),
      s.rest = bs ++ (q.enclosed value ++ post) → (∀ b ∈ bs, Text.isBlank b = true) →
      post.head? ≠ some q.char →
      s.scan = (.ok q.kind, ⟨post, s.position + bs.length + (q.enclosed value).length,
        ⟨q.kind, ⟨s.position + bs.length, (q.enclosed value).length⟩, String.ofList value,
          String.ofList (q.enclosed value)⟩⟩)) ∧
    (∀ (s s' : Scanner), s.scan = (.ok q.kind, s') → s'.current.kind = q.kind ∧
      s'.current.written = String.ofList (q.enclosed s'.current.value.toList)) ∧
    (∀ (text : List Char) (start stop : Nat), ∀ t ∈ (tokensIn text start stop).list,
      t.kind = q.kind → t.written = String.ofList (q.enclosed t.value.toList)) ∧
    ∀ (front value post : List Char),
      (∃ t ∈ (tokens (front ++ (q.enclosed value ++ post))).list, t.span.start = front.length) →
      post.head? ≠ some q.char →
      ∀ value' : List Char, directions (front ++ (q.enclosed value' ++ post)) =
        directions (front ++ (q.enclosed value ++ post)) := by
  have hend : q.kind ≠ .endOfText := by cases q <;> decide
  refine ⟨fun s bs value post hrest hb hpost => scan_enclosed hrest hb hpost,
    fun s s' h => ?_, fun text start stop t ht hk => ?_, ?_⟩
  · obtain ⟨hk, hgenuine⟩ := Scanner.genuine_of_scan h hend
    exact ⟨hk, written_of_genuine hgenuine hk⟩
  · exact written_of_genuine (genuine_readTokens _ _ _ t ht) hk
  · intro front value post ⟨t, ht, hstart⟩ hpost value'
    have hopen := (Ordering.openQuote_front _ rfl ht).2
    rw [hstart, Nat.sub_zero, List.take_left] at hopen
    exact Ordering.directions_enclosed q value' value hopen hpost

set_option maxRecDepth 2000 in
/-- A text with quotes of both kinds and a comma in it, and in its place a plain one. -/
theorem scan_and_split_both :
    (Scanner.ofText (double.enclosed "'\" desc,".toList ++ " desc".toList)).scan.1 =
      .ok .string ∧
    directions (double.enclosed "'\" desc,".toList ++ " desc".toList) = .ok [.descending] ∧
    directions (double.enclosed "a".toList ++ " desc".toList) = .ok [.descending] := by
  obtain ⟨hscan, -, -, hsplit⟩ := scan_and_split double
  have hdirections : directions (double.enclosed "a".toList ++ " desc".toList) =
      .ok [.descending] := by decide +kernel
  have hfirst := hscan (Scanner.ofText (double.enclosed "'\" desc,".toList ++ " desc".toList)) []
    "'\" desc,".toList " desc".toList (by decide +kernel) (fun b h => by cases h) (by decide)
  refine ⟨congrArg Prod.fst hfirst, ?_, hdirections⟩
  exact (hsplit [] "a".toList " desc".toList
    ⟨⟨.string, ⟨0, 3⟩, "a", "\"a\""⟩, by decide +kernel, rfl⟩ (by decide) _).trans hdirections

end Quote
end QueryExpr
