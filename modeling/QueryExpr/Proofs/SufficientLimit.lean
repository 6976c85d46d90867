/-
# Limits that are high enough

The limit of the nesting is only ever the reason for a failure. A text that is
read, or refused for any other cause, under a limit comes to the same under a
higher one; and no text is refused for a limit that is more than twice the
number of its tokens.

The proof follows the parser step by step, under both limits at once.

Key theorems: `Reader.lifts_primary`, `Reader.lifts_unary`, `Reader.lifts_climb`,
`Reader.lifts_expression`, `Expr.ofTokens_raised`, `Expr.parse_raised`.
-/
import QueryExpr.Proofs.LayeredGrammar
import QueryExpr.Proofs.RaisedLimit
import QueryExpr.Proofs.TreeHeight

namespace QueryExpr
namespace Reader

variable {α : Type} {limit s k : Nat} {t : Token} {expr expr' : Reader Expr} {g g' : Grammar}
  {fuel : Nat}

/-! ### Lists and literals -/

section
variable (close : TokenKind) {item item' : Reader α} (h : Lifts limit 1 1 item item')
include h

/-- Past the first item there is room for two levels more than the others take. -/
theorem lifts_itemsUpTo : ∀ fuel : Nat,
    Lifts limit 1 1 (itemsUpTo close item fuel) (itemsUpTo close item' fuel)
  | 0 => h.bind fun _ => (lifts_expect close).bind fun _ => lifts_pure _
  | fuel + 1 => by
    have rest : Lifts limit 3 0 (itemsUpTo close item fuel) (itemsUpTo close item' fuel) :=
      (lifts_itemsUpTo fuel).weaken (by omega) (Nat.zero_le 1)
    refine h.bind fun x => lifts_kind fun t => ?_
    split
    · exact (lifts_advance.bind fun _ => rest.bind fun _ => lifts_pure _).at t
    · exact ((lifts_expect close).bind fun _ => lifts_pure _).at t

theorem lifts_listUpTo (fuel : Nat) :
    Lifts limit 1 0 (listUpTo close item fuel) (listUpTo close item' fuel) := by
  refine lifts_kind fun t => ?_
  split
  · exact (lifts_advance.bind fun _ => lifts_pure _).at t
  · exact ((lifts_itemsUpTo close h fuel).weaken (Nat.le_refl 1) (Nat.zero_le 1)).at t

end

theorem numberOf_error {negative : Bool} {cause : Cause} (h : numberOf t negative = .error cause) :
    cause.isLimit = false := by
  unfold numberOf at h
  split at h
  · dsimp only at h
    split at h <;> cases h
    rfl
  · dsimp only at h
    split at h <;> cases h
    rfl

theorem LiftsAt.number (ha : LiftsAt limit s k t advance advance) (minus : Option Nat) :
    LiftsAt limit s k t (number minus) (number minus) := by
  refine LiftsAt.current ?_
  dsimp only
  split
  · rename_i h
    exact (lifts_fail _ (numberOf_error h)).at t
  · exact ha.bind fun _ => lifts_pure _

theorem lifts_number (minus : Option Nat) : Lifts limit s 0 (number minus) (number minus) :=
  fun c => LiftsAt.number (lifts_advance.at c.current) minus c rfl

section
variable (ht : t.kind ≠ .endOfText)
include ht

theorem liftsAt_literal (v : Literal) : LiftsAt limit s 1 t (literal v) (literal v) :=
  LiftsAt.current ((liftsAt_advance ht).bind fun _ => lifts_pure _)

theorem liftsAt_character : LiftsAt limit s 1 t character character := by
  refine LiftsAt.current ?_
  split
  · exact liftsAt_literal ht _
  · exact (lifts_fail _ rfl).at t

/-! ### Names, calls and constructions -/

variable (he : Lifts limit 1 1 expr expr')
include he

theorem liftsAt_named (hd : g'.declared = g.declared) :
    LiftsAt limit 0 1 t (named g expr fuel) (named g' expr' fuel) := by
  have arguments : Lifts limit 2 0 (listUpTo .closeParen expr fuel)
      (listUpTo .closeParen expr' fuel) :=
    (lifts_listUpTo .closeParen he fuel).weaken (by omega) (Nat.le_refl 0)
  have htype : g'.typeOf? t.value = g.typeOf? t.value := by
    unfold Grammar.typeOf?
    rw [hd]
  refine LiftsAt.name ((liftsAt_advance ht).bind fun _ => lifts_kind fun t' => ?_)
  dsimp only
  rw [htype]
  cases g.typeOf? t.value with
  | some known =>
    dsimp only
    split
    · exact (lifts_advance.bind fun _ => arguments.bind fun _ =>
        (lifts_spanFrom _).bind fun _ => lifts_pure _).at t'
    · exact (lifts_pure _).at t'
  | none =>
    dsimp only
    split
    · exact (lifts_advance.bind fun _ => arguments.bind fun _ =>
        (lifts_spanFrom _).bind fun _ => lifts_pure _).at t'
    · exact (lifts_pure _).at t'

theorem liftsAt_iif : LiftsAt limit 0 1 t (iif expr fuel) (iif expr' fuel) := by
  have arguments : Lifts limit 2 0 (listUpTo .closeParen expr fuel)
      (listUpTo .closeParen expr' fuel) :=
    (lifts_listUpTo .closeParen he fuel).weaken (by omega) (Nat.le_refl 0)
  refine LiftsAt.current ((liftsAt_advance ht).bind fun _ => ?_)
  exact (lifts_expect _).bind fun _ => arguments.bind fun _ =>
    (lifts_spanFrom _).bind fun _ => lifts_pure _

omit ht in
theorem lifts_projection : Lifts limit 1 1 (projection expr) (projection expr') := by
  refine lifts_kind fun t => LiftsAt.get fun d => ?_
  by_cases hk : (t.kind.isNameLike && d.next? == some .colon) = true
  · rw [if_pos hk, if_pos hk]
    have hne : t.kind ≠ .endOfText := by
      intro h
      rw [h] at hk
      cases hk
    have value (n : Name) : Lifts limit 3 0 (expr >>= fun e => return (n, e))
        (expr' >>= fun e => return (n, e)) :=
      (he.bind fun e => lifts_pure _).weaken (by omega) (Nat.zero_le 1)
    exact LiftsAt.name ((liftsAt_advance hne).bind fun _ => lifts_advance.bind fun _ => value _)
  · rw [if_neg hk, if_neg hk]
    -- what follows the value does not depend on its reader
    refine (he.bind fun e => lifts_kind fun t => ?_).at t
    by_cases hk : t.kind == .asWord
    · rw [if_pos hk]
      refine (lifts_advance.bind fun _ => lifts_kind fun t => ?_).at t
      dsimp only
      by_cases hn : t.kind.isNameLike
      · rw [hn]
        exact LiftsAt.name ((lifts_advance.bind fun _ => lifts_pure _).at t)
      · rw [Bool.eq_false_iff.mpr hn]
        exact LiftsAt.current ((lifts_fail_bind _ rfl).at t)
    · rw [if_neg hk]
      cases e.propertyName? with
      | some text => exact (lifts_pure _).at t
      | none => exact (lifts_fail _ rfl).at t

omit ht in
theorem lifts_newRecord (start : Nat) (close : TokenKind) :
    Lifts limit 1 0 (newRecord expr fuel start close) (newRecord expr' fuel start close) :=
  (lifts_listUpTo close (lifts_projection he) fuel).bind fun _ =>
    (lifts_spanFrom _).bind fun _ => lifts_pure _

omit ht in
theorem lifts_newArray (start : Nat) (type : Option TypeName) :
    Lifts limit 1 0 (newArray expr fuel start type) (newArray expr' fuel start type) :=
  (lifts_expect _).bind fun _ => (lifts_listUpTo .closeBrace he fuel).bind fun _ =>
    (lifts_spanFrom _).bind fun _ => lifts_pure _

theorem liftsAt_construction :
    LiftsAt limit 0 1 t (construction expr fuel) (construction expr' fuel) := by
  have record (start : Nat) (close : TokenKind) : Lifts limit 2 0
      (newRecord expr fuel start close) (newRecord expr' fuel start close) :=
    (lifts_newRecord he start close).weaken (by omega) (Nat.le_refl 0)
  have array (start : Nat) (type : Option TypeName) : Lifts limit 2 0
      (newArray expr fuel start type) (newArray expr' fuel start type) :=
    (lifts_newArray he start type).weaken (by omega) (Nat.le_refl 0)
  refine LiftsAt.current ((liftsAt_advance ht).bind fun _ => lifts_current fun t' => ?_)
  split
  · exact (lifts_advance.bind fun _ => record _ _).at t'
  · exact (lifts_advance.bind fun _ => record _ _).at t'
  · exact (lifts_advance.bind fun _ => (lifts_expect _).bind fun _ => array _ _).at t'
  · split
    · refine (lifts_advance.bind fun _ => lifts_kind fun t => ?_).at t'
      dsimp only
      by_cases hk : t.kind == .openBracket
      · rw [if_pos hk, if_pos hk]
        exact (lifts_advance.bind fun _ => (lifts_expect _).bind fun _ => array _ _).at t
      · rw [if_neg hk, if_neg hk]
        exact (array _ _).at t
    · exact (lifts_fail _ rfl).at t'
  · exact (lifts_fail _ rfl).at t'

end

/-! ### From primary expressions to unary operators -/

section
variable (hd : g'.declared = g.declared) (he : Lifts limit 1 1 expr expr')
include he

include hd in
theorem lifts_primary : Lifts limit 0 1 (primary g expr fuel) (primary g' expr' fuel) := by
  refine lifts_current fun t => ?_
  generalize hk : t.kind = kind
  have hne : kind ≠ .endOfText → t.kind ≠ .endOfText := fun h => hk ▸ h
  split
  case h_1 | h_2 => exact LiftsAt.number (liftsAt_advance (hne (by decide))) none
  case h_3 | h_5 | h_6 | h_7 => exact liftsAt_literal (hne (by decide)) _
  case h_4 => exact liftsAt_character (hne (by decide))
  case h_8 => exact (liftsAt_advance (hne (by decide))).bind fun _ => lifts_pure _
  case h_9 => exact liftsAt_iif (hne (by decide)) he
  case h_10 => exact liftsAt_construction (hne (by decide)) he
  case h_11 =>
    have inner : Lifts limit 2 0 (expr >>= fun e => expect .closeParen >>= fun _ => return e)
        (expr' >>= fun e => expect .closeParen >>= fun _ => return e) :=
      (he.bind fun e => (lifts_expect _).bind fun _ => lifts_pure _).weaken (by omega)
        (Nat.zero_le 1)
    exact (liftsAt_advance (hne (by decide))).bind fun _ => inner
  case h_12 => exact liftsAt_named (hne (by decide)) he hd
  case h_13 => exact lifts_unexpected.at t

theorem lifts_memberRest (fuel : Nat) (target : Expr) :
    Lifts limit 1 0 (memberRest expr fuel target) (memberRest expr' fuel target) := by
  refine lifts_kind fun t => ?_
  dsimp only
  by_cases hk : t.kind.isNameLike
  · rw [hk]
    refine LiftsAt.name ((lifts_advance.bind fun _ => lifts_kind fun t => ?_).at t)
    by_cases hk : t.kind == .openParen
    · rw [if_pos hk, if_pos hk]
      exact (lifts_advance.bind fun _ => (lifts_listUpTo .closeParen he fuel).bind fun _ =>
        (lifts_spanFrom _).bind fun _ => lifts_pure _).at t
    · rw [if_neg hk, if_neg hk]
      exact (lifts_pure _).at t
  · rw [Bool.eq_false_iff.mpr hk]
    exact LiftsAt.current ((lifts_fail_bind _ rfl).at t)

theorem lifts_indexRest (fuel : Nat) (target : Expr) (bracket : Span) :
    Lifts limit 1 0 (indexRest expr fuel target bracket) (indexRest expr' fuel target bracket) := by
  refine (lifts_listUpTo .closeBracket he fuel).bind fun es => ?_
  dsimp only
  cases es.isEmpty with
  | true => exact lifts_fail_bind _ rfl
  | false => exact (lifts_spanFrom _).bind fun _ => lifts_pure _

end

section
variable (hl : g.limit ≤ g'.limit) (he : Lifts g.limit 1 1 expr expr')
  (hd : g'.declared = g.declared)
include hl he

/-- Each link is charged for and passes a token. -/
theorem lifts_suffixChain : ∀ (fuel : Nat) (target : Expr),
    Lifts g.limit 0 0 (suffixChain g expr fuel target) (suffixChain g' expr' fuel target)
  | 0, target => lifts_pure target
  | fuel + 1, target => by
    have rest (e : Expr) : Lifts g.limit 1 0 (suffixChain g expr fuel e)
        (suffixChain g' expr' fuel e) :=
      (lifts_suffixChain fuel e).weaken (by omega) (Nat.le_refl 0)
    refine lifts_kind fun t => ?_
    generalize hk : t.kind = kind
    split
    · have hne : t.kind ≠ .endOfText := by rw [hk]; decide
      exact LiftsAt.link hl hne (fun _ _ => rfl) (fun _ _ => rfl) (lifts_memberRest he fuel target) rest
    · have hne : t.kind ≠ .endOfText := by rw [hk]; decide
      refine LiftsAt.link hl hne (fun c hc => ?_) (fun c hc => ?_)
        (lifts_indexRest he fuel target t.span) rest
      · rw [indexSuffix_apply, hc]
      · rw [indexSuffix_apply, hc]
    · exact LiftsAt.current ((lifts_fail _ rfl).at t)
    · exact (lifts_pure _).at t

theorem lifts_suffixes (target : Expr) :
    Lifts g.limit 0 0 (suffixes g expr fuel target) (suffixes g' expr' fuel target) :=
  (lifts_suffixChain hl he fuel target).charging

include hd in
/-- The level of an operator is one of the two that its token is good for. -/
theorem lifts_unary : ∀ fuel : Nat,
    Lifts g.limit 0 1 (unary g expr fuel) (unary g' expr' fuel)
  | 0 => (lifts_primary hd he).bind fun e => (lifts_suffixes hl he e).weaken (by omega) (Nat.le_refl 0)
  | fuel + 1 => by
    have links (e : Expr) : Lifts g.limit 2 0 (suffixes g expr fuel e) (suffixes g' expr' fuel e) :=
      (lifts_suffixes hl he e).weaken (by omega) (Nat.le_refl 0)
    have inner : Lifts g.limit 2 0 (within g.limit (unary g expr fuel))
        (within g'.limit (unary g' expr' fuel)) :=
      ((lifts_unary fuel).within hl).weaken (by omega) (Nat.zero_le 1)
    refine lifts_current fun t => ?_
    split
    · exact ((lifts_primary hd he).bind links).at t
    · rename_i op hop
      have hne : t.kind ≠ .endOfText := by
        intro h
        rw [h] at hop
        cases hop
      refine LiftsAt.get fun d => ?_
      dsimp only
      split
      · exact (liftsAt_advance hne).bind fun _ => (lifts_number _).bind links
      · exact (liftsAt_advance hne).bind fun _ => inner.bind fun _ => lifts_pure _

/-! ### Binary operators -/

/-- The level of the chain and that of the right operand are what the token of
the operator is good for. -/
theorem lifts_link (bound : Level) (left : Expr)
    (operand : ∀ bound, Lifts g.limit 0 1 (climb g expr fuel bound) (climb g' expr' fuel bound))
    (chain : ∀ left, Lifts g.limit 0 0 (climbChain g expr fuel bound left)
      (climbChain g' expr' fuel bound left)) :
    Lifts g.limit 0 0 (climbChain g expr (fuel + 1) bound left)
      (climbChain g' expr' (fuel + 1) bound left) := by
  have rest (e : Expr) : Lifts g.limit 1 0 (climbChain g expr fuel bound e)
      (climbChain g' expr' fuel bound e) := (chain e).weaken (by omega) (Nat.le_refl 0)
  have right (bound : Level) : Lifts g.limit 1 0 (within g.limit (climb g expr fuel bound))
      (within g'.limit (climb g' expr' fuel bound)) :=
    ((operand bound).within hl).weaken (Nat.le_refl 1) (Nat.zero_le 1)
  have source : Lifts g.limit 1 0 (climb g expr fuel .relational)
      (climb g' expr' fuel .relational) :=
    (operand .relational).weaken (by omega) (Nat.zero_le 1)
  rw [climbChain, climbChain]
  refine lifts_current fun t => ?_
  split
  · exact (lifts_pure left).at t
  · rename_i level hlevel
    split
    · exact (lifts_pure left).at t
    · refine LiftsAt.link_behind hl (Level.ne_endOfText hlevel) ?_
      cases BinaryOp.ofToken? t.kind with
      | some op => exact (right _).bind fun _ => rest _
      | none =>
        refine lifts_kind fun t => ?_
        dsimp only
        split
        · exact (lifts_advance.bind fun _ => (lifts_listUpTo .closeParen he fuel).bind fun _ =>
            (lifts_spanFrom _).bind fun _ => rest _).at t
        · exact (source.bind fun _ => (lifts_spanFrom _).bind fun _ => rest _).at t

include hd in
theorem lifts_climb (fuel : Nat) :
    (∀ bound, Lifts g.limit 0 1 (climb g expr fuel bound) (climb g' expr' fuel bound)) ∧
      ∀ bound left, Lifts g.limit 0 0 (climbChain g expr fuel bound left)
        (climbChain g' expr' fuel bound left) := by
  induction fuel with
  | zero =>
    refine ⟨fun bound => ?_, fun bound left => ?_⟩
    · rw [climb, climb]
      exact lifts_unary hl he hd 0
    · rw [climbChain, climbChain]
      exact lifts_pure left
  | succ fuel ih =>
    obtain ⟨operand, chain⟩ := ih
    refine ⟨fun bound => ?_, fun bound left => lifts_link hl he bound left operand (chain bound)⟩
    rw [climb, climb]
    exact Lifts.charging ((lifts_unary hl he hd (fuel + 1)).bind fun left =>
      (chain bound left).weaken (by omega) (Nat.le_refl 0))

/-! ### Expressions -/

include hd in
theorem lifts_conditional (fuel : Nat) :
    Lifts g.limit 1 1 (conditional g expr fuel) (conditional g' expr' fuel) := by
  have branch : Lifts g.limit 2 0 expr expr' := he.weaken (by omega) (Nat.zero_le 1)
  refine Lifts.within hl (((lifts_climb hl he hd fuel).1 .lowest).bind fun condition =>
    lifts_kind fun t => ?_)
  split
  · exact (lifts_advance.bind fun _ => branch.bind fun _ => (lifts_expect _).bind fun _ =>
      branch.bind fun _ => lifts_pure _).at t
  · exact (lifts_pure _).at t

omit he in
include hd in
/-- **An expression is read alike** under a higher limit. -/
theorem lifts_expression : ∀ fuel : Nat,
    Lifts g.limit 1 1 (expression g fuel) (expression g' fuel)
  | 0 => lifts_unexpected
  | fuel + 1 => lifts_conditional hl (lifts_expression fuel) hd fuel

omit he in
include hd in
theorem lifts_whole (fuel : Nat) : Lifts g.limit 1 0 (whole g fuel) (whole g' fuel) := by
  have fault : Lifts g.limit 1 0 meetFault meetFault := fun c => raised_meetFault rfl (.refl c)
  have value : Lifts g.limit 1 0 (expression g fuel) (expression g' fuel) :=
    (lifts_expression hl hd fuel).weaken (Nat.le_refl 1) (Nat.zero_le 1)
  refine fault.bind fun _ => value.bind fun e => lifts_kind fun t => ?_
  dsimp only
  split
  · exact (lifts_unexpected.bind fun _ => lifts_pure _).at t
  · exact (lifts_pure _).at t

end

end Reader

/-! ### Faults of the text -/

namespace Lexeme

variable {cs : List Char} {cause : Cause} {n : Nat}

theorem decimal_lexical (h : decimal cs = .error (cause, n)) : cause.category = .lexical := by
  unfold decimal at h
  dsimp only at h
  split at h
  · cases h
    rfl
  · split at h
    · cases h
    · split at h <;> cases h

theorem number_lexical (h : number cs = .error (cause, n)) : cause.category = .lexical := by
  rw [number_eq] at h
  split at h
  · unfold hexadecimal at h
    dsimp only at h
    split at h <;> cases h
    rfl
  · exact decimal_lexical h

end Lexeme

theorem lexeme_lexical {c : Char} {cs : List Char} {cause : Cause} {n : Nat}
    (h : lexeme c cs = .error (cause, n)) : cause.category = .lexical := by
  unfold lexeme at h
  split at h
  · cases h
  · split at h
    · split at h <;> cases h
      rfl
    · split at h
      · exact Lexeme.number_lexical h
      · split at h <;> cases h
        exact (Cause.category_eq_lexical_iff _).mpr (show 1002 < 2000 by decide)

/-- What ends the tokens before the end of the text is a lexical fault. -/
theorem readTokens_lexical {cs : List Char} {position skip : Nat} {f : Failure}
    (h : (readTokens position skip cs).ending = .error f) : f.cause.category = .lexical := by
  induction cs generalizing position skip with
  | nil =>
    rw [readTokens_nil] at h
    cases h
  | cons c cs ih =>
    cases skip with
    | succ skip => exact ih h
    | zero =>
      rw [readTokens] at h
      split at h
      · exact ih h
      · split at h
        · rename_i hfault
          cases h
          exact lexeme_lexical hfault
        · exact ih h

/-! ### Whole texts -/

namespace Expr

variable {g g' : Grammar} {ts : Tokens}

/-- The limit is passed only where it is no more than twice the number of
tokens, and else makes no difference. -/
theorem ofTokens_raised (start : Nat) (hl : g.limit ≤ g'.limit) (hd : g'.declared = g.declared)
    (hts : ∀ f, ts.ending = .error f → f.cause.category = .lexical) :
    ((∀ f, ofTokens g start ts = .error f → f.cause.code ≠ 2009) →
      ofTokens g' start ts = ofTokens g start ts) ∧
    (2 * ts.list.length + 1 ≤ g.limit →
      ∀ f, ofTokens g start ts = .error f → f.cause.code ≠ 2009) := by
  have h := Reader.lifts_whole hl hd (ts.list.length + 1) (Cursor.atStart start ts)
  unfold ofTokens
  generalize Reader.whole g _ _ = r at h
  generalize Reader.whole g' _ _ = r' at h
  cases h with
  | @tooDeep span _ _ h =>
    have h : g.limit < 0 + 2 * ts.list.length + 1 := h
    refine ⟨fun hne => absurd rfl (hne ⟨.nestedTooDeeply g.limit, span⟩ rfl), fun hle => ?_⟩
    omega
  | @error e _ h =>
    have hcode : e.cause.code ≠ 2009 := by
      intro hcode
      rcases h with hlimit | hending
      · rw [Cause.isLimit_iff.mpr hcode] at hlimit
        cases hlimit
      · have hlexical := (Cause.category_eq_lexical_iff _).mp (hts e hending)
        omega
    refine ⟨fun _ => rfl, fun _ f hf => ?_⟩
    cases hf
    exact hcode
  | ok => exact ⟨fun _ => rfl, fun _ f hf => by cases hf⟩

/-- **The limit only ever turns a result into a failure.** A text that is read
under a limit, or refused for anything but the nesting, comes to the same tree
or the same failure under every higher limit; and a limit of more than twice the
number of tokens, up to the end of the text or its first fault, is never the
reason for a failure. -/
theorem parse_raised (declared : String → Bool) (text : List Char) {limit limit' : Nat}
    (h : limit ≤ limit') :
    ((∀ f, parse ⟨limit, declared⟩ text = .error f → f.cause.code ≠ 2009) →
      parse ⟨limit', declared⟩ text = parse ⟨limit, declared⟩ text) ∧
    (2 * (tokens text).list.length + 1 ≤ limit →
      ∀ f, parse ⟨limit, declared⟩ text = .error f → f.cause.code ≠ 2009) :=
  ofTokens_raised 0 h rfl fun _ => readTokens_lexical

/-- Five tokens that need the limit four: with three it fails, and with nine, or
any more, it reads what it reads with four. -/
theorem parse_raised_nested : 4 ≤ 9 ∧
    (∀ f, parse ⟨4, fun _ => false⟩ "-(-a)".toList = .error f → f.cause.code ≠ 2009) ∧
    parse ⟨9, fun _ => false⟩ "-(-a)".toList = parse ⟨4, fun _ => false⟩ "-(-a)".toList ∧
    2 * (tokens "-(-a)".toList).list.length + 1 = 11 ∧
    (parse ⟨3, fun _ => false⟩ "-(-a)".toList).toOption = none := by
  have hread : (parse ⟨4, fun _ => false⟩ "-(-a)".toList).toOption.map height = some 3 := by
    decide +kernel
  obtain ⟨e, he, -⟩ := exists_of_parse_map hread
  have hne : ∀ f, parse ⟨4, fun _ => false⟩ "-(-a)".toList = .error f → f.cause.code ≠ 2009 := by
    intro f hf
    rw [he] at hf
    cases hf
  exact ⟨by decide, hne, (parse_raised (fun _ => false) "-(-a)".toList (by decide)).1 hne,
    by decide, by decide +kernel⟩

/-- The same holds of what a stretch of a text spells. -/
theorem parseIn_raised (declared : String → Bool) (text : List Char) (start stop : Nat)
    {limit limit' : Nat} (h : limit ≤ limit') :
    ((∀ f, parseIn ⟨limit, declared⟩ text start stop = .error f → f.cause.code ≠ 2009) →
      parseIn ⟨limit', declared⟩ text start stop = parseIn ⟨limit, declared⟩ text start stop) ∧
    (2 * (tokensIn text start stop).list.length + 1 ≤ limit →
      ∀ f, parseIn ⟨limit, declared⟩ text start stop = .error f → f.cause.code ≠ 2009) :=
  ofTokens_raised _ h rfl fun _ => readTokens_lexical

end Expr
end QueryExpr
