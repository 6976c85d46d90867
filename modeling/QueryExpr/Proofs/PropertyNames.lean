/-
# Words and property names

What a property of a record may be called is told by the cache of record types
from the characters of the name; what an identifier is, by the tokens of a text.
The first goes by the Unicode properties of characters alone, the second looks at
ASCII characters first. Both come to the same: a name is accepted just if it is
one token as a whole, an identifier or a keyword (`propertyName_iff_whole`,
`oneName_iff`).

So a projection that a text spells gives no property a name that it cannot have,
and its check fails for another reason or not at all (`Derives.built`).

Key definitions: `OneName`.
Key theorems: `Text.isNameStart_eq`, `Text.isNamePart_eq`, `propertyName_iff_whole`,
`oneName_iff`, `Derives.built`, `names_accepted`.
-/
import QueryExpr.Proofs.CheckSteps
import QueryExpr.Proofs.ParsedExpr
import QueryExpr.Proofs.PlacedTokens
import QueryExpr.Proofs.RecordRuns
import QueryExpr.Proofs.RenderedTokens

namespace QueryExpr

open Lexeme

/-! ### Characters -/

namespace Text

variable {c : Char}

/-- Of the ASCII characters the letters start names, and letters, digits and the
underscore continue them. -/
theorem xid_of_ascii (h : c.toNat < 128) :
    isXidStart c = c.isAlpha ∧ isXidContinue c = (c == '_' || c.isAlphanum) :=
  forall_ascii (P := fun c => isXidStart c = c.isAlpha ∧
    isXidContinue c = (c == '_' || c.isAlphanum)) (by decide +kernel) c h

theorem isNamePart_eq (c : Char) : isNamePart c = isXidContinue c := by
  unfold isNamePart
  by_cases h : c.toNat < 128
  · have hle : ¬ 0x7f < c.toNat := by omega
    simp [hle, (xid_of_ascii h).2]
  · have hlt : 0x7f < c.toNat := by omega
    have halnum : c.isAlphanum = false := by
      by_contra hc
      exact h (toNat_lt_of_isAlphanum (by simpa using hc))
    have hne : (c == '_') = false := beq_false_of_ne (by rintro rfl; exact h (by decide))
    simp [hlt, halnum, hne]

theorem isNameStart_eq (c : Char) : isNameStart c = (c == '_' || isXidStart c) := by
  unfold isNameStart
  by_cases h : c.toNat < 128
  · have hle : ¬ 0x7f < c.toNat := by omega
    simp [hle, (xid_of_ascii h).1]
  · have hlt : 0x7f < c.toNat := by omega
    have halpha : c.isAlpha = false := by
      by_contra hc
      exact h (toNat_lt_of_isAlphanum (by rw [Char.isAlphanum, Bool.or_eq_true]; simp_all))
    simp [hlt, halpha]

end Text

/-! ### Words -/

variable {c : Char} {cs w : List Char}

theorem word_isNameLike (c : Char) (cs : List Char) : (word c cs).kind.isNameLike = true := by
  show ((TokenKind.keyword? (c :: cs.takeWhile Text.isNamePart)).getD .identifier).isNameLike = true
  cases hk : TokenKind.keyword? (c :: cs.takeWhile Text.isNamePart) with
  | none => rfl
  | some k =>
    have hkeyword : k.isKeyword = true := TokenKind.keyword?_isKeyword hk
    simp [TokenKind.isNameLike, hkeyword]

/-- A token that is a name is a word. -/
theorem lexeme_isNameLike {l : Lexeme} (h : lexeme c cs = .ok l) (hl : l.kind.isNameLike = true) :
    Text.isNameStart c = true ∧ l = word c cs := by
  unfold lexeme at h
  split at h
  · rename_i hs
    cases h
    rw [TokenKind.not_isNameLike (symbol?_kind hs)] at hl
    cases hl
  · split at h
    · split at h <;> cases h
      split at hl <;> cases hl
    · split at h
      · rcases (number_spelled h).1 with hk | hk <;> rw [hk] at hl <;> cases hl
      · split at h <;> cases h
        rename_i hstart
        exact ⟨hstart, rfl⟩

/-- A word reaches as far as the text if nothing but parts of names follows. -/
theorem length_word : (word c cs).length = cs.length + 1 ↔ cs.all Text.isNamePart = true := by
  have hfront := List.takeWhile_prefix (l := cs) Text.isNamePart
  have hlength : (word c cs).length = (cs.takeWhile Text.isNamePart).length + 1 := rfl
  rw [hlength, Nat.add_right_cancel_iff]
  constructor
  · intro h
    rw [← hfront.eq_of_length h]
    exact List.all_eq_true.mpr fun d hd => List.mem_takeWhile_imp hd
  · intro h
    rw [List.takeWhile_eq_self_iff.mpr (List.all_eq_true.mp h)]

theorem isPropertyName_cons : Text.isPropertyName (c :: cs) = true ↔
    Text.isNameStart c = true ∧ cs.all Text.isNamePart = true := by
  have hpart : cs.all Text.isNamePart = cs.all Text.isXidContinue := by
    simp only [List.all_congr rfl fun d => Text.isNamePart_eq d]
  rw [Text.isPropertyName, Text.isNameStart_eq, hpart, Bool.and_eq_true]

/-- **A text can be the name of a property just if it is one token as a whole, an
identifier or a keyword.** -/
theorem propertyName_iff_whole :
    Text.isPropertyName w = true ↔ ∃ k v, whole? w = some (k, v) ∧ k.isNameLike = true := by
  cases w with
  | nil => simp [Text.isPropertyName, whole?]
  | cons c cs =>
    rw [isPropertyName_cons]
    constructor
    · rintro ⟨hstart, hall⟩
      have hblank : ¬ Text.isBlank c = true := by simp [(Text.nameStart_classes hstart).1]
      refine ⟨_, (word c cs).value, ?_, word_isNameLike c cs⟩
      rw [whole?, if_neg hblank, lexeme_name hstart]
      exact if_pos (length_word.mpr hall)
    · rintro ⟨k, v, hw, hk⟩
      obtain ⟨-, hlexeme⟩ := whole?_cons hw
      obtain ⟨hstart, hword⟩ := lexeme_isNameLike hlexeme hk
      have hlength : (word c cs).length = cs.length + 1 := hword ▸ rfl
      exact ⟨hstart, length_word.mp hlength⟩

/-! ### Tokens -/

/-- The text is one token from its beginning to its end, an identifier or a
keyword, and nothing else. -/
def OneName (text : List Char) : Prop :=
  ∃ t, tokens text = ⟨[t], .ok text.length⟩ ∧ t.kind.isNameLike = true ∧ t.span = ⟨0, text.length⟩

/-- **A text is one token from its beginning to its end just if it can be the name
of a property.** -/
theorem oneName_iff : OneName w ↔ Text.isPropertyName w = true := by
  rw [propertyName_iff_whole]
  constructor
  · rintro ⟨t, ht, hname, hspan⟩
    have hmem : t ∈ (tokens w).list := by simp [ht]
    obtain ⟨c, rest, l, hdrop, hblank, hl, htoken⟩ := tokens_mem hmem
    rw [hspan, List.drop_zero] at hdrop
    subst hdrop
    have hlength : l.length = rest.length + 1 := by
      have h : t.span.length = l.length := by rw [htoken]; rfl
      rw [← h, hspan, List.length_cons]
    have hkind : t.kind = l.kind := by rw [htoken]; rfl
    refine ⟨l.kind, l.value, ?_, hkind ▸ hname⟩
    rw [whole?, if_neg hblank, hl]
    exact if_pos hlength
  · rintro ⟨k, v, hw, hk⟩
    cases w with
    | nil => cases hw
    | cons c cs =>
      obtain ⟨hblank, hlexeme⟩ := whole?_cons hw
      have hrest : readTokens 1 cs.length cs = ⟨[], .ok (1 + cs.length)⟩ := by
        have h := readTokens_skip 1 cs []
        rwa [List.append_nil, readTokens_nil] at h
      refine ⟨.ofLexeme 0 (c :: cs) ⟨k, v, cs.length + 1⟩, ?_, hk, rfl⟩
      rw [tokens, readTokens, if_neg hblank, hlexeme]
      simp [hrest, Nat.add_comm]

/-! ### Signatures and projections -/

theorem Named.isPropertyName {s : String} (h : Named s) :
    Text.isPropertyName s.toList = true := by
  obtain ⟨k, hk, hs⟩ := h
  exact propertyName_iff_whole.mpr ⟨k, s.toList, hs, hk⟩

/-- The cause is not that a property cannot have its name. -/
def Cause.SparesNames (cause : Cause) : Prop := ∀ name, cause ≠ .propertyName name

theorem Cause.sparesNames_iff {cause : Cause} : cause.SparesNames ↔ cause.code ≠ 4001 := by
  unfold SparesNames
  cases cause <;> simp [code]

theorem Properties.faultAfter_sparesNames {cause : Cause} : ∀ {seen : List String} {ps : Properties},
    (∀ p ∈ ps, Text.isPropertyName p.1.toList = true) → ps.faultAfter seen = some cause →
      cause.SparesNames
  | _, [], _, h => by cases h
  | seen, (n, t) :: ps, hps, h => by
    obtain ⟨hn, hps⟩ := List.forall_mem_cons.mp hps
    simp only [faultAfter, hn, Bool.not_true, Bool.false_eq_true, if_false] at h
    split at h
    · cases h
      exact fun _ h => by cases h
    · exact faultAfter_sparesNames hps h

namespace Check

instance : Permits Cause.SparesNames where
  holds cause h name heq := by rw [heq] at h; cases h

variable {P : Cause → Prop} {allowed : Ty → Ty → Bool} {o : Options}

theorem built_exprsWhere : ∀ {es : List Expr}, (∀ e ∈ es, Built P (exprWhere allowed o e)) →
    ∀ m ∈ exprsWhere allowed o es, Built P m
  | [], _ => List.forall_mem_nil _
  | e :: es, h => by
    obtain ⟨he, hes⟩ := List.forall_mem_cons.mp h
    exact List.forall_mem_cons.mpr ⟨he, built_exprsWhere hes⟩

end Check

open Check in
/-- **What a text spells is checked without a fault in the name of a property.** -/
theorem Derives.built {g : Grammar} {form : Form} {e : Expr} (h : Derives g form e)
    (allowed : Ty → Ty → Bool) (o : Options) :
    Built Cause.SparesNames (exprWhere allowed o e) := by
  induction h with
  | literal => exact composed_literal _ _ _
  | it | name => exact composed_named o _
  | typeName => exact composed_typeName o _
  | call _ _ _ ih | iif _ ih => exact composed_call o _ _ (built_exprsWhere ih)
  | conversion _ _ _ ih => exact composed_convertOrCallWhere allowed o _ _ (built_exprsWhere ih)
  | newRecord _ hnames _ ih =>
    refine built_newRecord _ (fun ps hps cause hfault => ?_) (built_exprsWhere ih)
    refine Properties.faultAfter_sparesNames (fun p hp => ?_) hfault
    obtain ⟨n, hn, hpn⟩ := hps p hp
    rw [hpn]
    exact (hnames n hn).isPropertyName
  | newArray _ _ ih => exact composed_newArray _ _ (built_exprsWhere ih)
  | parens _ ih | target _ ih | operand _ ih | chain _ ih | expression _ ih => exact ih
  | @member _ _ _ t n s _ _ ih =>
    rcases exprWhere_member allowed o t ⟨n.text, n.span⟩ s with ⟨owner, -, h'⟩ | h'
    · exact h' ▸ composed_memberOfType o owner _ s
    · exact h' ▸ (composed_value ih).bind fun e => composed_member e _ s
  | @callOn _ _ _ t n es s _ _ _ ih ihs =>
    rcases exprWhere_callOn allowed o t n es s with ⟨owner, -, h'⟩ | h'
    · exact h' ▸ composed_callOnType o owner n s (built_exprsWhere ihs)
    · exact h' ▸ (composed_value ih).bind fun e => composed_method e _ s (built_exprsWhere ihs)
  | index _ _ _ ih ihs =>
    exact (composed_value ih).bind fun e => composed_index e _ (built_exprsWhere ihs)
  | unary _ _ ih => exact (composed_value ih).bind fun e => composed_unary _ e _
  | binary _ _ _ _ ih ih' =>
    exact (composed_value ih).bind fun l => (composed_value ih').bind fun r =>
      composed_binary o _ l r _
  | inList _ _ _ _ ih ihs => exact composed_inList _ ih (built_exprsWhere ihs)
  | inSource _ _ _ _ _ ih ih' => exact composed_inSource _ ih ih'
  | conditional _ _ _ ih iha ihb => exact composed_conditional _ ih iha ihb

/-- **Identifiers and property names are the same.** Whatever the cache of record
types has been asked before, it accepts just the signatures of different names
each of which is one token; and no text that spells an expression makes its check
fail for the name of a property. -/
theorem names_accepted :
    (∀ (calls : List RecordCache.Call) (ps : Properties),
      (∃ r, ((RecordCache.ofRun calls).request ps).1 = .ok r) ↔
        (ps.map (·.1)).Nodup ∧ ∀ p ∈ ps, OneName p.1.toList) ∧
    ∀ (g : Grammar) (text : List Char) (e : Expr), Expr.parse g text = .ok e →
      ∀ (o : Options) (c d : Context) (f : Failure), Check.expr o e c = (.error f, d) →
        f.cause.code ≠ 4001 := by
  constructor
  · intro calls ps
    have hfails := (RecordCache.orderly_ofRun calls).request_fails_iff ps
    have hvalid : ps.Valid ↔ (ps.map (·.1)).Nodup ∧ ∀ p ∈ ps, OneName p.1.toList := by
      simp only [Properties.Valid, oneName_iff, And.comm]
    rw [← hvalid, ← not_iff_not, ← hfails]
    cases ((RecordCache.ofRun calls).request ps).1 with
    | ok r => simp
    | error cause => simp
  · intro g text e hparse o c d f hcheck
    rw [← Check.exprWhere_all] at hcheck
    have hbuilt := (Expr.derives_of_parse hparse).built Check.allConversions o
    exact Cause.sparesNames_iff.mp (hbuilt.failed hcheck)

/-- A keyword is accepted as the name of a property, once. -/
theorem names_accepted_keyword :
    (∃ r, ((RecordCache.ofRun []).request [("new", .int32)]).1 = .ok r) ∧
    ∃ e d f, Expr.parse ⟨3, fun _ => false⟩ "new(1 as new,2 as new)".toList = .ok e ∧
      Check.expr {} e ⟨.empty, .ofTable ⟨[], none⟩⟩ = (.error f, d) ∧
      f.cause = .duplicateProperty "new" ∧ f.cause.code ≠ 4001 := by
  let one : Expr := .literal (.integer 1 false .none) "1" ⟨4, 1⟩
  let two : Expr := .literal (.integer 2 false .none) "2" ⟨13, 1⟩
  let e : Expr := .newRecord [⟨"new", ⟨9, 3⟩⟩, ⟨"new", ⟨18, 3⟩⟩] [one, two] ⟨0, 22⟩
  have hone : OneName "new".toList := oneName_iff.mpr (by decide +kernel)
  have hparse : Expr.parse ⟨3, fun _ => false⟩ "new(1 as new,2 as new)".toList = .ok e := by
    with_unfolding_all rfl
  have hcheck : Check.expr {} e ⟨.empty, .ofTable ⟨[], none⟩⟩ =
      (.error ⟨.duplicateProperty "new", ⟨0, 22⟩⟩, ⟨.empty, .ofTable ⟨[], none⟩⟩) := by
    with_unfolding_all rfl
  exact ⟨(names_accepted.1 [] [("new", .int32)]).mpr ⟨by simp, by simpa using hone⟩,
    e, _, _, hparse, hcheck, rfl, names_accepted.2 _ _ e hparse _ _ _ _ hcheck⟩

end QueryExpr
