import PromqlGuide.Proofs.Tree.Shape

/-!
# Expressions inside an expression

All trees inside an expression that have the kind of an expression are expressions themselves
(`Written.grammatical_of_within`): the other parts hold nothing but marks and tokens.
-/
namespace PromqlGuide.Written

variable {clear : List Written → List Word → Prop} {w v : Written} {ws : List Written}

/-- Whether a tree has the kind of an expression. -/
def HasExpressionKind (w : Written) : Prop := ∃ k, w.kind? = some k ∧ k.isExpression = true

/-- A lexeme with the kind of an expression is one. -/
lemma grammatical_lexeme {l : Lexeme} (h : HasExpressionKind (.lexeme l)) :
    Grammatical clear (.lexeme l) := by
  obtain ⟨k, hk, hexpr⟩ := h
  obtain ⟨t, ht, rfl⟩ := exists_token_of_kind hk
  cases t with
  | number => exact .number ⟨l, rfl, ht⟩
  | string => exact .string ⟨l, rfl, ht⟩
  | _ => cases hexpr

/-! ### Plain trees -/

/-- The trees that hold no phrases with the kind of an expression. -/
inductive Plain : Written → Prop where
  | lexeme (l : Lexeme) : Plain (.lexeme l)
  | phrase {p : Phrase} {parts : List Written} : (Kind.phrase p).isExpression = false →
      (∀ w ∈ parts, Plain w) → Plain (.phrase p parts)

/-- Every tree inside a plain tree is plain. -/
lemma Plain.of_within (h : Plain v) (hw : Within w v) : Plain w := by
  induction hw with
  | refl => exact h
  | part hmem _ ih =>
    cases h with
    | phrase _ hparts => exact ih (hparts _ hmem)

/-- A plain tree with the kind of an expression is one. -/
lemma Plain.grammatical (h : Plain w) (hkind : HasExpressionKind w) : Grammatical clear w := by
  cases h with
  | lexeme l => exact grammatical_lexeme hkind
  | phrase hp =>
    obtain ⟨k, hk, hexpr⟩ := hkind
    cases hk
    rw [hp] at hexpr
    cases hexpr

/-- A lexeme is plain. -/
lemma plain_of {x : Lexical} (h : Of x w) : Plain w := by
  obtain ⟨l, rfl, -⟩ := h
  exact .lexeme l

/-- An optional part is plain if it is where it is there. -/
lemma plain_maybe {P : Written → Prop} (h : Maybe P ws) (hP : ∀ w, P w → Plain w) :
    ∀ w ∈ ws, Plain w := by
  rcases h with rfl | ⟨w, rfl, hw⟩
  · simp
  · simpa using hP w hw

/-- What stands between marks is plain if its entries are. -/
lemma plain_enclosedLoosely {left right : Char} {P : Written → Prop}
    (h : EnclosedLoosely left right P ws) (hP : ∀ w, P w → Plain w) : ∀ w ∈ ws, Plain w := by
  obtain ⟨opening, inside, comma, closing, rfl, hopening, hinside, hcomma, hclosing⟩ := h
  simp only [List.cons_append, List.forall_mem_cons, List.forall_mem_append]
  exact ⟨plain_of hopening, ⟨fun w hw => (mem_separated hinside w hw).elim (hP w) plain_of,
    plain_maybe hcomma fun _ => plain_of⟩, plain_of hclosing, by simp⟩

/-- A label matcher is plain. -/
lemma plain_matcher (h : IsMatcher w) : Plain w := by
  cases h with
  | plain hname hoperator hvalue =>
    exact .phrase rfl (by simpa using ⟨plain_of hname, plain_of hoperator, plain_of hvalue⟩)
  | quoted hname hoperator hvalue =>
    have hquoted : Plain (.phrase .quotedName [_]) := .phrase rfl (by simpa using plain_of hname)
    exact .phrase rfl (by simpa using ⟨hquoted, plain_of hoperator, plain_of hvalue⟩)
  | name hname => exact .phrase rfl (by simpa using plain_of hname)

/-- A list of label matchers is plain. -/
lemma plain_labelBlock (h : IsLabelBlock w) : Plain w := by
  obtain ⟨parts, rfl, hparts⟩ := h
  exact .phrase rfl (plain_enclosedLoosely hparts fun _ => plain_matcher)

/-- A list of grouping labels is plain. -/
lemma plain_grouping (h : IsGrouping w) : Plain w := by
  obtain ⟨parts, rfl, hparts⟩ := h
  exact .phrase rfl (plain_enclosedLoosely hparts fun _ => plain_of)

/-- One of two keywords is plain. -/
lemma plain_either {k k' : Keyword} (h : IsEither k k' w) : Plain w := h.elim plain_of plain_of

/-- A grouping modifier is plain. -/
lemma plain_modifier (h : IsModifier w) : Plain w := by
  obtain ⟨word, labels, rfl, hword, hlabels⟩ := h
  exact .phrase rfl (by simpa using ⟨plain_either hword, plain_grouping hlabels⟩)

/-- A vector matching is plain. -/
lemma plain_matching (h : IsMatching w) : Plain w := by
  obtain ⟨word, labels, group, rfl, hword, hlabels, hgroup⟩ := h
  refine .phrase rfl ?_
  simp only [List.forall_mem_cons]
  refine ⟨plain_either hword, plain_grouping hlabels, ?_⟩
  rcases hgroup with rfl | ⟨word', labels', rfl, hword', hlabels'⟩
  · simp
  · simp only [List.forall_mem_cons]
    exact ⟨plain_either hword', plain_maybe hlabels' fun _ => plain_grouping⟩

/-- The modifiers of an operator are plain. -/
lemma plain_modifiers (h : IsModifiers ws) : ∀ w ∈ ws, Plain w := by
  obtain ⟨bool, matching, rfl, hbool, hmatching⟩ := h
  exact List.forall_mem_append.2 ⟨plain_maybe hbool fun _ => plain_of,
    plain_maybe hmatching fun _ => plain_matching⟩

/-- What stands behind a base is plain. -/
lemma plain_of_isPostfix {p : Phrase} (h : IsPostfix p ws) : ∀ w ∈ ws, Plain w := by
  cases h with
  | range hopening hrange hclosing =>
    simpa using ⟨plain_of hopening, plain_of hrange, plain_of hclosing⟩
  | subquery hopening hrange hcolon hstep hclosing =>
    simp only [List.cons_append, List.forall_mem_cons, List.forall_mem_append]
    exact ⟨plain_of hopening, plain_of hrange, plain_of hcolon,
      plain_maybe hstep fun _ => plain_of, plain_of hclosing, by simp⟩
  | offset hword hsign hshift =>
    simp only [List.cons_append, List.forall_mem_cons, List.forall_mem_append]
    exact ⟨plain_of hword, plain_maybe hsign fun _ => plain_of, plain_of hshift, by simp⟩
  | pinned hmark htime => simpa using ⟨plain_of hmark, htime.elim plain_of plain_of⟩

/-! ### Expressions -/

/-- Whether all trees inside a tree that have the kind of an expression are expressions. -/
def HoldsExpressions (clear : List Written → List Word → Prop) (v : Written) : Prop :=
  ∀ w, Within w v → HasExpressionKind w → Grammatical clear w

/-- A plain tree has expressions for lexemes only. -/
lemma Plain.holdsExpressions (h : Plain v) : HoldsExpressions clear v := fun _ hw =>
  (h.of_within hw).grammatical

/-- A phrase holds expressions if it is one, where it has the kind, and its parts do. -/
lemma holdsExpressions_phrase {p : Phrase} {parts : List Written}
    (h : HasExpressionKind (.phrase p parts) → Grammatical clear (.phrase p parts))
    (hparts : ∀ v ∈ parts, HoldsExpressions clear v) :
      HoldsExpressions clear (.phrase p parts) := by
  rintro w (_ | ⟨hv, hw⟩)
  · exact h
  · exact hparts _ hv w hw

/-- Call arguments hold expressions if each of them does. -/
lemma holdsExpressions_body {body : List Written}
    (hbody : Enclosed '(' ')' (fun w => w.isNode = true) body)
    (h : ∀ w ∈ body, w.isNode = true → HoldsExpressions clear w) :
    HoldsExpressions clear (.phrase .callBody body) := by
  obtain ⟨opening, inside, closing, rfl, hopening, hinside, hclosing⟩ := hbody
  refine holdsExpressions_phrase ?_ ?_
  · rintro ⟨_, ⟨⟩, hexpr⟩
    cases hexpr
  · simp only [List.cons_append, List.forall_mem_cons, List.forall_mem_append]
    refine ⟨(plain_of hopening).holdsExpressions, fun w hw => ?_,
      (plain_of hclosing).holdsExpressions, by simp⟩
    rcases mem_separated hinside w hw with hnode | hcomma
    · exact h w (by simp [hw]) hnode
    · exact (plain_of hcomma).holdsExpressions

/-- Inside an expression, what has the kind of an expression is one. -/
lemma holdsExpressions_of_grammatical {e : Written} (he : Grammatical clear e) :
    HoldsExpressions clear e := by
  have single : ∀ {w : Written}, Plain w → HoldsExpressions clear w := Plain.holdsExpressions
  have several : ∀ {ws : List Written}, (∀ w ∈ ws, Plain w) → ∀ w ∈ ws, HoldsExpressions clear w :=
    fun h w hw => (h w hw).holdsExpressions
  -- Kept, since the induction takes `he` apart and each phrase is also inside itself.
  have whole := he
  induction he with
  | number hw | string hw => exact single (plain_of hw)
  | named _ _ hblock =>
    refine holdsExpressions_phrase (fun _ => whole)
      (List.forall_mem_cons.2 ⟨single (.lexeme _), ?_⟩)
    exact several (plain_maybe hblock fun _ => plain_labelBlock)
  | unnamed hblock =>
    exact holdsExpressions_phrase (fun _ => whole)
      (several (by simpa using plain_labelBlock hblock))
  | call hfunction hbody he ih =>
    refine holdsExpressions_phrase (fun _ => whole) ?_
    simp only [List.forall_mem_cons]
    exact ⟨single (plain_of hfunction),
      holdsExpressions_body hbody fun w hw hnode => ih w hw hnode (he w hw hnode), by simp⟩
  | aggregation hoperator hbefore hbody he hafter _ ih =>
    refine holdsExpressions_phrase (fun _ => whole) ?_
    simp only [List.cons_append, List.forall_mem_cons, List.forall_mem_append]
    exact ⟨single (plain_of hoperator), several (plain_maybe hbefore fun _ => plain_modifier),
      holdsExpressions_body hbody fun w hw hnode => ih w hw hnode (he w hw hnode),
      several (plain_maybe hafter fun _ => plain_modifier)⟩
  | paren hopening he hclosing ih =>
    refine holdsExpressions_phrase (fun _ => whole) ?_
    simp only [List.forall_mem_cons]
    exact ⟨single (plain_of hopening), ih he, single (plain_of hclosing), by simp⟩
  | postfixed hbase _ happended ih =>
    refine holdsExpressions_phrase (fun _ => whole) (List.forall_mem_cons.2 ⟨ih hbase, ?_⟩)
    exact several (plain_of_isPostfix happended)
  | unary hsign he _ ih =>
    refine holdsExpressions_phrase (fun _ => whole) ?_
    simp only [List.forall_mem_cons]
    exact ⟨single (hsign.elim plain_of plain_of), ih he, by simp⟩
  | binary hleft _ hmodifiers _ hright _ ihleft ihright =>
    refine holdsExpressions_phrase (fun _ => whole) ?_
    simp only [List.cons_append, List.forall_mem_cons, List.forall_mem_append]
    exact ⟨ihleft hleft, single (.lexeme _), several (plain_modifiers hmodifiers), ihright hright,
      by simp⟩

/-- Trees inside an expression that have the kind of one are expressions. -/
theorem grammatical_of_within {e : Written} (he : Grammatical clear e) (hw : Within w e)
    (hkind : HasExpressionKind w) : Grammatical clear w :=
  holdsExpressions_of_grammatical he w hw hkind

/-- A tree is nested no deeper than one that it is in. -/
lemma nesting_le_of_within (h : Within w v) : w.nesting ≤ v.nesting := by
  induction h with
  | refl => exact Nat.le_refl _
  | part hmem _ ih => exact Nat.le_trans ih (nesting_le_of_mem hmem)

end PromqlGuide.Written
