import PromqlGuide.Proofs.Written.Matched
import PromqlGuide.Proofs.Written.Nesting

/-!
# Trees that the grammar does not tell apart

Two words are *similar* if they are of one kind and are read alike wherever the grammar asks how a
word reads.  Being an expression, its level and its nesting only depend on words up to similarity
(`Written.Matched.grammatical`).
-/
namespace PromqlGuide

/-- Whether the grammar does not tell two words apart. -/
structure Word.Similar (a b : Word) : Prop where
  kind : b.kind = a.kind
  readsAs : ∀ x : Lexical, x.isUsed = true → x ≠ .token .duration → b.readsAs x = a.readsAs x
  number : Number.tokenLength? b.text = Number.tokenLength? a.text

/-- A word is similar to itself. -/
lemma Word.Similar.refl (a : Word) : a.Similar a := ⟨rfl, fun _ _ _ => rfl, rfl⟩

namespace Written

/-- Whether the grammar does not tell two trees apart. -/
abbrev Similar : Written → Written → Prop := Matched fun l l' => l.toWord.Similar l'.toWord

/-- Whether the grammar does not tell two lists of trees apart. -/
abbrev SimilarAll : List Written → List Written → Prop := List.Forall₂ Similar

namespace Matched

variable {w v : Written} {ws vs : List Written}

/-- Similar trees stand both for a node or both for none. -/
lemma isNode (h : Similar w v) : v.isNode = w.isNode := by
  cases h with
  | lexeme hl => simp only [Written.isNode, hl.kind]
  | phrase => rfl

/-- The words of similar trees are similar. -/
lemma words (h : Similar w v) : List.Forall₂ Word.Similar w.words v.words := by
  rw [Written.words, Written.words, List.forall₂_map_left_iff, List.forall₂_map_right_iff]
  exact h.lexemes

/-- Similar trees bind equally tightly. -/
lemma level (h : Similar w v) : v.level = w.level := by
  cases h with
  | lexeme => rfl
  | @phrase p ws vs hparts =>
    cases p with
    | binary =>
      rcases hparts with _ | ⟨-, _ | ⟨hoperator, -⟩⟩
      · rfl
      · rfl
      · cases hoperator with
        | lexeme hl => simp only [Written.level, hl.kind]
        | phrase => rfl
    | _ => rfl

/-! ### Nesting -/

/-- Similar parts are both those of a power or both not. -/
lemma isPower (h : SimilarAll ws vs) : Written.isPower vs = Written.isPower ws := by
  rcases h with _ | ⟨-, _ | ⟨hoperator, -⟩⟩
  · rfl
  · rfl
  · cases hoperator with
    | lexeme hl => simp only [Written.isPower, hl.kind]
    | phrase => rfl

/-- Similar lists of trees are nested equally deep, if their trees are. -/
lemma nesting_all (h : SimilarAll ws vs) (hnesting : ∀ w ∈ ws, ∀ v, Similar w v →
    v.nesting = w.nesting) :
    deepest vs = deepest ws ∧ lastNesting vs = lastNesting ws := by
  induction h with
  | nil => exact ⟨rfl, rfl⟩
  | @cons w v ws vs hw hws ih =>
    obtain ⟨hdeepest, hlast⟩ := ih fun u hu => hnesting u (List.mem_cons_of_mem _ hu)
    have hhere := hnesting w List.mem_cons_self v hw
    refine ⟨by rw [deepest, deepest, hhere, hdeepest], ?_⟩
    cases hws with
    | nil => exact hhere
    | cons => exact hlast

/-- Similar trees are nested equally deep. -/
lemma nesting (h : Similar w v) : v.nesting = w.nesting := by
  induction w generalizing v with
  | lexeme l =>
    cases h with
    | lexeme => rfl
  | phrase p parts ih =>
    cases h with
    | phrase hparts =>
      obtain ⟨hdeepest, hlast⟩ := nesting_all hparts fun u hu v hv => ih u hu hv
      cases p with
      | binary => rw [Written.nesting, Written.nesting, isPower hparts, hdeepest, hlast]
      | _ => simp only [Written.nesting, hdeepest]

/-! ### Parts without expressions inside -/

/-- Similar lexemes are of the same kind. -/
lemma of {x : Lexical} (h : Similar w v) (hw : Of x w) : Of x v := by
  obtain ⟨l, rfl, rfl⟩ := hw
  cases h with
  | lexeme hl => exact ⟨_, rfl, hl.kind⟩

/-- What is similar to an optional part is one. -/
lemma maybe {P : Written → Prop} (h : SimilarAll ws vs) (hws : Maybe P ws)
    (hP : ∀ w v, Similar w v → P w → P v) : Maybe P vs := by
  rcases hws with rfl | ⟨w, rfl, hw⟩
  · exact Or.inl (List.forall₂_nil_left_iff.1 h)
  · obtain ⟨v, rfl, hv⟩ := exists_of_forall₂_singleton h
    exact Or.inr ⟨v, rfl, hP w v hv hw⟩

/-- What is similar to a list is a list. -/
lemma separated {P Q : Written → Prop} (h : SimilarAll ws vs) (hws : Separated P ws)
    (hP : ∀ w ∈ ws, ∀ v, Similar w v → P w → Q v) : Separated Q vs := by
  induction hws generalizing vs with
  | nil =>
    obtain rfl := List.forall₂_nil_left_iff.1 h
    exact .nil
  | one hw =>
    obtain ⟨v, rfl, hv⟩ := exists_of_forall₂_singleton h
    exact .one (hP _ List.mem_cons_self v hv hw)
  | cons hw hcomma _ ih =>
    obtain ⟨v, vs, rfl, hv, hvs⟩ := exists_of_forall₂_cons h
    obtain ⟨c, vs, rfl, hc, hvs⟩ := exists_of_forall₂_cons hvs
    have hmore := ih hvs fun u hu =>
      hP u (List.mem_cons_of_mem _ (List.mem_cons_of_mem _ hu))
    obtain ⟨u, us, rfl, -, -⟩ := exists_of_forall₂_cons hvs
    exact .cons (hP _ List.mem_cons_self v hv hw) (hc.of hcomma) hmore

/-- What is similar to a list between marks is one. -/
lemma enclosed {left right : Char} {P Q : Written → Prop} (h : SimilarAll ws vs)
    (hws : Enclosed left right P ws) (hP : ∀ w ∈ ws, ∀ v, Similar w v → P w → Q v) :
    Enclosed left right Q vs := by
  obtain ⟨opening, inside, closing, rfl, hopening, hinside, hclosing⟩ := hws
  obtain ⟨us, cs, rfl, hus, hcs⟩ := exists_of_forall₂_append h
  obtain ⟨o, is, rfl, ho, his⟩ := exists_of_forall₂_cons hus
  obtain ⟨c, rfl, hc⟩ := exists_of_forall₂_singleton hcs
  exact ⟨o, is, c, rfl, ho.of hopening,
    separated his hinside fun w hw => hP w (by simp [hw]), hc.of hclosing⟩

/-- What is similar to a list between marks is one, with a comma behind the last entry or
without. -/
lemma enclosedLoosely {left right : Char} {P : Written → Prop} (h : SimilarAll ws vs)
    (hws : EnclosedLoosely left right P ws) (hP : ∀ w v, Similar w v → P w → P v) :
    EnclosedLoosely left right P vs := by
  obtain ⟨opening, inside, comma, closing, rfl, hopening, hinside, hcomma, hclosing⟩ := hws
  obtain ⟨us, cs, rfl, hus, hcs⟩ := exists_of_forall₂_append h
  obtain ⟨us, ms, rfl, hus, hms⟩ := exists_of_forall₂_append hus
  obtain ⟨o, is, rfl, ho, his⟩ := exists_of_forall₂_cons hus
  obtain ⟨c, rfl, hc⟩ := exists_of_forall₂_singleton hcs
  exact ⟨o, is, ms, c, rfl, ho.of hopening, separated his hinside fun w _ => hP w,
    maybe hms hcomma fun _ _ => of, hc.of hclosing⟩

/-- What is similar to a quoted name is one. -/
lemma quotedName {name : Written} (h : Similar (.phrase .quotedName [name]) v)
    (hname : Of (.token .string) name) :
    ∃ name', v = .phrase .quotedName [name'] ∧ Of (.token .string) name' := by
  cases h with
  | phrase hparts =>
    obtain ⟨n, rfl, hn⟩ := exists_of_forall₂_singleton hparts
    exact ⟨n, rfl, hn.of hname⟩

/-- What is similar to a label matcher is one. -/
lemma isMatcher (h : Similar w v) (hw : IsMatcher w) : IsMatcher v := by
  cases hw with
  | plain hname hoperator hvalue =>
    cases h with
    | phrase hparts =>
      obtain ⟨n, us, rfl, hn, hus⟩ := exists_of_forall₂_cons hparts
      obtain ⟨o, us, rfl, ho, hus⟩ := exists_of_forall₂_cons hus
      obtain ⟨s, rfl, hs⟩ := exists_of_forall₂_singleton hus
      exact .plain (hn.of hname) (ho.of hoperator) (hs.of hvalue)
  | quoted hname hoperator hvalue =>
    cases h with
    | phrase hparts =>
      obtain ⟨n, us, rfl, hn, hus⟩ := exists_of_forall₂_cons hparts
      obtain ⟨o, us, rfl, ho, hus⟩ := exists_of_forall₂_cons hus
      obtain ⟨s, rfl, hs⟩ := exists_of_forall₂_singleton hus
      obtain ⟨name, rfl, hname⟩ := hn.quotedName hname
      exact .quoted hname (ho.of hoperator) (hs.of hvalue)
  | name hname =>
    obtain ⟨n, rfl, hn⟩ := h.quotedName hname
    exact .name hn

/-- What is similar to a list of label matchers is one. -/
lemma isLabelBlock (h : Similar w v) (hw : IsLabelBlock w) : IsLabelBlock v := by
  obtain ⟨parts, rfl, hparts⟩ := hw
  cases h with
  | phrase hsimilar => exact ⟨_, rfl, enclosedLoosely hsimilar hparts fun _ _ => isMatcher⟩

/-- What is similar to a list of grouping labels is one. -/
lemma isGrouping (h : Similar w v) (hw : IsGrouping w) : IsGrouping v := by
  obtain ⟨parts, rfl, hparts⟩ := hw
  cases h with
  | phrase hsimilar => exact ⟨_, rfl, enclosedLoosely hsimilar hparts fun _ _ => of⟩

/-- What is similar to one of two keywords is one of them. -/
lemma isEither {k k' : Keyword} (h : Similar w v) (hw : IsEither k k' w) : IsEither k k' v :=
  hw.imp h.of h.of

/-- What is similar to a grouping modifier is one. -/
lemma isModifier (h : Similar w v) (hw : IsModifier w) : IsModifier v := by
  obtain ⟨word, labels, rfl, hword, hlabels⟩ := hw
  cases h with
  | phrase hparts =>
    obtain ⟨u, us, rfl, hu, hus⟩ := exists_of_forall₂_cons hparts
    obtain ⟨ls, rfl, hls⟩ := exists_of_forall₂_singleton hus
    exact ⟨u, ls, rfl, hu.isEither hword, hls.isGrouping hlabels⟩

/-- What is similar to the group of a matching is one. -/
lemma isGroup (h : SimilarAll ws vs) (hws : IsGroup ws) : IsGroup vs := by
  rcases hws with rfl | ⟨word, labels, rfl, hword, hlabels⟩
  · exact Or.inl (List.forall₂_nil_left_iff.1 h)
  · obtain ⟨u, us, rfl, hu, hus⟩ := exists_of_forall₂_cons h
    exact Or.inr ⟨u, us, rfl, hu.isEither hword, maybe hus hlabels fun _ _ => isGrouping⟩

/-- What is similar to a vector matching is one. -/
lemma isMatching (h : Similar w v) (hw : IsMatching w) : IsMatching v := by
  obtain ⟨word, labels, group, rfl, hword, hlabels, hgroup⟩ := hw
  cases h with
  | phrase hparts =>
    obtain ⟨u, us, rfl, hu, hus⟩ := exists_of_forall₂_cons hparts
    obtain ⟨l, us, rfl, hl, hus⟩ := exists_of_forall₂_cons hus
    exact ⟨u, l, us, rfl, hu.isEither hword, hl.isGrouping hlabels, isGroup hus hgroup⟩

/-- What is similar to the modifiers of an operator are such modifiers. -/
lemma isModifiers (h : SimilarAll ws vs) (hws : IsModifiers ws) : IsModifiers vs := by
  obtain ⟨bool, matching, rfl, hbool, hmatching⟩ := hws
  obtain ⟨bs, ms, rfl, hbs, hms⟩ := exists_of_forall₂_append h
  exact ⟨bs, ms, rfl, maybe hbs hbool fun _ _ => of, maybe hms hmatching fun _ _ => isMatching⟩

/-- What is similar to what stands behind a base may stand there. -/
lemma isPostfix {p : Phrase} (h : SimilarAll ws vs) (hws : IsPostfix p ws) : IsPostfix p vs := by
  cases hws with
  | range hopening hrange hclosing =>
    obtain ⟨o, us, rfl, ho, hus⟩ := exists_of_forall₂_cons h
    obtain ⟨r, us, rfl, hr, hus⟩ := exists_of_forall₂_cons hus
    obtain ⟨c, rfl, hc⟩ := exists_of_forall₂_singleton hus
    exact .range (ho.of hopening) (hr.of hrange) (hc.of hclosing)
  | subquery hopening hrange hcolon hstep hclosing =>
    obtain ⟨o, us, rfl, ho, hus⟩ := exists_of_forall₂_cons h
    obtain ⟨r, us, rfl, hr, hus⟩ := exists_of_forall₂_cons hus
    obtain ⟨m, us, rfl, hm, hus⟩ := exists_of_forall₂_cons hus
    obtain ⟨ss, cs, rfl, hss, hcs⟩ := exists_of_forall₂_append hus
    obtain ⟨c, rfl, hc⟩ := exists_of_forall₂_singleton hcs
    exact .subquery (ho.of hopening) (hr.of hrange) (hm.of hcolon) (maybe hss hstep fun _ _ => of)
      (hc.of hclosing)
  | offset hword hsign hshift =>
    obtain ⟨o, us, rfl, ho, hus⟩ := exists_of_forall₂_cons h
    obtain ⟨ss, ds, rfl, hss, hds⟩ := exists_of_forall₂_append hus
    obtain ⟨d, rfl, hd⟩ := exists_of_forall₂_singleton hds
    exact .offset (ho.of hword) (maybe hss hsign fun _ _ => of) (hd.of hshift)
  | pinned hmark htime =>
    obtain ⟨m, us, rfl, hm, hus⟩ := exists_of_forall₂_cons h
    obtain ⟨t, rfl, ht⟩ := exists_of_forall₂_singleton hus
    exact .pinned (hm.of hmark) (htime.imp ht.of ht.of)

/-! ### Expressions -/

/-- Similar words end a list of labels at the same place. -/
lemma endsLabels {ls ms : List Word} (h : List.Forall₂ Word.Similar ls ms) (named : Bool) :
    Written.endsLabels named ms = Written.endsLabels named ls := by
  induction h generalizing named with
  | nil => cases named <;> rfl
  | @cons a b ls ms hab _ ih =>
    have hclosing := hab.readsAs (.mark ')') (by decide) (by decide)
    have hcomma := hab.readsAs (.mark ',') (by decide) (by decide)
    have hname := hab.readsAs (.token .labelName) rfl (by decide)
    cases named <;> simp only [Written.endsLabels, hclosing, hcomma, hname, ih]

/-- Similar words are both nothing but a comma or both not. -/
lemma commaOnly {ls ms : List Word} (h : List.Forall₂ Word.Similar ls ms) :
    Written.commaOnly ms = Written.commaOnly ls := by
  rcases h with _ | ⟨hab, _ | ⟨hcd, -⟩⟩
  · rfl
  · rfl
  · simp only [Written.commaOnly, hab.readsAs (.mark ',') (by decide) (by decide),
      hcd.readsAs (.mark ')') (by decide) (by decide)]

/-- Similar words start both a list of labels or both none. -/
lemma startsLabels {ls ms : List Word} (h : List.Forall₂ Word.Similar ls ms) :
    Written.startsLabels ms = Written.startsLabels ls := by
  cases h with
  | nil => rfl
  | cons hab h =>
    simp only [Written.startsLabels, hab.readsAs (.mark '(') (by decide) (by decide), endsLabels h,
      commaOnly h]

/-- Similar words start both with one of two keywords or both not. -/
lemma startsEither {ls ms : List Word} (h : List.Forall₂ Word.Similar ls ms) (k k' : Keyword) :
    Written.startsEither k k' ms = Written.startsEither k k' ls := by
  cases h with
  | nil => rfl
  | cons hab =>
    simp only [Written.startsEither, hab.readsAs (.token (.keyword k)) rfl (by simp),
      hab.readsAs (.token (.keyword k')) rfl (by simp)]

/-- Similar words start both a vector matching or both none. -/
lemma startsMatching {ls ms : List Word} (h : List.Forall₂ Word.Similar ls ms) :
    Written.startsMatching ms = Written.startsMatching ls := by
  have htail : List.Forall₂ Word.Similar ls.tail ms.tail := by
    cases h with
    | nil => exact .nil
    | cons _ h => exact h
  simp only [Written.startsMatching, startsEither h, startsLabels htail]

/-- Similar trees and words are equally clear of a group. -/
lemma clearOfGroup {ls ms : List Word} (h : SimilarAll ws vs)
    (hls : List.Forall₂ Word.Similar ls ms)
    (hws : ClearOfGroup ws ls) : ClearOfGroup vs ms := by
  rcases h with _ | ⟨-, _ | ⟨-, _ | ⟨-, _ | ⟨-, -⟩⟩⟩⟩
  · trivial
  · trivial
  · exact (startsEither hls _ _).trans hws
  · exact (startsLabels hls).trans hws
  · trivial

/-- Whether words may stand behind modifiers only depends on both up to similarity. -/
lemma clear {ls ms : List Word} (h : SimilarAll ws vs) (hls : List.Forall₂ Word.Similar ls ms)
    (hws : Clear ws ls) : Clear vs ms := by
  rcases h with _ | ⟨hfirst, _ | ⟨hsecond, _ | ⟨-, -⟩⟩⟩
  · exact ⟨(startsEither hls _ _).trans hws.1, (startsMatching hls).trans hws.2⟩
  · cases hfirst with
    | lexeme => exact (startsMatching hls).trans hws
    | phrase hparts => exact clearOfGroup hparts hls hws
  · cases hsecond with
    | lexeme => cases hfirst <;> trivial
    | phrase hparts => cases hfirst <;> exact clearOfGroup hparts hls hws
  · cases hfirst <;> cases hsecond <;> trivial

/-- Whether a tree is an expression only depends on its words up to similarity. -/
theorem grammatical (h : Similar w v) (hw : Grammatical Clear w) : Grammatical Clear v := by
  have body : ∀ {body body' : List Written}, SimilarAll body body' →
      (∀ w ∈ body, w.isNode = true → ∀ v, Similar w v → Grammatical Clear v) →
      ∀ v ∈ body', v.isNode = true → Grammatical Clear v := by
    intro body body' hsimilar he
    induction hsimilar with
    | nil => simp
    | cons hw _ ih =>
      refine List.forall_mem_cons.2 ⟨fun hnode => ?_, ih fun u hu =>
        he u (List.mem_cons_of_mem _ hu)⟩
      exact he _ List.mem_cons_self (hw.isNode ▸ hnode) _ hw
  -- Over the expression: `v` is taken apart along with it, constructor by constructor.
  induction hw generalizing v with
  | number hw => exact .number (h.of hw)
  | string hw => exact .string (h.of hw)
  | named hkind hnumber hblock =>
    cases h with
    | phrase hparts =>
      obtain ⟨n, us, rfl, hn, hus⟩ := exists_of_forall₂_cons hparts
      cases hn with
      | lexeme hl =>
        exact .named (hl.kind.trans hkind) (hl.number.trans hnumber)
          (maybe hus hblock fun _ _ => isLabelBlock)
  | unnamed hblock =>
    cases h with
    | phrase hparts =>
      obtain ⟨b, rfl, hb⟩ := exists_of_forall₂_singleton hparts
      exact .unnamed (hb.isLabelBlock hblock)
  | call hfunction hbody _ ih =>
    cases h with
    | phrase hparts =>
      obtain ⟨f, us, rfl, hf, hus⟩ := exists_of_forall₂_cons hparts
      obtain ⟨b, rfl, hb⟩ := exists_of_forall₂_singleton hus
      cases hb with
      | phrase hinside =>
        exact .call (hf.of hfunction)
          (enclosed hinside hbody fun w _ v hv hnode => hv.isNode.trans hnode)
          (body hinside fun w hw hnode v hv => ih w hw hnode hv)
  | aggregation hoperator hbefore hbody _ hafter hone ih =>
    cases h with
    | phrase hparts =>
      obtain ⟨us, ds, rfl, hus, hds⟩ := exists_of_forall₂_append hparts
      obtain ⟨o, bs, rfl, ho, hbs⟩ := exists_of_forall₂_cons hus
      obtain ⟨b, as, rfl, hb, has⟩ := exists_of_forall₂_cons hds
      cases hb with
      | phrase hinside =>
        refine .aggregation (ho.of hoperator) (maybe hbs hbefore fun _ _ => isModifier)
          (enclosed hinside hbody fun w _ v hv hnode => hv.isNode.trans hnode)
          (body hinside fun w hw hnode v hv => ih w hw hnode hv)
          (maybe has hafter fun _ _ => isModifier) (hone.imp ?_ ?_)
        · rintro rfl
          exact List.forall₂_nil_left_iff.1 hbs
        · rintro rfl
          exact List.forall₂_nil_left_iff.1 has
  | paren hopening _ hclosing ih =>
    cases h with
    | phrase hparts =>
      obtain ⟨o, us, rfl, ho, hus⟩ := exists_of_forall₂_cons hparts
      obtain ⟨e, us, rfl, he, hus⟩ := exists_of_forall₂_cons hus
      obtain ⟨c, rfl, hc⟩ := exists_of_forall₂_singleton hus
      exact .paren (ho.of hopening) (ih he) (hc.of hclosing)
  | postfixed _ hlevel happended ih =>
    cases h with
    | phrase hparts =>
      obtain ⟨b, us, rfl, hb, hus⟩ := exists_of_forall₂_cons hparts
      exact .postfixed (ih hb) (hb.level.symm ▸ hlevel) (isPostfix hus happended)
  | unary hsign _ hlevel ih =>
    cases h with
    | phrase hparts =>
      obtain ⟨s, us, rfl, hs, hus⟩ := exists_of_forall₂_cons hparts
      obtain ⟨e, rfl, he⟩ := exists_of_forall₂_singleton hus
      exact .unary (hsign.imp hs.of hs.of) (ih he) (he.level.symm ▸ hlevel)
  | binary _ hoperator hmodifiers hclear _ hfits ihleft ihright =>
    cases h with
    | phrase hparts =>
      obtain ⟨us, rs, rfl, hus, hrs⟩ := exists_of_forall₂_append hparts
      obtain ⟨r, rfl, hr⟩ := exists_of_forall₂_singleton hrs
      obtain ⟨l, us, rfl, hl, hus⟩ := exists_of_forall₂_cons hus
      obtain ⟨o, ms, rfl, ho, hms⟩ := exists_of_forall₂_cons hus
      cases ho with
      | lexeme hoperators =>
        refine .binary (ihleft hl) (by rw [hoperators.kind]; exact hoperator)
          (isModifiers hms hmodifiers) (clear hms hr.words hclear) (ihright hr) ?_
        rw [hl.level, hr.level]
        exact hfits

end Matched

end Written

end PromqlGuide
