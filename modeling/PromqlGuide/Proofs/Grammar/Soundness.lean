import PromqlGuide.Proofs.Grammar.Completeness
import PromqlGuide.Proofs.Grammar.Shapes

/-!
# Soundness of the grammar

Whatever the rule for expressions reads is grammatical, its right operands are clear of modifiers,
and it is nested less deep than rules were followed (`Rule.grammatical_of_run`).

The proof is an induction on the depth.  `Yields` says of a form that it only reads expressions of a
level; it is proved for the forms one after the other, from primary expressions to the loosest
operators.  A right operand decides what its modifiers can be, and for that it matters that no
parenthesis follows it: none follows an expression anywhere in a query.
-/
namespace PromqlGuide

open Text Written

namespace Form

variable {depth : Nat} {ps : List Written} {rest : List Char}

/-- Whether a tree is an expression of a level that is nested no deeper than a bound. -/
def IsExpression (level bound : Nat) (e : Written) : Prop :=
  Grammatical Clear e ∧ level ≤ e.level ∧ e.nesting ≤ bound

/-- Whether a form only reads expressions of a level that are nested no deeper than a bound. -/
def Yields (depth level bound : Nat) (f : Form) : Prop :=
  ∀ ps rest, RunAt depth f ps rest → Laid ps rest → Absent (.mark '(') rest →
    Single (IsExpression level bound) ps

/-! ### Calls and parentheses -/

/-- With room for less than two rules every expression goes too deep. -/
lemma sinks_of_lt_two (h : depth < 2) (cs : List Char) : Sinks (Rule.read depth .expression) cs :=
  match depth, h with
  | 0, _ | 1, _ => fun _ => rfl

/-- The arguments of a call need two rules, even if there are none. -/
lemma two_le_of_callBody (h : RunAt depth Grammar.callBody ps rest) : 2 ≤ depth := by
  by_contra hlt
  have hsinks := sinks_of_lt_two (Nat.lt_of_not_le hlt)
  obtain ⟨parts, rfl, os, more, rfl, -, inside, cs, rfl, hinside, -⟩ := h
  rcases hinside with ⟨qs, rs, -, hrun, -⟩ | ⟨hfails, -⟩
  · obtain ⟨stuck, hdone⟩ := Rule.reads_of_run hrun 0
    rw [hsinks _ 0] at hdone
    cases hdone
  · obtain ⟨stuck, hfailed⟩ := hfails 0
    simp [read, hsinks _ 0] at hfailed

/-- A mark is no node. -/
lemma isNode_of_mark {c : Char} {w : Written} (h : Of (.mark c) w) : w.isNode = false := by
  obtain ⟨l, rfl, hkind⟩ := h
  simp [isNode, hkind]

/-- What is enclosed are items and marks. -/
lemma forall_of_enclosed {left right : Char} {P : Written → Prop}
    (h : Enclosed left right P ps) : ∀ w ∈ ps, P w ∨ ∃ c, Of (.mark c) w := by
  obtain ⟨opening, inside, closing, rfl, hopening, hinside, hclosing⟩ := h
  simp only [List.cons_append, List.forall_mem_cons, List.forall_mem_append]
  refine ⟨Or.inr ⟨_, hopening⟩, fun w hw => ?_, Or.inr ⟨_, hclosing⟩, by simp⟩
  exact (mem_separated hinside w hw).imp_right fun hcomma => ⟨_, hcomma⟩

/-- What is read as the arguments of a call are expressions between parentheses. -/
lemma callBody_of_run (hexpr : Yields depth 0 (depth - 1) (rule .expression))
    (h : RunAt depth Grammar.callBody ps rest) (hlaid : Laid ps rest) :
    ∃ body, ps = [.phrase .callBody body] ∧ Enclosed '(' ')' (fun w => w.isNode = true) body ∧
      (∀ w ∈ body, w.isNode = true → Grammatical Clear w) ∧
      (Written.phrase .callBody body).nesting ≤ depth + 1 := by
  have hdepth := two_le_of_callBody h
  obtain ⟨body, rfl, hbody⟩ := h
  have henclosed := enclosed_of_run (P := IsExpression 0 (depth - 1))
    (fun qs rest hrun hlaid hbefore =>
      hexpr qs rest hrun hlaid (absent_of_before hbefore (by decide))) hbody (laid_phrase.1 hlaid)
  have hparts := forall_of_enclosed henclosed
  refine ⟨body, rfl, henclosed.mono fun w _ hw => isNode_of_grammatical hw.1, fun w hw hnode =>
    ?_, ?_⟩
  · rcases hparts w hw with he | ⟨c, hmark⟩
    · exact he.1
    · rw [isNode_of_mark hmark] at hnode
      cases hnode
  · have hdeepest : deepest body ≤ depth - 1 := by
      refine deepest_le_iff.2 fun w hw => ?_
      rcases hparts w hw with he | ⟨c, l, rfl, -⟩
      · exact he.2.2
      · simp only [nesting]
        omega
    simp only [nesting]
    omega

/-- A token that is an expression is a primary one. -/
lemma primary_of_token {t : Terminal} {n : Nat}
    (h : ∀ {w : Written}, Of (.token t) w → Grammatical Clear w)
    (hrun : RunAt depth (token t) ps rest) :
    Single (IsExpression 7 (n + 1)) ps := by
  obtain ⟨w, rfl, hw⟩ := of_run_token hrun
  obtain ⟨l, rfl, -⟩ := id hw
  exact ⟨_, rfl, h hw, Nat.le_refl 7, Nat.le_add_left 1 n⟩

/-- What is read for a selector is a primary expression. -/
lemma selector_of_run (h : RunAt depth Grammar.vectorSelector ps rest) (hlaid : Laid ps rest)
    (hnumber : Absent (.token .number) (textAll ps ++ rest)) :
    Single (IsExpression 7 (depth + 1)) ps := by
  have hnesting := nesting_le_one_of_run (f := Grammar.vectorSelector) rfl h
  obtain ⟨parts, rfl, hparts⟩ := h
  have hbound : (Written.phrase .vectorSelector parts).nesting ≤ depth + 1 :=
    Nat.le_trans (hnesting _ (by simp)) (Nat.le_add_left 1 depth)
  rcases hparts with ⟨names, block, rfl, ⟨l, rfl, hkind, hfound⟩, hblock⟩ | ⟨-, hblock⟩
  · have hlaidParts := laid_phrase.1 hlaid
    have hrest : endsBefore isWordPart (textAll block ++ rest) = true := by
      have hstops := stopsAt_of_laid hlaidParts
      rwa [hkind] at hstops
    have hnone : Number.tokenLength? l.text = none := by
      rw [← number_at_metric (proper_of_laid hlaidParts) hkind hrest]
      refine (absent_at_lexeme_iff (x := .token .number) hfound).1 ?_
      simpa using hnumber
    exact ⟨_, rfl, .named hkind hnone (maybe_of_run
      (fun h => isLabelBlock_of_run h (laid_append.1 hlaidParts).2) hblock), Nat.le_refl 7, hbound⟩
  · obtain ⟨w, rfl, hw⟩ := isLabelBlock_of_run hblock (laid_phrase.1 hlaid)
    exact ⟨_, rfl, .unnamed hw, Nat.le_refl 7, hbound⟩

/-- What is read for an aggregation is a primary expression. -/
lemma aggregation_of_run (hexpr : Yields depth 0 (depth - 1) (rule .expression))
    (h : RunAt depth Grammar.aggregation ps rest) (hlaid : Laid ps rest) :
    Single (IsExpression 7 (depth + 1)) ps := by
  obtain ⟨parts, rfl, os, more, rfl, runOperator, hmore⟩ := h
  obtain ⟨-, hlaidMore⟩ := laid_append.1 (laid_phrase.1 hlaid)
  obtain ⟨operator, rfl, hoperator⟩ := of_run_token runOperator
  have hone : operator.nesting ≤ 1 := by
    obtain ⟨l, rfl, -⟩ := hoperator
    exact Nat.le_refl 1
  rcases hmore with ⟨before, bs, rfl, runBefore, runBody⟩ | ⟨-, bs, after, rfl, runBody, runAfter⟩
  · obtain ⟨hlaidBefore, hlaidBody⟩ := laid_append.1 hlaidMore
    have hflat := nesting_le_one_of_run (f := Grammar.modifier) rfl runBefore
    obtain ⟨modifier, rfl, hmodifier⟩ := isModifier_of_run runBefore hlaidBefore
    obtain ⟨body, rfl, hbody, he, hnesting⟩ := callBody_of_run hexpr runBody hlaidBody
    refine ⟨_, rfl, Grammatical.aggregation hoperator
      (Or.inr ⟨_, rfl, hmodifier⟩) hbody he (Or.inl rfl) (Or.inr rfl), Nat.le_refl 7, ?_⟩
    rw [nesting_of_isPlain rfl, deepest_le_iff]
    have hmodifier := hflat modifier (by simp)
    simp only [List.cons_append, List.nil_append, List.forall_mem_cons]
    exact ⟨by omega, by omega, hnesting, by simp⟩
  · obtain ⟨hlaidBody, hlaidAfter⟩ := laid_append.1 hlaidMore
    have hflat := nesting_le_one_of_run (f := optional Grammar.modifier) rfl runAfter
    obtain ⟨body, rfl, hbody, he, hnesting⟩ := callBody_of_run hexpr runBody hlaidBody
    refine ⟨_, rfl, Grammatical.aggregation hoperator (Or.inl rfl) hbody he
      (maybe_of_run (fun h => isModifier_of_run h hlaidAfter) runAfter) (Or.inl rfl),
      Nat.le_refl 7, ?_⟩
    rw [nesting_of_isPlain rfl, deepest_le_iff]
    simp only [List.cons_append, List.nil_append, List.forall_mem_cons]
    exact ⟨by omega, hnesting, fun w hw => Nat.le_trans (hflat w hw) (Nat.le_add_left 1 depth)⟩

/-- What is read for parentheses is a primary expression. -/
lemma paren_of_run (hexpr : Yields depth 0 (depth - 1) (rule .expression))
    (h : RunAt depth Grammar.paren ps rest) (hlaid : Laid ps rest) :
    Single (IsExpression 7 (depth + 1)) ps := by
  obtain ⟨parts, rfl, os, more, rfl, runOpening, es, cs, rfl, runInside, runClosing⟩ := h
  obtain ⟨-, hlaidMore⟩ := laid_append.1 (laid_phrase.1 hlaid)
  have hbefore : Before [')'] (textAll cs ++ rest) := before_of_run_mark runClosing (by simp)
  obtain ⟨e, rfl, he, -, hnesting⟩ := hexpr _ _ runInside (laid_append.1 hlaidMore).1
    (absent_of_before hbefore (by decide))
  obtain ⟨opening, rfl, hopening⟩ := of_run_mark runOpening
  obtain ⟨closing, rfl, hclosing⟩ := of_run_mark runClosing
  refine ⟨_, rfl, .paren hopening he hclosing, Nat.le_refl 7, ?_⟩
  have hpos := one_le_nesting_of_grammatical he
  obtain ⟨o, rfl, -⟩ := hopening
  obtain ⟨c, rfl, -⟩ := hclosing
  simp only [nesting, deepest, List.cons_append, List.nil_append]
  omega

/-- What is read as a primary expression is one. -/
lemma primary_yields (hexpr : Yields depth 0 (depth - 1) (rule .expression)) :
    Yields depth 7 (depth + 1) Grammar.primary := by
  intro ps rest h hlaid _
  rcases h with h | ⟨-, h | ⟨-, h | ⟨-, h | ⟨hnumber, h | ⟨-, h⟩⟩⟩⟩⟩
  · exact paren_of_run hexpr h hlaid
  · exact aggregation_of_run hexpr h hlaid
  · obtain ⟨parts, rfl, fs, bs, rfl, runFunction, runBody⟩ := h
    obtain ⟨body, rfl, hbody, he, hnesting⟩ := callBody_of_run hexpr runBody
      (laid_append.1 (laid_phrase.1 hlaid)).2
    obtain ⟨function, rfl, hfunction⟩ := of_run_token runFunction
    refine ⟨_, rfl, .call hfunction hbody he, Nat.le_refl 7, ?_⟩
    obtain ⟨l, rfl, -⟩ := hfunction
    rw [nesting_of_isPlain rfl]
    simp only [deepest, List.cons_append, List.nil_append, nesting] at hnesting ⊢
    omega
  · exact primary_of_token .number h
  · exact primary_of_token .string h
  · exact selector_of_run h hlaid (fails_token_iff.1 hnumber)

/-! ### Grafting -/

/-- What holds of the base and passes to each phrase put around it holds of the whole. -/
lemma attachAll_induct {P Q : Written → Prop} (hattach : ∀ b w, P b → Q w → P (attach b w))
    {base : Written} {later : List Written} (hbase : P base) (hlater : ∀ w ∈ later, Q w) :
    P (attachAll base later) := by
  induction later generalizing base with
  | nil => exact hbase
  | cons w later ih =>
    exact ih (hattach base w hbase (hlater w List.mem_cons_self)) fun v hv =>
      hlater v (List.mem_cons_of_mem w hv)

/-- No parenthesis follows what is read in front of something that starts with none. -/
lemma absent_of_run {f : Form} (hf : f.advances = true)
    (hfirst : ∀ x ∈ f.first, x.apart (.mark '(') = true) (h : RunAt depth f ps rest)
    (hlaid : Laid ps rest) : Absent (.mark '(') (textAll ps ++ rest) := by
  obtain ⟨l, ls, hlexemes, hkind⟩ := head_of_run hf h
  rw [Laid, hlexemes] at hlaid
  simpa [textAll, hlexemes] using absent_of_found (Lexeme.found_of_laidOut hlaid) (hfirst _ hkind)

/-- Each of the things that are read repeatedly has what a single one has. -/
lemma forall_of_repeats {f : Form} {Q : Written → Prop} {stop : List Char → Prop}
    (hf : f.advances = true) (hfirst : ∀ x ∈ f.first, x.apart (.mark '(') = true)
    (hone : ∀ ps rest, RunAt depth f ps rest → Laid ps rest → Absent (.mark '(') rest → Single Q ps)
    (h : Repeats (RunAt depth f) stop ps rest) (hlaid : Laid ps rest)
    (hrest : Absent (.mark '(') rest) :
    Absent (.mark '(') (textAll ps ++ rest) ∧ ∀ w ∈ ps, Q w := by
  induction h with
  | nil => exact ⟨by simpa using hrest, by simp⟩
  | cons hqs _ _ ih =>
    obtain ⟨hlaidFirst, hlaidMore⟩ := laid_append.1 hlaid
    obtain ⟨habsent, hmore⟩ := ih hlaidMore hrest
    have hparen := absent_of_run hf hfirst hqs hlaidFirst
    obtain ⟨w, rfl, hw⟩ := hone _ _ hqs hlaidFirst habsent
    exact ⟨by simpa using hparen, List.forall_mem_append.2 ⟨by simpa using hw, hmore⟩⟩

/-- Postfixes are read around a primary expression. -/
lemma postfixed_yields (hprimary : Yields depth 7 (depth + 1) Grammar.primary) :
    Yields depth 7 (depth + 1) Grammar.postfixed := by
  intro ps rest h hlaid hrest
  obtain ⟨base, later, rfl, -, htakes, runBase, runLater⟩ := h
  have hlaidBoth : Laid [base] (textAll later ++ rest) ∧ Laid later rest := by
    rw [← laid_append]
    simpa [Laid, lexemesAll, lexemes_attachAll htakes] using hlaid
  have hpostfixes := forall_of_repeats (f := postfixForm)
    (Q := fun w => ∃ p parts, w = .phrase p parts ∧ IsPostfix p parts ∧ w.nesting ≤ 1) rfl
    (by decide)
    (fun qs rest hrun _ _ => by
      have hflat := nesting_le_one_of_run (f := postfixForm) rfl hrun
      obtain ⟨p, parts, rfl, happended⟩ := isPostfix_of_run hrun
      exact ⟨_, rfl, p, parts, rfl, happended, hflat _ (by simp)⟩) runLater hlaidBoth.2 hrest
  obtain ⟨e, heq, hbase⟩ := hprimary _ _ runBase hlaidBoth.1 hpostfixes.1
  obtain rfl : base = e := by simpa using heq
  refine ⟨_, rfl, attachAll_induct ?_ hbase hpostfixes.2⟩
  rintro b _ ⟨hb, hlevel, hnesting⟩ ⟨p, parts, rfl, happended, hflat⟩
  refine ⟨.postfixed hb hlevel happended, Nat.le_of_eq (level_of_isPostfix happended b).symm, ?_⟩
  have hplain : isPlain p = true := by cases happended <;> rfl
  rw [nesting_of_isPlain hplain] at hflat
  simp only [attach, nesting_of_isPlain hplain, deepest]
  omega

/-! ### Modifiers and operations -/

/-- An optional part does not keep a sequence from being read. -/
lemma fails_of_seq_optional {call : Rule → Cursor → Outcome} {f g : Form} {cs : List Char}
    (h : Fails ((seq f (optional g)).read call) cs) : Fails (f.read call) cs := by
  intro position
  obtain ⟨stuck, hfailed⟩ := h position
  cases hread : f.read call ⟨position, cs⟩ with
  | failed stuck => exact ⟨stuck, rfl⟩
  | tooDeep => simp [read, hread] at hfailed
  | done items next further =>
    simp only [read, hread] at hfailed
    cases hoptional : (optional g).read call next with
    | failed stuck => exact absurd hoptional (passes_optional g next.rest next.position stuck)
    | done items' next' further' => simp [hoptional, Outcome.after] at hfailed
    | tooDeep => simp [hoptional, Outcome.after] at hfailed

/-- The modifiers that are read take all that can be taken from the right operand. -/
lemma clear_of_run {modifiers : List Written} {l : Lexeme} {ls : List Lexeme}
    (h : RunAt depth Grammar.modifiers modifiers (Lexeme.writtenAll (l :: ls) ++ rest))
    (hlaid : Lexeme.LaidOut (l :: ls) rest) (hstart : l.kind ∈ Rule.starters)
    (hcloses : Closes (l :: ls)) (hrest : Absent (.mark '(') rest) :
    Clear modifiers ((l :: ls).map Lexeme.toWord) := by
  obtain ⟨bool, matching, rfl, hbool, hmatching⟩ := h
  rcases hmatching with ⟨parts, rfl, ks, more, rfl, runWord, ls', group, rfl, runLabels, hgroup⟩ |
    ⟨hfails, rfl⟩
  · have hgroupClear : ClearOfGroup (ks ++ (ls' ++ group)) ((l :: ls).map Lexeme.toWord) := by
      obtain ⟨word, rfl, -⟩ := isEither_of_run runWord
      obtain ⟨labels, rfl, -⟩ := runLabels
      rcases hgroup with ⟨ks', labels', rfl, runWord', hlabels'⟩ | ⟨hfails, rfl⟩
      · obtain ⟨word', rfl, -⟩ := isEither_of_run runWord'
        rcases hlabels' with ⟨labels'', rfl, -⟩ | ⟨hfails, rfl⟩
        · trivial
        · exact (fails_grouping_iff hlaid hcloses (by simp)).1 hfails
      · exact (fails_either_iff hlaid hstart).1 (fails_of_seq_optional hfails)
    rcases hbool with runBool | ⟨-, rfl⟩
    · obtain ⟨word, rfl, l', rfl, -⟩ := of_run_token runBool
      exact hgroupClear
    · exact hgroupClear
  · have hnone := (fails_matching_iff hlaid hstart hcloses hrest).1 hfails
    rcases hbool with runBool | ⟨hfails, rfl⟩
    · obtain ⟨word, rfl, l', rfl, -⟩ := of_run_token runBool
      exact hnone
    · refine ⟨?_, hnone⟩
      have hword := (absent_keyword_iff hlaid.1 hlaid.2.1 (Lexeme.found_of_laidOut hlaid) hstart).1
        (fails_token_iff.1 (by simpa [Grammar.keyword] using hfails))
      simpa [startsEither] using hword

/-- Whether a tree is an operator with its modifiers and its right operand: the level of the
operator, the least level of the operand, and a bound for its nesting. -/
def IsOperation (k level bound : Nat) (w : Written) : Prop :=
  ∃ operator modifiers right, w = .phrase .binary (.lexeme operator :: modifiers ++ [right]) ∧
    operatorLevel? operator.kind = some k ∧ IsModifiers modifiers ∧
    (∀ m ∈ modifiers, m.nesting ≤ 1) ∧ Clear modifiers right.words ∧ Grammatical Clear right ∧
    level ≤ right.level ∧ right.nesting ≤ bound

/-- What is read as an operation is one. -/
lemma isOperation_of_run {f g : Form} {k level bound : Nat}
    (hf : ∀ ps rest, RunAt depth f ps rest →
      ∃ l, ps = [.lexeme l] ∧ operatorLevel? l.kind = some k)
    (hg : Yields depth level bound g) (hadvances : g.advances = true)
    (hfirst : g.first ⊆ Rule.starters) (h : RunAt depth (Grammar.operation f g) ps rest)
    (hlaid : Laid ps rest) (hrest : Absent (.mark '(') rest) :
    Single (IsOperation k level bound) ps := by
  obtain ⟨parts, rfl, os, more, rfl, runOperator, modifiers, rs, rfl, runModifiers, runRight⟩ := h
  obtain ⟨operator, rfl, hoperator⟩ := hf _ _ runOperator
  obtain ⟨-, hlaidMore⟩ := laid_append.1 (laid_phrase.1 hlaid)
  obtain ⟨hlaidModifiers, hlaidRight⟩ := laid_append.1 hlaidMore
  obtain ⟨l, ls, hlexemes, hkind⟩ := head_of_run hadvances runRight
  obtain ⟨right, rfl, hright, hlevel, hnesting⟩ := hg _ _ runRight hlaidRight hrest
  have hlexemes : right.lexemes = l :: ls := by simpa [lexemesAll] using hlexemes
  have hclear : Clear modifiers right.words := by
    rw [words, hlexemes]
    have htext : textAll [right] = Lexeme.writtenAll (l :: ls) := by
      rw [textAll_cons, textAll_nil, List.append_nil, text, hlexemes]
    rw [htext] at runModifiers
    exact clear_of_run runModifiers (by simpa [Laid, lexemesAll, hlexemes] using hlaidRight)
      (hfirst hkind) (hlexemes ▸ (bracketed_of_grammatical hright).closes) hrest
  exact ⟨_, rfl, operator, modifiers, right, rfl, hoperator, isModifiers_of_run runModifiers
    hlaidModifiers, nesting_le_one_of_run (f := Grammar.modifiers) rfl runModifiers, hclear, hright,
    hlevel, hnesting⟩

/-- An operation around an expression that fits is an expression. -/
lemma grammatical_attach {k level bound : Nat} {left w : Written} (hleft : Grammatical Clear left)
    (hfits : ∀ right : Written, level ≤ right.level → Fits k left.level right.level)
    (hw : IsOperation k level bound w) {n : Nat} (hnesting : left.nesting ≤ n) (hbound : bound ≤ n)
    (hpower : k = 6 → bound < n) :
    Grammatical Clear (attach left w) ∧ (attach left w).level = k ∧
      (attach left w).nesting ≤ n := by
  obtain ⟨operator, modifiers, right, rfl, hoperator, hmodifiers, hflat, hclear, hright, hlevel,
    hdeep⟩ := hw
  refine ⟨.binary hleft hoperator hmodifiers hclear hright (hfits right hlevel),
    level_binary left hoperator _, ?_⟩
  have hone := Nat.le_trans (one_le_nesting_of_grammatical hleft) hnesting
  have hexponent : (if operator.kind = .token (.symbol .pow) then right.nesting + 1 else 0) ≤
    n := by
    split
    · next hpow =>
      rw [hpow] at hoperator
      have hlt := hpower (by cases hoperator; rfl)
      omega
    · exact Nat.zero_le n
  show (Written.phrase .binary (left :: .lexeme operator :: modifiers ++ [right])).nesting ≤ n
  rw [nesting_binary]
  refine Nat.max_le.2 ⟨deepest_le_iff.2 ?_, hexponent⟩
  simp only [List.cons_append, List.forall_mem_cons, List.forall_mem_append]
  exact ⟨hnesting, hone, fun m hm => Nat.le_trans (hflat m hm) hone, Nat.le_trans hdeep hbound,
    by simp⟩

/-! ### Levels -/

/-- What is read for one of several tokens is one of them. -/
lemma token_of_oneOf_run {t : Terminal} {ts : List Terminal}
    (h : RunAt depth (oneOf (token t) (ts.map token)) ps rest) :
    ∃ l, ps = [.lexeme l] ∧ ∃ x ∈ t :: ts, l.kind = .token x := by
  induction ts generalizing t with
  | nil =>
    obtain ⟨l, rfl, hkind, -⟩ := h
    exact ⟨l, rfl, t, List.mem_cons_self, hkind⟩
  | cons t' ts ih =>
    rcases h with ⟨l, rfl, hkind, -⟩ | ⟨-, h⟩
    · exact ⟨l, rfl, t, List.mem_cons_self, hkind⟩
    · obtain ⟨l, rfl, x, hx, hkind⟩ := ih h
      exact ⟨l, rfl, x, List.mem_cons_of_mem t hx, hkind⟩

/-- What is read for the operators of a level is one of them. -/
lemma operator_of_run {k : Nat} (hk : k < 5) (h : RunAt depth (levelOperator k) ps rest) :
    ∃ l, ps = [.lexeme l] ∧ operatorLevel? l.kind = some k := by
  have levels : ∀ k < 5, ∀ x ∈ (levelTokens k).1 :: (levelTokens k).2,
      operatorLevel? (.token x) = some k := by decide
  obtain ⟨l, rfl, x, hx, hkind⟩ := token_of_oneOf_run h
  exact ⟨l, rfl, hkind ▸ levels k hk x hx⟩

/-- What is read for a power is an expression of its level. -/
lemma power_yields (hpostfixed : Yields depth 7 (depth + 1) Grammar.postfixed)
    (hsigned : Yields depth 5 depth (rule .signed)) : Yields depth 5 (depth + 1) Grammar.power := by
  intro ps rest h hlaid hrest
  obtain ⟨base, later, rfl, -, htakes, runBase, runLater⟩ := h
  have hlaidBoth : Laid [base] (textAll later ++ rest) ∧ Laid later rest := by
    rw [← laid_append]
    simpa [Laid, lexemesAll, lexemes_attachAll htakes] using hlaid
  rcases runLater with runLater | ⟨-, rfl⟩
  · have hparen := absent_of_run rfl (by decide) runLater hlaidBoth.2
    obtain ⟨e, heq, he, hlevel, hnesting⟩ := hpostfixed _ _ runBase hlaidBoth.1 hparen
    obtain rfl : base = e := by simpa using heq
    obtain ⟨w, rfl, hw⟩ := isOperation_of_run (k := 6) (fun _ _ hrun => by
      obtain ⟨l, rfl, hkind, -⟩ := hrun
      exact ⟨l, rfl, by rw [hkind]; rfl⟩) hsigned rfl (fun _ hx => hx) runLater hlaidBoth.2 hrest
    obtain ⟨hg, hk, hn⟩ := grammatical_attach he (fun right hright => by
      rw [Fits, if_pos rfl]
      exact ⟨hlevel, hright⟩) hw hnesting (Nat.le_succ depth) fun _ => Nat.lt_succ_self depth
    exact ⟨_, rfl, hg, Nat.le_trans (by decide) (Nat.le_of_eq hk.symm), hn⟩
  · obtain ⟨e, heq, he, hlevel, hnesting⟩ := hpostfixed _ _ runBase hlaidBoth.1
      (by simpa using hrest)
    obtain rfl : base = e := by simpa using heq
    exact ⟨_, rfl, he, Nat.le_trans (by decide) hlevel, hnesting⟩

/-- What is read for a signed expression is one of its level. -/
lemma signed_yields (hpower : Yields depth 5 (depth + 1) Grammar.power)
    (hsigned : Yields depth 5 depth (rule .signed)) :
    Yields depth 5 (depth + 1) Grammar.signed := by
  intro ps rest h hlaid hrest
  rcases h with ⟨parts, rfl, ss, es, rfl, runSign, runInside⟩ | ⟨-, h⟩
  · obtain ⟨e, rfl, he, hlevel, hnesting⟩ := hsigned _ _ runInside
      (laid_append.1 (laid_phrase.1 hlaid)).2 hrest
    have hsign : ∃ sign, ss = [sign] ∧
        (Of (.token (.symbol .sub)) sign ∨ Of (.token (.symbol .add)) sign) ∧ sign.nesting ≤ 1 := by
      rcases runSign with runSign | ⟨-, runSign⟩
      · obtain ⟨sign, rfl, l, rfl, hkind⟩ := of_run_token runSign
        exact ⟨_, rfl, Or.inl ⟨l, rfl, hkind⟩, Nat.le_refl 1⟩
      · obtain ⟨sign, rfl, l, rfl, hkind⟩ := of_run_token runSign
        exact ⟨_, rfl, Or.inr ⟨l, rfl, hkind⟩, Nat.le_refl 1⟩
    obtain ⟨sign, rfl, hsign, hone⟩ := hsign
    refine ⟨_, rfl, .unary hsign he hlevel, Nat.le_refl 5, ?_⟩
    have hpos := one_le_nesting_of_grammatical he
    simp only [nesting, deepest, List.cons_append, List.nil_append]
    omega
  · exact hpower _ _ h hlaid hrest

/-- Operators of a level are read around an expression of the level. -/
lemma level_yields {k : Nat} (hk : k < 5)
    (hoperand : Yields depth (k + 1) depth (levelForm (k + 1))) :
    Yields depth k depth (levelForm k) := by
  intro ps rest h hlaid hrest
  rw [levelForm_eq hk] at h
  obtain ⟨base, later, rfl, -, htakes, runBase, runLater⟩ := h
  have hlaidBoth : Laid [base] (textAll later ++ rest) ∧ Laid later rest := by
    rw [← laid_append]
    simpa [Laid, lexemesAll, lexemes_attachAll htakes] using hlaid
  have hoperators : ∀ k < 5, ∀ x ∈ (levelOperator k).first, x.apart (.mark '(') = true := by
    decide
  have hadvances : ∀ k < 5, (levelOperator k).advances = true := by decide
  have hoperations := forall_of_repeats (Q := IsOperation k (k + 1) depth)
    (f := Grammar.operation (levelOperator k) (levelForm (k + 1)))
    (by simp [Grammar.operation, sequence, advances, hadvances k hk])
    (by simpa [Grammar.operation, sequence, first, hadvances k hk] using hoperators k hk)
    (fun ps rest hrun hlaid hrest => isOperation_of_run (fun _ _ => operator_of_run hk) hoperand
      (levelForm_first _).1 (levelForm_first _).2 hrun hlaid hrest) runLater hlaidBoth.2 hrest
  obtain ⟨e, heq, he, hlevel, hnesting⟩ := hoperand _ _ runBase hlaidBoth.1 hoperations.1
  obtain rfl : base = e := by simpa using heq
  refine ⟨_, rfl, attachAll_induct ?_ ⟨he, Nat.le_of_succ_le hlevel, hnesting⟩ hoperations.2⟩
  rintro b w ⟨hb, hlevel, hnesting⟩ hw
  obtain ⟨hg, hlevel, hn⟩ := grammatical_attach hb (fun right hright => by
    rw [Fits, if_neg (by omega)]
    exact ⟨hlevel, hright⟩) hw hnesting (Nat.le_refl depth) fun h => absurd h (by omega)
  exact ⟨hg, Nat.le_of_eq hlevel.symm, hn⟩

/-- At every depth, the rules only read expressions: that for signed ones those that bind tightly
enough, that for all expressions one rule deeper. -/
theorem rules_yield (depth : Nat) :
    Yields depth 0 (depth - 1) (rule .expression) ∧ Yields depth 5 depth (rule .signed) := by
  induction depth with
  | zero => exact ⟨fun _ _ h => h.elim, fun _ _ h => h.elim⟩
  | succ depth ih =>
    obtain ⟨hexpr, hsigned⟩ := ih
    have hpower := power_yields (postfixed_yields (primary_yields hexpr)) hsigned
    have hlevels : ∀ j ≤ 5, Yields depth (5 - j) depth (levelForm (5 - j)) := by
      intro j hj
      induction j with
      | zero => exact hsigned
      | succ j ihj =>
        refine level_yields (by omega) ?_
        rw [show 5 - (j + 1) + 1 = 5 - j by omega]
        exact ihj (by omega)
    exact ⟨hlevels 5 (Nat.le_refl 5), signed_yields hpower hsigned⟩

end Form

/-- What the rule for expressions reads is grammatical, and nested less deep than rules are
followed. -/
theorem Rule.grammatical_of_run {depth : Nat} {ps : List Written} {rest : List Char}
    (h : Rule.Run depth .expression ps rest) (hlaid : Laid ps rest)
    (hrest : Absent (.mark '(') rest) :
    ∃ e, ps = [e] ∧ Grammatical Clear e ∧ e.nesting < depth := by
  have hdepth : 1 ≤ depth := by
    cases depth with
    | zero => exact h.elim
    | succ depth => exact Nat.le_add_left 1 depth
  obtain ⟨e, rfl, he, -, hnesting⟩ := (Form.rules_yield depth).1 _ _ h hlaid hrest
  exact ⟨e, rfl, he, by omega⟩

end PromqlGuide
