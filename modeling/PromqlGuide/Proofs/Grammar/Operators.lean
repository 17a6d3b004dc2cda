import PromqlGuide.Proofs.Grammar.Primary

/-!
# Reading operators

Operations are read back as they are written, if their operands are.

The forms for operators that group to the left read an operand and then operators with their right
operands, and graft these on.  A tree of such operators is taken apart in the same way: the
operators along its left edge are carried along (`later` below) until the operand at the bottom is
reached.
-/
namespace PromqlGuide

open Text Written

namespace Form

/-! ### Modifiers of operators -/

section

variable {call : Rule → Cursor → Outcome} {known : Rule → List Written → List Char → Prop}
  {l : Lexeme} {ls : List Lexeme} {rest : List Char}

/-- Words that go on with no modifier let a clause that matches series end. -/
lemma run_matching {m : Written} {cs : List Char} (hm : IsMatching m) (h : Laid [m] cs)
    {w : List Word} (hclear : ∀ parts, m = .phrase .matching parts → ClearOfGroup parts w)
    (hgroup : startsEither .groupLeft .groupRight w = false →
      Fails ((choice (Grammar.keyword .groupLeft) (Grammar.keyword .groupRight)).read call) cs)
    (hlabels : startsLabels w = false → Fails (Grammar.groupingLabels.read call) cs) :
    Grammar.matching.Run call known [m] cs := by
  obtain ⟨word, labels, group, rfl, hword, hlabelList, hgroups⟩ := hm
  have hclear := hclear _ rfl
  obtain ⟨hlaidWord, hlaidMore⟩ := laid_cons.1 (laid_phrase.1 h)
  obtain ⟨hlaidLabels, hlaidGroup⟩ := laid_cons.1 hlaidMore
  refine ⟨_, rfl, [word], labels :: group, rfl, run_either (by decide) hword hlaidWord, [labels],
    group, rfl, run_grouping hlabelList hlaidLabels, ?_⟩
  rcases hgroups with rfl | ⟨word', labels', rfl, hword', hlabels'⟩
  · exact Or.inr ⟨fails_seq (hgroup hclear), rfl⟩
  · obtain ⟨hlaidWord', hlaidLabels'⟩ := laid_cons.1 hlaidGroup
    refine Or.inl ⟨[word'], labels', rfl, run_either (by decide) hword' hlaidWord', ?_⟩
    refine run_optional hlabels' (fun w hw heq => run_grouping hw (heq ▸ hlaidLabels')) fun heq =>
      ?_
    subst heq
    exact hlabels hclear

/-- Modifiers are read back in front of an operand that is clear of them. -/
lemma run_modifiers {modifiers : List Written} (hmodifiers : IsModifiers modifiers)
    (hclear : Clear modifiers ((l :: ls).map Lexeme.toWord))
    (hlaid : Laid modifiers (Lexeme.writtenAll (l :: ls) ++ rest))
    (h : Lexeme.LaidOut (l :: ls) rest) (hstart : l.kind ∈ Rule.starters)
    (hcloses : Closes (l :: ls)) (hrest : Absent (.mark '(') rest) :
    Grammar.modifiers.Run call known modifiers (Lexeme.writtenAll (l :: ls) ++ rest) := by
  have failsMatching : Fails (Grammar.matching.read call) (Lexeme.writtenAll (l :: ls) ++ rest) ↔
      startsMatching ((l :: ls).map Lexeme.toWord) = false :=
    fails_matching_iff h hstart hcloses hrest
  obtain ⟨bool, matching, rfl, hbool, hmatching⟩ := hmodifiers
  obtain ⟨hlaidBool, hlaidMatching⟩ := laid_append.1 hlaid
  refine ⟨bool, matching, rfl, run_optional hbool (fun w hw heq => run_token hw (heq ▸ hlaidBool))
    (fun heq => ?_), ?_⟩
  · subst heq
    rcases hmatching with rfl | ⟨m, rfl, word, labels, group, rfl, hword, -⟩
    · refine fails_token ?_
      have hnone : l.toWord.readsAs (.token (.keyword .bool)) = false := by
        have hstarts := hclear.1
        simp only [List.map_cons, startsEither, Bool.or_self] at hstarts
        exact hstarts
      simpa using (absent_keyword_iff h.1 h.2.1 (Lexeme.found_of_laidOut h) hstart).2 hnone
    · rw [laid_phrase] at hlaidMatching
      refine fails_token ?_
      rcases hword with hword | hword
      · simpa using absent_of_head (y := .token (.keyword .bool)) hword hlaidMatching (by decide)
      · simpa using absent_of_head (y := .token (.keyword .bool)) hword hlaidMatching (by decide)
  · rcases hmatching with rfl | ⟨m, rfl, hm⟩
    · refine Or.inr ⟨failsMatching.2 ?_, rfl⟩
      rcases hbool with rfl | ⟨b, rfl, b, rfl, -⟩
      · exact hclear.2
      · exact hclear
    · refine Or.inl (run_matching (w := (l :: ls).map Lexeme.toWord) hm hlaidMatching ?_ ?_ ?_)
      · rintro parts rfl
        rcases hbool with rfl | ⟨b, rfl, b, rfl, -⟩
        · exact hclear
        · exact hclear
      · exact (fails_either_iff h hstart).2
      · exact (fails_grouping_iff h hcloses (by simp)).2

end

/-! ### Operators -/

/-- The form for expressions of a level. -/
def levelForm : Nat → Form
  | 0 => Grammar.disjunction
  | 1 => Grammar.conjunction
  | 2 => Grammar.comparison
  | 3 => Grammar.sum
  | 4 => Grammar.product
  | _ => rule .signed

/-- The operators of a level, in the order in which they are tried. -/
def levelTokens : Nat → Terminal × List Terminal
  | 0 => (.keyword .or, [])
  | 1 => (.keyword .and, [.keyword .unlessWord])
  | 2 => (.symbol .eql, [.symbol .neq, .symbol .lte, .symbol .lss, .symbol .gte, .symbol .gtr])
  | 3 => (.symbol .add, [.symbol .sub])
  | _ => (.symbol .mul, [.symbol .div, .symbol .mod, .keyword .atan2])

/-- The form for the operators of a level. -/
def levelOperator (k : Nat) : Form :=
  oneOf (token (levelTokens k).1) ((levelTokens k).2.map token)

/-- An expression of a level is a chain of operands of the next level. -/
lemma levelForm_eq {k : Nat} (hk : k < 5) :
    levelForm k = Grammar.chain (levelForm (k + 1)) (levelOperator k) := by
  match k, hk with
  | 0, _ | 1, _ | 2, _ | 3, _ | 4, _ => rfl

section

variable {call : Rule → Cursor → Outcome} {known : Rule → List Written → List Char → Prop}
  {rest : List Char}

/-- Where no operator of a level follows, none is read. -/
lemma fails_levelOperator {k : Nat} (hk : k < 5) (h : Stops k rest) :
    Fails ((levelOperator k).read call) rest := by
  have operators : ∀ k < 5, (levelOperator k).guarded false = true ∧
      ∀ x ∈ (levelOperator k).first, (x, k) ∈ followers := by decide
  obtain ⟨hguarded, hfirst⟩ := operators k hk
  exact fails_of_absent_of_plain hguarded fun x hx =>
    h (x, k) (hfirst x hx) (Nat.le_refl k)

/-- Operators continue expressions of their level. -/
lemma mem_followers {x : Lexical} {k : Nat} (h : operatorLevel? x = some k) :
    (x, k) ∈ followers := by
  unfold operatorLevel? at h
  split at h <;> first | (cases h; decide) | cases h

/-- The shorter of two comparisons is not the longer one. -/
lemma absent_longer {s s' : Symbol} {l : Lexeme} (h : Laid [.lexeme l] rest)
    (hkind : l.kind = .token (.symbol s)) (hs : s = .lss ∨ s = .gtr)
    (hs' : s'.letters = s.letters ++ ['=']) :
    Absent (.token (.symbol s')) (textAll [.lexeme l] ++ rest) := by
  have hl := h.1
  have hstops : endsBefore (· == '=') rest = true := by
    have hstopsAt : l.kind.stopsAt l.text (textAll [] ++ rest) = true := h.2.1
    rw [hkind] at hstopsAt
    rcases hs with rfl | rfl <;> exact hstopsAt
  have htext : l.text = s.letters := by
    have hspells := hl.2.2
    rw [hkind] at hspells
    exact Terminal.literalLength_iff.1 (beq_iff_eq.1 hspells)
  have hfound : l.Found rest := by simpa using found_of_laid h
  have hnone : Terminal.literalLength? s'.letters (l.text ++ rest) = none := by
    unfold Terminal.literalLength?
    rw [if_neg]
    intro hprefix
    rw [htext, hs', List.isPrefixOf_iff_prefix, List.prefix_append_right_inj] at hprefix
    cases rest with
    | nil => simp at hprefix
    | cons c rest =>
      obtain rfl := (List.cons_prefix_cons.1 hprefix).1
      simp [endsBefore] at hstops
  simpa using (absent_at_lexeme_iff (x := .token (.symbol s')) hfound).2 hnone

/-- A token is read where those that are tried before it are absent. -/
lemma run_oneOf_token {t : Terminal} {ts : List Terminal} {l : Lexeme} {x : Terminal}
    (hx : x ∈ t :: ts) (hkind : l.kind = .token x) (h : Laid [.lexeme l] rest)
    (hearlier : ∀ y ∈ (t :: ts).takeWhile (· ≠ x),
      Absent (.token y) (textAll [.lexeme l] ++ rest)) :
    (oneOf (token t) (ts.map token)).Run call known [.lexeme l] rest := by
  induction ts generalizing t with
  | nil =>
    obtain rfl := List.mem_singleton.1 hx
    exact run_token ⟨l, rfl, hkind⟩ h
  | cons t' ts ih =>
    by_cases hne : t = x
    · subst hne
      exact Or.inl (run_token ⟨l, rfl, hkind⟩ h)
    · rw [List.takeWhile_cons_of_pos (by simpa using hne)] at hearlier
      exact Or.inr ⟨fails_token (hearlier t List.mem_cons_self),
        ih (List.mem_of_ne_of_mem (Ne.symm hne) hx) fun y hy =>
          hearlier y (List.mem_cons_of_mem _ hy)⟩

/-- Every operator is read as one of its level. -/
lemma run_levelOperator {operator : Lexeme} {k : Nat} (hk : k < 5)
    (hoperator : operatorLevel? operator.kind = some k) (h : Laid [.lexeme operator] rest) :
    (levelOperator k).Run call known [.lexeme operator] rest := by
  have listed : ∀ p ∈ followers, p.2 < 5 →
      ∃ t ∈ (levelTokens p.2).1 :: (levelTokens p.2).2, p.1 = .token t := by decide
  have earlier : ∀ k < 5, ∀ x ∈ (levelTokens k).1 :: (levelTokens k).2,
      ∀ y ∈ ((levelTokens k).1 :: (levelTokens k).2).takeWhile (· ≠ x),
        (Lexical.token x).apart (.token y) = true ∨ x = .symbol .lss ∧ y = .symbol .lte ∨
          x = .symbol .gtr ∧ y = .symbol .gte := by decide
  obtain ⟨x, hx, hkind⟩ := listed _ (mem_followers hoperator) hk
  refine run_oneOf_token hx hkind h fun y hy => ?_
  rcases earlier k hk x hx y hy with hapart | ⟨rfl, rfl⟩ | ⟨rfl, rfl⟩
  · exact absent_of_head ⟨operator, rfl, hkind⟩ h hapart
  · exact absent_longer h hkind (Or.inl rfl) rfl
  · exact absent_longer h hkind (Or.inr rfl) rfl

end

/-! ### Reading expressions of a level -/

/-- Runs at a depth. -/
abbrev RunAt (depth : Nat) (f : Form) : List Written → List Char → Prop :=
  f.Run (Rule.read depth) (Rule.Run depth)

/-- Whether a tree is read as an expression of a level, wherever nothing continues it. -/
def ReadAt (k : Nat) (e : Written) : Prop :=
  ∀ depth rest, e.nesting ≤ depth → Laid [e] rest → Stops k rest →
    RunAt depth (levelForm k) [e] rest

/-- Whether a tree is read with the operators of a level that follow it. -/
def SpineAt (k : Nat) (e : Written) : Prop :=
  ∀ depth later rest, e.nesting ≤ depth → Laid [e] (textAll later ++ rest) →
    Stops (k + 1) (textAll later ++ rest) → (∀ q ∈ later, q.takesBase = true) →
    RunAt depth (many (Grammar.operation (levelOperator k) (levelForm (k + 1)))) later rest →
    RunAt depth (levelForm k) [attachAll e later] rest

/-- Whether a tree is read with the postfixes that follow it. -/
def PostfixSpine (e : Written) : Prop :=
  ∀ depth later rest, e.nesting ≤ depth + 1 → Laid [e] (textAll later ++ rest) →
    Stops 8 (textAll later ++ rest) → (∀ q ∈ later, q.takesBase = true) →
    RunAt depth (many postfixForm) later rest →
    RunAt depth Grammar.postfixed [attachAll e later] rest

section

variable {e : Written} {k depth : Nat} {rest : List Char}

/-- No operator of a level is read where nothing continues an expression of it. -/
lemma fails_operation {call : Rule → Cursor → Outcome} (hk : k < 5) (h : Stops k rest) :
    Fails ((Grammar.operation (levelOperator k) (levelForm (k + 1))).read call) rest :=
  fails_phrase (fails_seq (fails_levelOperator hk h))

/-- A tree that is read with the operators behind it is read by itself. -/
lemma readAt_of_spineAt (hk : k < 5) (h : SpineAt k e) : ReadAt k e :=
  fun depth rest hdepth hlaid hstops => h depth [] rest hdepth hlaid (hstops.mono (Nat.le_succ k))
    (by simp) (.nil (fails_operation hk hstops))

/-- A tree that is read at the next level is read with the operators behind it. -/
lemma spineAt_of_readAt (hk : k < 5) (hnode : e.isNode = true) (h : ReadAt (k + 1) e) :
    SpineAt k e := by
  intro depth later rest hdepth hlaid hstops htakes hlater
  rw [levelForm_eq hk]
  exact ⟨e, later, rfl, hnode, htakes, h depth _ hdepth hlaid hstops, hlater⟩

/-- What is read at a level is read at every lower one. -/
lemma readAt_of_le {j : Nat} (hj : j ≤ 5) (hnode : e.isNode = true) (h : ReadAt j e) (hkj : k ≤ j) :
    ReadAt k e := by
  induction j with
  | zero =>
    obtain rfl := Nat.le_zero.1 hkj
    exact h
  | succ j ih =>
    rcases Nat.lt_or_eq_of_le hkj with hlt | rfl
    · exact ih (by omega) (readAt_of_spineAt (by omega) (spineAt_of_readAt (by omega) hnode h))
        (Nat.le_of_lt_succ hlt)
    · exact h

/-- What a form reads starts with one of its first lexemes. -/
lemma head_of_run {f : Form} {ps : List Written} (hf : f.advances = true)
    (h : RunAt depth f ps rest) : ∃ l ls, lexemesAll ps = l :: ls ∧ l.kind ∈ f.first := by
  have hne := textAll_ne_nil_of_run (fun _ _ _ => Rule.isProperNode_of_run) hf h
  have hlinked := neighbours_of_run (R := fun _ _ => True) (fun _ _ _ => Rule.isProperNode_of_run)
    (fun _ _ _ hr => ⟨(Rule.linked_of_run hr).head, (Rule.linked_of_run hr).last,
      (Rule.linked_of_run hr).chain.imp fun _ _ _ => trivial⟩) (by simp) h
  cases hlexemes : lexemesAll ps with
  | nil => simp [textAll, hlexemes] at hne
  | cons l ls =>
    have hhead := hlinked.head l.kind
    simp only [kinds, hlexemes, List.map_cons, List.head?_cons, Option.mem_some_iff] at hhead
    exact ⟨l, ls, rfl, hhead trivial⟩

/-! ### Postfixes -/

/-- A postfix starts with a lexeme that continues an expression. -/
lemma head_of_isPostfix {p : Phrase} {parts : List Written} (h : IsPostfix p parts) :
    ∃ x w ws, parts = w :: ws ∧ Of x w ∧ (x, 7) ∈ followers := by
  cases h with
  | range hopening => exact ⟨_, _, _, rfl, hopening, by decide⟩
  | subquery hopening => exact ⟨_, _, _, rfl, hopening, by decide⟩
  | offset hword => exact ⟨_, _, _, rfl, hword, by decide⟩
  | pinned hmark => exact ⟨_, _, _, rfl, hmark, by decide⟩

/-- A primary expression is read with the postfixes behind it. -/
lemma postfixSpine_of_primary (hnode : e.isNode = true)
    (h : ∀ depth rest, e.nesting ≤ depth + 1 → Laid [e] rest → Stops 8 rest →
      RunAt depth Grammar.primary [e] rest) : PostfixSpine e :=
  fun depth later _ hdepth hlaid hstops htakes hlater =>
    ⟨e, later, rfl, hnode, htakes, h depth _ hdepth hlaid hstops, hlater⟩

/-- A tree with a postfix is read with those that follow if the tree without it is. -/
lemma postfixSpine_postfixed {p : Phrase} {parts : List Written} (happended : IsPostfix p parts)
    (h : PostfixSpine e) : PostfixSpine (.phrase p (e :: parts)) := by
  intro depth later rest hdepth hlaid hstops htakes hlater
  obtain ⟨hlaidBase, hlaidParts⟩ := laid_cons.1 (laid_phrase.1 hlaid)
  have hrun : RunAt depth postfixForm [.phrase p parts] _ := run_postfix happended hlaidParts
  obtain ⟨x, w, ws, rfl, hw, hx⟩ := head_of_isPostfix happended
  refine h depth (.phrase p (w :: ws) :: later) rest
    (Nat.le_trans (nesting_le_of_mem List.mem_cons_self) hdepth) (by simpa using hlaidBase) ?_ ?_
    (Repeats.cons hrun ?_ hlater)
  · simpa using stops_of_head hw hlaidParts hx (by decide)
  · rintro q (_ | ⟨_, hq⟩)
    · rfl
    · exact htakes q hq
  · simp [text_ne_nil_of_of hw hlaidParts]

/-- A tree that is read with the postfixes behind it is read by itself. -/
lemma run_postfixed (h : PostfixSpine e) (hdepth : e.nesting ≤ depth + 1) (hlaid : Laid [e] rest)
    (hstops : Stops 7 rest) : RunAt depth Grammar.postfixed [e] rest := by
  refine h depth [] rest hdepth hlaid (hstops.mono (by decide)) (by simp) (.nil ?_)
  have first : ∀ x ∈ postfixForm.first, (x, 7) ∈ followers := by decide
  exact fails_of_absent_of_plain rfl fun x hx =>
    hstops (x, 7) (first x hx) (Nat.le_refl 7)

/-! ### Signs and powers -/

/-- A power or an expression without operators is no signed expression. -/
lemma run_signed_of_power (hlaid : Laid [e] rest) (h : RunAt depth Grammar.power [e] rest) :
    Rule.Run (depth + 1) .signed [e] rest := by
  obtain ⟨l, ls, hlexemes, hkind⟩ := head_of_run (f := Grammar.power) rfl h
  have hfound : l.Found (Lexeme.writtenAll ls ++ rest) := by
    rw [Laid, hlexemes] at hlaid
    exact Lexeme.found_of_laidOut hlaid
  have signs : ∀ x ∈ Grammar.power.first, x.apart (.token (.symbol .sub)) = true ∧
      x.apart (.token (.symbol .add)) = true := by decide
  have htext : textAll [e] ++ rest = l.gap ++ (l.text ++ (Lexeme.writtenAll ls ++ rest)) := by
    simp [textAll, hlexemes]
  refine Or.inr ⟨?_, h⟩
  rw [htext]
  exact fails_phrase (fails_seq (fails_choice
    (fails_token (absent_of_found hfound (signs _ hkind).1))
    (fails_token (absent_of_found hfound (signs _ hkind).2))))

/-- No power is read where nothing continues an expression of its level. -/
lemma fails_power_operation {call : Rule → Cursor → Outcome} (h : Stops 6 rest) :
    Fails ((Grammar.operation (Grammar.symbol .pow) (rule .signed)).read call) rest :=
  fails_phrase (fails_seq (fails_token (h (.token (.symbol .pow), 6) (by decide) (by decide))))

/-- An expression with postfixes is read as an operand of a sign. -/
lemma readAt_of_postfixSpine (hnode : e.isNode = true) (hpos : 1 ≤ e.nesting)
    (h : PostfixSpine e) : ReadAt 5 e := by
  intro depth rest hdepth hlaid hstops
  obtain ⟨d, rfl⟩ := Nat.exists_eq_add_of_le' (Nat.le_trans hpos hdepth)
  have hstops : Stops 6 rest := hstops.mono (by decide)
  refine run_signed_of_power hlaid ⟨e, [], rfl, hnode, by simp, ?_,
    Or.inr ⟨fails_power_operation hstops, rfl⟩⟩
  exact run_postfixed h hdepth hlaid (hstops.mono (by decide))

/-- A sign in front of an operand is read with it. -/
lemma readAt_unary {sign : Written}
    (hsign : Of (.token (.symbol .sub)) sign ∨ Of (.token (.symbol .add)) sign) (h : ReadAt 5 e) :
    ReadAt 5 (.phrase .unary [sign, e]) := by
  intro depth rest hdepth hlaid hstops
  have hinside : e.nesting + 1 ≤ (Written.phrase .unary [sign, e]).nesting :=
    Nat.succ_le_succ (nesting_le_deepest (by simp))
  obtain ⟨d, rfl⟩ := Nat.exists_eq_add_of_le' (Nat.le_trans (Nat.le_add_left 1 _)
    (Nat.le_trans hinside hdepth))
  obtain ⟨hlaidSign, hlaidInside⟩ := laid_cons.1 (laid_phrase.1 hlaid)
  refine Or.inl ⟨_, rfl, [sign], [e], rfl, ?_, h d rest (by omega) hlaidInside hstops⟩
  rcases hsign with hsign | hsign
  · exact Or.inl (run_token hsign hlaidSign)
  · exact Or.inr ⟨fails_token (absent_of_head hsign hlaidSign (by decide)),
      run_token hsign hlaidSign⟩

/-! ### Binary operations -/

/-- An operator, its modifiers and its right operand are read back. -/
lemma run_operation {operator right : Written} {modifiers : List Written} {f g : Form}
    (hmodifiers : IsModifiers modifiers) (hclear : Clear modifiers right.words)
    (hcloses : Closes right.lexemes)
    (hlaid : Laid (operator :: modifiers ++ [right]) rest) (hparen : Absent (.mark '(') rest)
    (hg : g.advances = true) (hfirst : g.first ⊆ Rule.starters)
    (hoperator : Laid [operator] (textAll (modifiers ++ [right]) ++ rest) →
      RunAt depth f [operator] (textAll (modifiers ++ [right]) ++ rest))
    (hright : Laid [right] rest → RunAt depth g [right] rest) :
    RunAt depth (Grammar.operation f g) [.phrase .binary (operator :: modifiers ++ [right])]
      rest := by
  simp only [List.cons_append] at hlaid ⊢
  obtain ⟨hlaidOperator, hlaidMore⟩ := laid_cons.1 hlaid
  obtain ⟨hlaidModifiers, hlaidRight⟩ := laid_append.1 hlaidMore
  have runRight := hright hlaidRight
  obtain ⟨l, ls, hlexemes, hkind⟩ := head_of_run hg runRight
  have hlexemes : right.lexemes = l :: ls := by simpa [lexemesAll] using hlexemes
  have htext : textAll [right] = Lexeme.writtenAll (l :: ls) := by
    rw [textAll_cons, textAll_nil, List.append_nil, text, hlexemes]
  have hlaidOut : Lexeme.LaidOut (l :: ls) rest := by
    simpa [Laid, lexemesAll, hlexemes] using hlaidRight
  refine ⟨_, rfl, [operator], modifiers ++ [right], rfl, hoperator hlaidOperator, modifiers,
    [right], rfl, ?_, runRight⟩
  rw [htext] at hlaidModifiers ⊢
  rw [words, hlexemes] at hclear
  exact run_modifiers hmodifiers hclear hlaidModifiers hlaidOut (hfirst hkind) (hlexemes ▸ hcloses)
    hparen

variable {left right : Written} {operator : Lexeme} {modifiers : List Written}

/-- An expression of every level reads some text and starts like an expression. -/
lemma levelForm_first (k : Nat) : (levelForm k).advances = true ∧
    (levelForm k).first ⊆ Rule.starters := by
  match k with
  | 0 | 1 | 2 | 3 | 4 => exact ⟨rfl, by decide⟩
  | k + 5 => exact ⟨rfl, fun _ hx => hx⟩

/-- An operator that groups to the left is read with those that follow. -/
lemma spineAt_binary (hk : k < 5) (hoperator : operatorLevel? operator.kind = some k)
    (hmodifiers : IsModifiers modifiers) (hclear : Clear modifiers right.words)
    (hcloses : Closes right.lexemes) (hleft : SpineAt k left) (hright : ReadAt (k + 1) right) :
    SpineAt k (.phrase .binary (left :: .lexeme operator :: modifiers ++ [right])) := by
  intro depth later rest hdepth hlaid hstops htakes hlater
  simp only [List.cons_append] at hdepth hlaid ⊢
  obtain ⟨hlaidLeft, hlaidMore⟩ := laid_cons.1 (laid_phrase.1 hlaid)
  have hparen : Absent (.mark '(') (textAll later ++ rest) :=
    hstops (.mark '(', 8) (by decide) (by simp only; omega)
  have hnesting : right.nesting ≤ depth :=
    Nat.le_trans (nesting_le_of_mem (by simp)) hdepth
  have hrun : RunAt depth (Grammar.operation (levelOperator k) (levelForm (k + 1)))
      [.phrase .binary (.lexeme operator :: modifiers ++ [right])] (textAll later ++ rest) :=
    run_operation hmodifiers hclear hcloses hlaidMore hparen (levelForm_first _).1
      (levelForm_first _).2 (run_levelOperator hk hoperator)
      fun h => hright depth _ hnesting h hstops
  refine hleft depth (.phrase .binary (.lexeme operator :: modifiers ++ [right]) :: later) rest
    (Nat.le_trans (nesting_le_of_mem (by simp)) hdepth) (by simpa using hlaidLeft) ?_ ?_
    (Repeats.cons hrun ?_ hlater)
  · simpa using stops_of_head ⟨operator, rfl, rfl⟩ hlaidMore (mem_followers hoperator)
      (Nat.lt_succ_self k)
  · rintro q (_ | ⟨_, hq⟩)
    · rfl
    · exact htakes q hq
  · simp [text_ne_nil_of_found (found_of_laid hlaidMore)]

/-- A power is read as a signed expression. -/
lemma readAt_power (hoperator : operator.kind = .token (.symbol .pow))
    (hmodifiers : IsModifiers modifiers) (hclear : Clear modifiers right.words)
    (hcloses : Closes right.lexemes) (hnode : left.isNode = true) (hleft : PostfixSpine left)
    (hright : ReadAt 5 right) :
    ReadAt 5 (.phrase .binary (left :: .lexeme operator :: modifiers ++ [right])) := by
  intro depth rest hdepth hlaid hstops
  -- The exponent is one rule deeper, so the power is not read at depth zero.
  have hpower : right.nesting + 1 ≤
      (Written.phrase .binary (left :: .lexeme operator :: modifiers ++ [right])).nesting := by
    rw [nesting_binary, if_pos hoperator]
    exact Nat.le_max_right _ _
  obtain ⟨d, rfl⟩ := Nat.exists_eq_add_of_le' (Nat.le_trans (Nat.le_add_left 1 _)
    (Nat.le_trans hpower hdepth))
  have hexponent : right.nesting ≤ d := Nat.le_of_succ_le_succ (Nat.le_trans hpower hdepth)
  have hlaidAll := hlaid
  simp only [List.cons_append] at hlaidAll hdepth
  obtain ⟨hlaidLeft, hlaidMore⟩ := laid_cons.1 (laid_phrase.1 hlaidAll)
  have hparen : Absent (.mark '(') rest := hstops (.mark '(', 8) (by decide) (by decide)
  have hrun : RunAt d (Grammar.operation (Grammar.symbol .pow) (rule .signed))
      [.phrase .binary (.lexeme operator :: modifiers ++ [right])] rest :=
    run_operation hmodifiers hclear hcloses hlaidMore hparen rfl (fun _ hx => hx)
      (run_token ⟨operator, rfl, hoperator⟩) fun h => hright d rest hexponent h hstops
  refine run_signed_of_power hlaid ⟨left,
    [.phrase .binary (.lexeme operator :: modifiers ++ [right])], rfl, hnode, ?_, ?_, Or.inl hrun⟩
  · rintro q hq
    obtain rfl := List.mem_singleton.1 hq
    rfl
  · refine run_postfixed hleft (Nat.le_trans (nesting_le_of_mem (by simp)) hdepth)
      (by simpa using hlaidLeft) ?_
    simpa using stops_of_head (j := 6) ⟨operator, rfl, hoperator⟩ hlaidMore (by decide) (by decide)

end

end Form

end PromqlGuide
