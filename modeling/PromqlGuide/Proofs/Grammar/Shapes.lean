import PromqlGuide.Proofs.Grammar.Parts
import PromqlGuide.Proofs.Written.Nesting

/-!
# What the parts without expressions look like

The converse of reading these parts back: whatever is read as label matchers, a label list,
modifiers or a postfix has the shape of one.  Such parts are also nested as little as possible,
which is computed once from their forms (`Form.nesting_le_one_of_run`).
-/
namespace PromqlGuide

open Text Written

namespace Form

variable {call : Rule → Cursor → Outcome} {known : Rule → List Written → List Char → Prop}
  {ps : List Written} {rest : List Char}

/-- One tree with a property. -/
def Single (P : Written → Prop) (ps : List Written) : Prop := ∃ w, ps = [w] ∧ P w

/-- What is read for a token is one lexeme of its kind. -/
lemma of_run_token {t : Terminal} (h : (token t).Run call known ps rest) :
    Single (Of (.token t)) ps := by
  obtain ⟨l, rfl, hkind, -⟩ := h
  exact ⟨_, rfl, l, rfl, hkind⟩

/-- What is read for a mark is the mark. -/
lemma of_run_mark {c : Char} (h : (mark c).Run call known ps rest) : Single (Of (.mark c)) ps := by
  obtain ⟨l, rfl, hkind, -⟩ := h
  exact ⟨_, rfl, l, rfl, hkind⟩

/-- What is read for a mark starts with it. -/
lemma before_of_run_mark {c : Char} {m : List Char} (h : (mark c).Run call known ps rest)
    (hc : c ∈ m) : Before m (textAll ps ++ rest) := by
  obtain ⟨l, rfl, hkind, hfound⟩ := h
  simpa using before_of_found hfound hkind hc

/-- What is read for an optional form has its shape or is nothing. -/
lemma maybe_of_run {f : Form} {P : Written → Prop}
    (hf : f.Run call known ps rest → Single P ps) (h : (optional f).Run call known ps rest) :
    Maybe P ps := by
  rcases h with h | ⟨-, h⟩
  · exact Or.inr (hf h)
  · exact Or.inl h

/-! ### Lists between marks -/

section lists

variable {item : Form} {P : Written → Prop} {right : Char}
  (hitem : ∀ ps rest, item.Run call known ps rest → Laid ps rest → Before [',', right] rest →
    Single P ps)
include hitem

/-- What is read of further items has commas between the items. -/
lemma separated_of_repeats {stop : List Char → Prop}
    (h : Repeats ((seq (mark ',') item).Run call known) stop ps rest) (hlaid : Laid ps rest)
    (hright : Before [',', right] rest) :
    Before [',', right] (textAll ps ++ rest) ∧ ∀ w, P w → Separated P (w :: ps) := by
  induction h with
  | nil => exact ⟨hright, fun w hw => .one hw⟩
  | cons hone _ _ ih =>
    obtain ⟨hlaidOne, hlaidMore⟩ := laid_append.1 hlaid
    obtain ⟨hbefore, hmore⟩ := ih hlaidMore hright
    obtain ⟨comma, vs, rfl, runComma, runItem⟩ := hone
    obtain ⟨v, rfl, hv⟩ := hitem _ _ runItem (laid_append.1 hlaidOne).2 hbefore
    obtain ⟨u, rfl, hu⟩ := of_run_mark runComma
    refine ⟨?_, fun w hw => .cons hw hu (hmore v hv)⟩
    simpa using before_of_run_mark (m := [',', right]) runComma (by simp)

/-- What is read as a list is one. -/
theorem separated_of_run (h : (commaSeparated item).Run call known ps rest) (hlaid : Laid ps rest)
    (hright : Before [',', right] rest) : Separated P ps := by
  rcases h with ⟨ws, more, rfl, runItem, hmore⟩ | ⟨-, rfl⟩
  · obtain ⟨hlaidFirst, hlaidMore⟩ := laid_append.1 hlaid
    obtain ⟨hbefore, hseparated⟩ := separated_of_repeats hitem hmore hlaidMore hright
    obtain ⟨w, rfl, hw⟩ := hitem _ _ runItem hlaidFirst hbefore
    exact hseparated w hw
  · exact .nil

/-- What is read as a list between marks is one. -/
theorem enclosed_of_run {left : Char}
    (h : (sequence [mark left, commaSeparated item, mark right]).Run call known ps rest)
    (hlaid : Laid ps rest) : Enclosed left right P ps := by
  obtain ⟨os, more, rfl, runOpening, inside, cs, rfl, hinside, runClosing⟩ := h
  obtain ⟨-, hlaidMore⟩ := laid_append.1 hlaid
  have hseparated := separated_of_run hitem hinside (laid_append.1 hlaidMore).1
    (before_of_run_mark runClosing (by simp))
  obtain ⟨opening, rfl, hopening⟩ := of_run_mark runOpening
  obtain ⟨closing, rfl, hclosing⟩ := of_run_mark runClosing
  exact ⟨opening, inside, closing, rfl, hopening, hseparated, hclosing⟩

/-- What is read as a list between marks that may end with a comma is one. -/
theorem enclosedLoosely_of_run {left : Char}
    (h : (sequence [mark left, commaSeparated item, optional (mark ','), mark right]).Run call known
      ps rest) (hlaid : Laid ps rest) : EnclosedLoosely left right P ps := by
  obtain ⟨os, more, rfl, runOpening, inside, more, rfl, hinside, comma, cs, rfl, runComma,
    runClosing⟩ := h
  obtain ⟨-, hlaidMore⟩ := laid_append.1 hlaid
  have hbefore : Before [',', right] (textAll (comma ++ cs) ++ rest) := by
    rcases runComma with runComma | ⟨-, rfl⟩
    · simpa using before_of_run_mark (m := [',', right]) runComma (by simp)
    · exact before_of_run_mark runClosing (by simp)
  have hseparated := separated_of_run hitem hinside (laid_append.1 hlaidMore).1 hbefore
  obtain ⟨opening, rfl, hopening⟩ := of_run_mark runOpening
  obtain ⟨closing, rfl, hclosing⟩ := of_run_mark runClosing
  exact ⟨opening, inside, comma, closing, by simp, hopening, hseparated,
    maybe_of_run of_run_mark runComma, hclosing⟩

end lists

/-! ### Labels and matchers -/

/-- What is read for a list of labels is one. -/
lemma isGrouping_of_run (h : Grammar.groupingLabels.Run call known ps rest) (hlaid : Laid ps rest) :
    Single IsGrouping ps := by
  obtain ⟨parts, rfl, hparts⟩ := h
  exact ⟨_, rfl, parts, rfl, enclosedLoosely_of_run (fun _ _ hlabel _ _ => of_run_token hlabel)
    hparts
    (laid_phrase.1 hlaid)⟩

/-- What is read for a matcher is one. -/
lemma isMatcher_of_run (h : Grammar.matcher.Run call known ps rest) : Single IsMatcher ps := by
  rcases h with ⟨parts, rfl, ns, more, rfl, runName, os, vs, rfl, runOperator, runValue⟩ |
    ⟨-, ⟨parts, rfl, ns, more, rfl, ⟨inner, rfl, runName⟩, os, vs, rfl, runOperator, runValue⟩ |
      ⟨-, inner, rfl, runName⟩⟩
  · obtain ⟨name, rfl, hname⟩ := of_run_token runName
    obtain ⟨operator, rfl, hoperator⟩ := of_run_token runOperator
    obtain ⟨value, rfl, hvalue⟩ := of_run_token runValue
    exact ⟨_, rfl, .plain hname hoperator hvalue⟩
  · obtain ⟨name, rfl, hname⟩ := of_run_token runName
    obtain ⟨operator, rfl, hoperator⟩ := of_run_token runOperator
    obtain ⟨value, rfl, hvalue⟩ := of_run_token runValue
    exact ⟨_, rfl, .quoted hname hoperator hvalue⟩
  · obtain ⟨name, rfl, hname⟩ := of_run_token runName
    exact ⟨_, rfl, .name hname⟩

/-- What is read for a block of matchers is one. -/
lemma isLabelBlock_of_run (h : Grammar.labelMatchers.Run call known ps rest)
    (hlaid : Laid ps rest) :
    Single IsLabelBlock ps := by
  obtain ⟨parts, rfl, hparts⟩ := h
  exact ⟨_, rfl, parts, rfl, enclosedLoosely_of_run
    (fun _ _ hmatcher _ _ => isMatcher_of_run hmatcher)
    hparts (laid_phrase.1 hlaid)⟩

/-- What is read for one of two keywords is one of them. -/
lemma isEither_of_run {k k' : Keyword}
    (h : (choice (Grammar.keyword k) (Grammar.keyword k')).Run call known ps rest) :
    Single (IsEither k k') ps := by
  rcases h with h | ⟨-, h⟩
  · obtain ⟨w, rfl, hw⟩ := of_run_token h
    exact ⟨w, rfl, Or.inl hw⟩
  · obtain ⟨w, rfl, hw⟩ := of_run_token h
    exact ⟨w, rfl, Or.inr hw⟩

/-! ### Modifiers -/

/-- What is read for the modifier of an aggregation is one. -/
lemma isModifier_of_run (h : Grammar.modifier.Run call known ps rest) (hlaid : Laid ps rest) :
    Single IsModifier ps := by
  obtain ⟨parts, rfl, ks, ls, rfl, runWord, runLabels⟩ := h
  obtain ⟨labels, rfl, hlabels⟩ := isGrouping_of_run runLabels
    (laid_append.1 (laid_phrase.1 hlaid)).2
  obtain ⟨word, rfl, hword⟩ := isEither_of_run runWord
  exact ⟨_, rfl, word, labels, rfl, hword, hlabels⟩

/-- What is read for a matching clause is one. -/
lemma isMatching_of_run (h : Grammar.matching.Run call known ps rest) (hlaid : Laid ps rest) :
    Single IsMatching ps := by
  obtain ⟨parts, rfl, ks, more, rfl, runWord, ls, group, rfl, runLabels, hgroup⟩ := h
  obtain ⟨-, hlaidMore⟩ := laid_append.1 (laid_phrase.1 hlaid)
  obtain ⟨hlaidLabels, hlaidGroup⟩ := laid_append.1 hlaidMore
  obtain ⟨labels, rfl, hlabels⟩ := isGrouping_of_run runLabels hlaidLabels
  obtain ⟨word, rfl, hword⟩ := isEither_of_run runWord
  refine ⟨_, rfl, word, labels, group, rfl, hword, hlabels, ?_⟩
  rcases hgroup with ⟨ks, ls, rfl, runWord', runLabels'⟩ | ⟨-, hnone⟩
  · obtain ⟨word', rfl, hword'⟩ := isEither_of_run runWord'
    exact Or.inr ⟨word', ls, rfl, hword',
      maybe_of_run (fun h => isGrouping_of_run h (laid_append.1 hlaidGroup).2) runLabels'⟩
  · exact Or.inl hnone

/-- What is read for the modifiers of an operator is this. -/
lemma isModifiers_of_run (h : Grammar.modifiers.Run call known ps rest) (hlaid : Laid ps rest) :
    IsModifiers ps := by
  obtain ⟨bool, matching, rfl, hbool, hmatching⟩ := h
  exact ⟨bool, matching, rfl, maybe_of_run of_run_token hbool,
    maybe_of_run (fun h => isMatching_of_run h (laid_append.1 hlaid).2) hmatching⟩

/-! ### Postfixes -/

/-- What is read as a postfix is one. -/
theorem isPostfix_of_run (h : postfixForm.Run call known ps rest) :
    ∃ p parts, ps = [.phrase p parts] ∧ IsPostfix p parts := by
  rcases h with ⟨parts, rfl, os, more, rfl, runOpening, rs, cs, rfl, runRange, runClosing⟩ |
    ⟨-, ⟨parts, rfl, os, more, rfl, runOpening, rs, more, rfl, runRange, ms, more, rfl, runColon,
      step, cs, rfl, runStep, runClosing⟩ |
    ⟨-, ⟨parts, rfl, ws, more, rfl, runWord, sign, ds, rfl, runSign, runShift⟩ |
    ⟨-, parts, rfl, ms, ts, rfl, runMark, runTime⟩⟩⟩
  · obtain ⟨opening, rfl, hopening⟩ := of_run_mark runOpening
    obtain ⟨range, rfl, hrange⟩ := of_run_token runRange
    obtain ⟨closing, rfl, hclosing⟩ := of_run_mark runClosing
    exact ⟨_, _, rfl, .range hopening hrange hclosing⟩
  · obtain ⟨opening, rfl, hopening⟩ := of_run_mark runOpening
    obtain ⟨range, rfl, hrange⟩ := of_run_token runRange
    obtain ⟨colon, rfl, hcolon⟩ := of_run_mark runColon
    obtain ⟨closing, rfl, hclosing⟩ := of_run_mark runClosing
    exact ⟨_, _, rfl, .subquery hopening hrange hcolon (maybe_of_run of_run_token runStep) hclosing⟩
  · obtain ⟨word, rfl, hword⟩ := of_run_token runWord
    obtain ⟨shift, rfl, hshift⟩ := of_run_token runShift
    exact ⟨_, _, rfl, .offset hword (maybe_of_run of_run_token runSign) hshift⟩
  · obtain ⟨mark, rfl, hmark⟩ := of_run_token runMark
    rcases runTime with runTime | ⟨-, runTime⟩
    · obtain ⟨time, rfl, htime⟩ := of_run_token runTime
      exact ⟨_, _, rfl, .pinned hmark (Or.inl htime)⟩
    · obtain ⟨time, rfl, htime⟩ := of_run_token runTime
      exact ⟨_, _, rfl, .pinned hmark (Or.inr htime)⟩

/-! ### Nesting -/

/-- Whether a form reads no expressions. -/
def isFlat : Form → Bool
  | token _ | mark _ | nothing => true
  | seq f g | choice f g => f.isFlat && g.isFlat
  | many f => f.isFlat
  | phrase p body => isPlain p && body.isFlat
  | graft .. | rule _ => false

/-- Parts without expressions are nested as little as a single lexeme. -/
theorem nesting_le_one_of_run {f : Form} (hf : f.isFlat = true) (h : f.Run call known ps rest) :
    ∀ w ∈ ps, w.nesting ≤ 1 := by
  induction f generalizing ps rest with
  | token t | mark c =>
    obtain ⟨l, rfl, -⟩ := h
    simp [nesting]
  | nothing =>
    obtain rfl : ps = [] := h
    simp
  | seq f g ihf ihg =>
    obtain ⟨hf, hg⟩ := Bool.and_eq_true_iff.1 hf
    obtain ⟨qs, rs, rfl, hqs, hrs⟩ := h
    exact List.forall_mem_append.2 ⟨ihf hf hqs, ihg hg hrs⟩
  | choice f g ihf ihg =>
    obtain ⟨hf, hg⟩ := Bool.and_eq_true_iff.1 hf
    rcases h with h | ⟨-, h⟩
    · exact ihf hf h
    · exact ihg hg h
  | many f ih =>
    replace h : Repeats _ _ ps rest := h
    induction h with
    | nil => simp
    | cons hqs _ _ ihps => exact List.forall_mem_append.2 ⟨ih hf hqs, ihps⟩
  | phrase p body ih =>
    obtain ⟨hp, hbody⟩ := Bool.and_eq_true_iff.1 hf
    obtain ⟨parts, rfl, hparts⟩ := h
    simpa [nesting_of_isPlain hp] using deepest_le_iff.2 (ih hbody hparts)
  | graft f g | rule r => cases hf

end Form

end PromqlGuide
