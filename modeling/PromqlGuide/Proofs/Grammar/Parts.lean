import PromqlGuide.Proofs.Grammar.Follow
import PromqlGuide.Proofs.Written.Grammatical

/-!
# Reading the parts without expressions

Label matchers, label lists and the postfixes are read back as they are written.  A list between
marks is treated once: its items are read in front of a comma or the closing mark, and nothing that
starts an item stands there (`run_commaSeparated`).

Whether a list of labels is read decides what the modifiers of an operator take, so here the reading
is also described for words that are no such list.
-/
namespace PromqlGuide

open Text Written

/-! ### The first lexeme -/

section

variable {x y : Lexical} {w : Written} {ws : List Written} {rest : List Char}

/-- The first lexeme of trees that are laid out is found. -/
lemma found_of_laid {l : Lexeme} (h : Laid (.lexeme l :: ws) rest) : l.Found (textAll ws ++ rest) :=
  Lexeme.found_of_laidOut h

/-- Where a lexeme comes first, there is none of a kind apart from its own. -/
lemma absent_of_head (hw : Of x w) (h : Laid (w :: ws) rest) (hxy : x.apart y = true) :
    Absent y (textAll (w :: ws) ++ rest) := by
  obtain ⟨l, rfl, rfl⟩ := hw
  simpa using absent_of_found (found_of_laid h) hxy

/-- Where a mark comes first, it stands in front. -/
lemma before_of_head {c : Char} {marks : List Char} (hw : Of (.mark c) w)
    (h : Laid (w :: ws) rest) (hc : c ∈ marks) : Before marks (textAll (w :: ws) ++ rest) := by
  obtain ⟨l, rfl, hkind⟩ := hw
  simpa using before_of_found (found_of_laid h) hkind hc

/-- Where a lexeme comes first, nothing continues an expression of a higher level. -/
lemma stops_of_head {j k : Nat} (hw : Of x w) (h : Laid (w :: ws) rest) (hx : (x, j) ∈ followers)
    (hjk : j < k) : Stops k (textAll (w :: ws) ++ rest) := by
  obtain ⟨l, rfl, rfl⟩ := hw
  simpa using stops_of_follower (found_of_laid h) hx hjk

end

namespace Form

variable {call : Rule → Cursor → Outcome} {known : Rule → List Written → List Char → Prop}
  {w : Written} {ws : List Written} {rest : List Char}

/-! ### Forms for one lexeme -/

/-- A token is read. -/
lemma run_token {t : Terminal} (hw : Of (.token t) w) (h : Laid [w] rest) :
    (token t).Run call known [w] rest := by
  obtain ⟨l, rfl, hkind⟩ := hw
  exact ⟨l, rfl, hkind, by simpa using found_of_laid h⟩

/-- A mark is read. -/
lemma run_mark {c : Char} (hw : Of (.mark c) w) (h : Laid [w] rest) :
    (mark c).Run call known [w] rest := by
  obtain ⟨l, rfl, hkind⟩ := hw
  exact ⟨l, rfl, hkind, by simpa using found_of_laid h⟩

/-- A token that is absent is not read. -/
lemma fails_token {t : Terminal} (h : Absent (.token t) rest) : Fails ((token t).read call) rest :=
  readLexeme_fails (x := .token t) h

/-- A mark that is absent is not read. -/
lemma fails_mark {c : Char} (h : Absent (.mark c) rest) : Fails ((mark c).read call) rest :=
  readLexeme_fails (x := .mark c) h

/-- A lexeme that is laid out has some text. -/
lemma text_ne_nil_of_of {x : Lexical} (hw : Of x w) (h : Laid (w :: ws) rest) : w.text ≠ [] := by
  obtain ⟨l, rfl, -⟩ := hw
  simp [text_ne_nil_of_found (found_of_laid h)]

/-- What may be left out is read where it stands, and nothing where it fails. -/
lemma run_optional {f : Form} {P : Written → Prop} (hw : Maybe P ws)
    (hread : ∀ w, P w → ws = [w] → f.Run call known [w] rest)
    (hfails : ws = [] → Fails (f.read call) rest) : (optional f).Run call known ws rest := by
  rcases hw with rfl | ⟨w, rfl, hw⟩
  · exact Or.inr ⟨hfails rfl, rfl⟩
  · exact Or.inl (hread w hw rfl)

/-! ### Lists between marks -/

section lists

variable {item : Form} {P : Written → Prop} {right : Char}
  (hitem : ∀ w rest, P w → Laid [w] rest → Before [',', right] rest →
    item.Run call known [w] rest)
include hitem

/-- Items with commas between them are read up to the closing mark. -/
lemma run_moreItems (hright : Before [',', right] rest)
    (hstop : Fails ((seq (mark ',') item).read call) rest) (h : Separated P (w :: ws))
    (hlaid : Laid (w :: ws) rest) :
    item.Run call known [w] (textAll ws ++ rest) ∧
      (many (seq (mark ',') item)).Run call known ws rest := by
  generalize hlist : w :: ws = list at h hlaid
  induction h generalizing w ws with
  | nil => cases hlist
  | one hw =>
    cases hlist
    exact ⟨hitem _ _ hw hlaid hright, .nil hstop⟩
  | @cons v comma u us hv hcomma hmore ih =>
    cases hlist
    rw [laid_cons] at hlaid
    have hcommaLaid := hlaid.2
    obtain ⟨hread, hrepeats⟩ := ih rfl (laid_cons.1 hcommaLaid).2
    refine ⟨hitem _ _ hv hlaid.1 (before_of_head hcomma hcommaLaid (by simp)), ?_⟩
    obtain ⟨hlaidComma, -⟩ := laid_cons.1 hcommaLaid
    have hrun : (seq (mark ',') item).Run call known [comma, u] (textAll us ++ rest) :=
      ⟨[comma], [u], rfl, run_mark hcomma (by simpa using hlaidComma), hread⟩
    refine Repeats.cons hrun ?_ hrepeats
    simp [text_ne_nil_of_of hcomma hlaidComma]

variable (hfails : ∀ rest, Before [',', right] rest → Fails (item.read call) rest)
include hfails

/-- A list is read where a comma or the closing mark follows and does not go on with an item. -/
theorem run_commaSeparated (hright : Before [',', right] rest)
    (hstop : Fails ((seq (mark ',') item).read call) rest) (h : Separated P ws)
    (hlaid : Laid ws rest) : (commaSeparated item).Run call known ws rest := by
  cases ws with
  | nil => exact Or.inr ⟨fails_seq (hfails rest hright), rfl⟩
  | cons w ws =>
    obtain ⟨hread, hrepeats⟩ := run_moreItems hitem hright hstop h hlaid
    exact Or.inl ⟨[w], ws, rfl, hread, hrepeats⟩

/-- In front of the closing mark no further item is read. -/
lemma fails_nextItem (hne : right ≠ ',') (h : Before [right] rest) :
    Fails ((seq (mark ',') item).read call) rest := by
  refine fails_seq (fails_mark (absent_of_before h fun c hc => ?_))
  obtain rfl := List.mem_singleton.1 hc
  simp [Lexical.apart, Lexical.heads?, Lexical.opens, hne]

/-- A list between marks is read back. -/
theorem run_enclosed {left : Char} (hne : right ≠ ',') (h : Enclosed left right P ws)
    (hlaid : Laid ws rest) :
    (sequence [mark left, commaSeparated item, mark right]).Run call known ws rest := by
  obtain ⟨opening, inside, closing, rfl, hopening, hinside, hclosing⟩ := h
  rw [List.cons_append, laid_cons, laid_append] at hlaid
  have hbefore : Before [right] (textAll [closing] ++ rest) :=
    before_of_head hclosing hlaid.2.2 List.mem_cons_self
  refine ⟨[opening], inside ++ [closing], rfl, run_mark hopening hlaid.1,
    inside, [closing], rfl, ?_, run_mark hclosing hlaid.2.2⟩
  exact run_commaSeparated hitem hfails (hbefore.mono (by simp))
    (fails_nextItem hitem hfails hne hbefore) hinside hlaid.2.1

/-- A list between marks is read back, also with a comma behind its last item. -/
theorem run_enclosedLoosely {left : Char} (hne : right ≠ ',') (h : EnclosedLoosely left right P ws)
    (hlaid : Laid ws rest) :
    (sequence [mark left, commaSeparated item, optional (mark ','), mark right]).Run call known ws
      rest := by
  obtain ⟨opening, inside, comma, closing, rfl, hopening, hinside, hcomma, hclosing⟩ := h
  simp only [List.cons_append, List.append_assoc] at hlaid ⊢
  rw [laid_cons, laid_append, laid_append] at hlaid
  obtain ⟨hlaidOpening, hlaidInside, hlaidComma, hlaidClosing⟩ := hlaid
  have hbefore : Before [right] (textAll [closing] ++ rest) :=
    before_of_head hclosing hlaidClosing List.mem_cons_self
  refine ⟨[opening], inside ++ (comma ++ [closing]), rfl,
    run_mark hopening (by simpa using hlaidOpening), inside, comma ++ [closing], rfl, ?_,
    comma, [closing], rfl, ?_, run_mark hclosing hlaidClosing⟩
  · rcases hcomma with rfl | ⟨comma, rfl, hcomma⟩
    · exact run_commaSeparated hitem hfails (hbefore.mono (by simp))
        (fails_nextItem hitem hfails hne hbefore) hinside hlaidInside
    · refine run_commaSeparated hitem hfails
        (before_of_head hcomma (laid_append.2 ⟨hlaidComma, hlaidClosing⟩) (by simp)) ?_ hinside
        hlaidInside
      have readsComma : Reads ((mark ',').read call) [comma] (textAll [closing] ++ rest) :=
        reads_of_plain_run (run_mark hcomma hlaidComma)
      simpa using fails_seq_of_reads readsComma (hfails _ (hbefore.mono (by simp)))
  · refine run_optional hcomma (fun w hw heq => run_mark hw (heq ▸ hlaidComma)) fun heq => ?_
    subst heq
    refine fails_mark (absent_of_before hbefore fun c hc => ?_)
    obtain rfl := List.mem_singleton.1 hc
    simp [Lexical.apart, Lexical.heads?, Lexical.opens, hne]

end lists

/-! ### Labels and matchers -/

/-- A list of labels is read. -/
lemma run_grouping (hw : IsGrouping w) (h : Laid [w] rest) :
    Grammar.groupingLabels.Run call known [w] rest := by
  obtain ⟨parts, rfl, hparts⟩ := hw
  refine ⟨parts, rfl, run_enclosedLoosely (fun w rest hw h _ => run_token hw h)
    (fun rest h => fails_token (absent_of_before h ?_)) (by decide) hparts (laid_phrase.1 h)⟩
  decide

/-- A matcher is read. -/
lemma run_matcher (hw : IsMatcher w) (h : Laid [w] rest) (hbefore : Before [',', '\x7d'] rest) :
    Grammar.matcher.Run call known [w] rest := by
  have unquoted : ∀ {name : Written} {ws : List Written} {rest : List Char},
      Of (.token .string) name → Laid (name :: ws) rest →
      Fails ((phrase .unquotedMatcher
        (sequence [token .labelName, token .matchOperator, token .string])).read call)
        (textAll (name :: ws) ++ rest) := fun hname hlaid =>
    fails_phrase (fails_seq (fails_token (absent_of_head hname hlaid (by decide))))
  cases hw with
  | @plain name operator value hname hoperator hvalue =>
    have hlaid := laid_phrase.1 h
    obtain ⟨hlaidName, hlaidMore⟩ := laid_cons.1 hlaid
    obtain ⟨hlaidOperator, hlaidValue⟩ := laid_cons.1 hlaidMore
    exact Or.inl ⟨[name, operator, value], rfl, [name], [operator, value], rfl,
      run_token hname hlaidName, [operator], [value], rfl, run_token hoperator hlaidOperator,
      run_token hvalue hlaidValue⟩
  | @quoted name operator value hname hoperator hvalue =>
    have hlaid := laid_phrase.1 h
    obtain ⟨hlaidName, hlaidMore⟩ := laid_cons.1 hlaid
    obtain ⟨hlaidOperator, hlaidValue⟩ := laid_cons.1 hlaidMore
    refine Or.inr ⟨?_, Or.inl ⟨[.phrase .quotedName [name], operator, value], rfl,
      [.phrase .quotedName [name]], [operator, value], rfl,
      ⟨[name], rfl, run_token hname (laid_phrase.1 hlaidName)⟩, [operator], [value], rfl,
      run_token hoperator hlaidOperator, run_token hvalue hlaidValue⟩⟩
    simpa using unquoted hname (laid_phrase.1 hlaidName)
  | @name name hname =>
    have hlaid := laid_phrase.1 h
    have hrun : (phrase .quotedName (token .string)).Run call known
        [.phrase .quotedName [name]] rest := ⟨[name], rfl, run_token hname hlaid⟩
    have hread : Reads ((phrase .quotedName (token .string)).read call)
        [.phrase .quotedName [name]] rest :=
      reads_of_plain_run ⟨[name], rfl, run_token hname hlaid⟩
    refine Or.inr ⟨by simpa using unquoted hname hlaid, Or.inr ⟨?_, hrun⟩⟩
    refine fails_phrase (fails_seq_of_reads hread (fails_seq (fails_token ?_)))
    exact absent_of_before hbefore (by decide)

/-- A block of matchers is read. -/
lemma run_labelBlock (hw : IsLabelBlock w) (h : Laid [w] rest) :
    Grammar.labelMatchers.Run call known [w] rest := by
  obtain ⟨parts, rfl, hparts⟩ := hw
  refine ⟨parts, rfl, run_enclosedLoosely (fun w rest => run_matcher) (fun rest h => ?_) (by decide)
    hparts (laid_phrase.1 h)⟩
  refine fails_of_absent_of_plain rfl fun x hx => absent_of_before h ?_
  have apart : ∀ x ∈ Grammar.matcher.first, ∀ c ∈ [',', '\x7d'],
      (Lexical.mark c).apart x = true := by decide
  exact apart x hx

/-- One of two keywords is read. -/
lemma run_either {k k' : Keyword} (hkk' : (Lexical.token (.keyword k')).apart
    (.token (.keyword k)) = true) (hw : IsEither k k' w) (h : Laid [w] rest) :
    (choice (Grammar.keyword k) (Grammar.keyword k')).Run call known [w] rest := by
  rcases hw with hw | hw
  · exact Or.inl (run_token hw h)
  · exact Or.inr ⟨fails_token (absent_of_head hw h hkk'), run_token hw h⟩

/-- The modifier of an aggregation is read. -/
lemma run_modifier (hw : IsModifier w) (h : Laid [w] rest) :
    Grammar.modifier.Run call known [w] rest := by
  obtain ⟨word, labels, rfl, hword, hlabels⟩ := hw
  obtain ⟨hlaidWord, hlaidLabels⟩ := laid_cons.1 (laid_phrase.1 h)
  exact ⟨[word, labels], rfl, [word], [labels], rfl, run_either (by decide) hword hlaidWord,
    run_grouping hlabels hlaidLabels⟩

/-! ### Postfixes -/

/-- `start` and `end` are no numbers. -/
lemma absent_number_of_startOrEnd (hw : Of (.token .startOrEnd) w) (h : Laid [w] rest) :
    Absent (.token .timestamp) (textAll [w] ++ rest) := by
  obtain ⟨l, rfl, hkind⟩ := hw
  have hfound := (found_of_laid h).length
  rw [hkind] at hfound
  obtain ⟨c, cs, heq, hc⟩ := Lexical.opens_of_length hfound
  rw [Absent, textAll_cons, text_lexeme, List.append_assoc, List.append_assoc, heq]
  refine Lexical.length_eq_none ?_ cs
  by_contra hopens
  rcases Bool.or_eq_true _ _ ▸ (show (foldsTo 's' c || foldsTo 'e' c) = true from hc) with hs | he
  · have := Terminal.letter_of_opens_number (by decide) hs (Bool.not_eq_false _ ▸ hopens)
    simp at this
  · have := Terminal.letter_of_opens_number (by decide) he (Bool.not_eq_false _ ▸ hopens)
    simp at this

/-- Any postfix. -/
def postfixForm : Form :=
  oneOf Grammar.range [Grammar.subquery, Grammar.offset, Grammar.pin]

/-- A range is read. -/
lemma run_range {opening range closing : Written} (hopening : Of (.mark '[') opening)
    (hrange : Of (.token .duration) range) (hclosing : Of (.mark ']') closing)
    (h : Laid [opening, range, closing] rest) :
    Grammar.range.Run call known [.phrase .matrixSelector [opening, range, closing]] rest := by
  obtain ⟨hlaidOpening, hlaidMore⟩ := laid_cons.1 h
  obtain ⟨hlaidRange, hlaidClosing⟩ := laid_cons.1 hlaidMore
  exact ⟨_, rfl, [opening], [range, closing], rfl, run_mark hopening hlaidOpening, [range],
    [closing], rfl, run_token hrange hlaidRange, run_mark hclosing hlaidClosing⟩

/-- A range is not read where a colon follows the duration. -/
lemma fails_range {opening range colon : Written} {ws : List Written}
    (hopening : Of (.mark '[') opening) (hrange : Of (.token .duration) range)
    (hcolon : Of (.mark ':') colon) (h : Laid (opening :: range :: colon :: ws) rest) :
    Fails (Grammar.range.read call) (textAll (opening :: range :: colon :: ws) ++ rest) := by
  obtain ⟨hlaidOpening, hlaidMore⟩ := laid_cons.1 h
  obtain ⟨hlaidRange, hlaidColon⟩ := laid_cons.1 hlaidMore
  have readsOpening : Reads ((mark '[').read call) [opening]
      (textAll (range :: colon :: ws) ++ rest) :=
    reads_of_plain_run (run_mark hopening hlaidOpening)
  have readsRange : Reads ((token .duration).read call) [range] (textAll (colon :: ws) ++ rest) :=
    reads_of_plain_run (run_token hrange hlaidRange)
  have failsClosing : Fails ((sequence [mark ']']).read call) (textAll (colon :: ws) ++ rest) :=
    fails_mark (absent_of_head hcolon hlaidColon (by decide))
  have failsRange : Fails ((sequence [token .duration, mark ']']).read call)
      (textAll (range :: colon :: ws) ++ rest) := by
    simpa [sequence] using fails_seq_of_reads readsRange failsClosing
  refine fails_phrase ?_
  simpa [sequence] using fails_seq_of_reads readsOpening failsRange

/-- The range of a subquery is read. -/
lemma run_subquery {opening range colon closing : Written} {step : List Written}
    (hopening : Of (.mark '[') opening) (hrange : Of (.token .duration) range)
    (hcolon : Of (.mark ':') colon) (hstep : Maybe (Of (.token .duration)) step)
    (hclosing : Of (.mark ']') closing)
    (h : Laid (opening :: range :: colon :: step ++ [closing]) rest) :
    Grammar.subquery.Run call known
      [.phrase .subquery (opening :: range :: colon :: step ++ [closing])] rest := by
  simp only [List.cons_append] at h ⊢
  obtain ⟨hlaidOpening, hlaidMore⟩ := laid_cons.1 h
  obtain ⟨hlaidRange, hlaidMore⟩ := laid_cons.1 hlaidMore
  obtain ⟨hlaidColon, hlaidMore⟩ := laid_cons.1 hlaidMore
  obtain ⟨hlaidStep, hlaidClosing⟩ := laid_append.1 hlaidMore
  refine ⟨_, rfl, [opening], range :: colon :: (step ++ [closing]), rfl,
    run_mark hopening hlaidOpening, [range], colon :: (step ++ [closing]), rfl,
    run_token hrange hlaidRange, [colon], step ++ [closing], rfl, run_mark hcolon hlaidColon,
    step, [closing], rfl, ?_, run_mark hclosing hlaidClosing⟩
  exact run_optional hstep (fun w hw heq => run_token hw (heq ▸ hlaidStep)) fun _ =>
    fails_token (absent_of_head hclosing hlaidClosing (by decide))

/-- An offset is read. -/
lemma run_offset {word shift : Written} {sign : List Written}
    (hword : Of (.token (.keyword .offset)) word) (hsign : Maybe (Of (.token (.symbol .sub))) sign)
    (hshift : Of (.token .duration) shift) (h : Laid (word :: sign ++ [shift]) rest) :
    Grammar.offset.Run call known [.phrase .offset (word :: sign ++ [shift])] rest := by
  simp only [List.cons_append] at h ⊢
  obtain ⟨hlaidWord, hlaidMore⟩ := laid_cons.1 h
  obtain ⟨hlaidSign, hlaidShift⟩ := laid_append.1 hlaidMore
  refine ⟨_, rfl, [word], sign ++ [shift], rfl, run_token hword hlaidWord, sign, [shift], rfl, ?_,
    run_token hshift hlaidShift⟩
  exact run_optional hsign (fun w hw heq => run_token hw (heq ▸ hlaidSign)) fun _ =>
    fails_token (absent_of_head hshift hlaidShift (by decide))

/-- A time to pin to is read. -/
lemma run_pin {mark time : Written} (hmark : Of (.token (.symbol .atSign)) mark)
    (htime : Of (.token .timestamp) time ∨ Of (.token .startOrEnd) time)
    (h : Laid [mark, time] rest) :
    Grammar.pin.Run call known [.phrase .pinned [mark, time]] rest := by
  obtain ⟨hlaidMark, hlaidTime⟩ := laid_cons.1 h
  refine ⟨_, rfl, [mark], [time], rfl, run_token hmark hlaidMark, ?_⟩
  rcases htime with htime | htime
  · exact Or.inl (run_token htime hlaidTime)
  · exact Or.inr ⟨fails_token (absent_number_of_startOrEnd htime hlaidTime),
      run_token htime hlaidTime⟩

/-- Every postfix is read back. -/
theorem run_postfix {p : Phrase} {parts : List Written} (happended : IsPostfix p parts)
    (h : Laid parts rest) : postfixForm.Run call known [.phrase p parts] rest := by
  have otherMark : ∀ {x : Lexical} {w : Written} {ws : List Written} {rest : List Char} {f : Form},
      Of x w → Laid (w :: ws) rest → f.guarded false = true → (∀ y ∈ f.first, x.apart y = true) →
      Fails (f.read call) (textAll (w :: ws) ++ rest) := fun hw hlaid hf hx =>
    fails_of_absent_of_plain hf fun y hy => absent_of_head hw hlaid (hx y hy)
  cases happended with
  | range hopening hrange hclosing => exact Or.inl (run_range hopening hrange hclosing h)
  | subquery hopening hrange hcolon hstep hclosing =>
    refine Or.inr ⟨?_, Or.inl (run_subquery hopening hrange hcolon hstep hclosing h)⟩
    simpa using fails_range hopening hrange hcolon h
  | offset hword hsign hshift =>
    refine Or.inr ⟨?_, Or.inr ⟨?_, Or.inl (run_offset hword hsign hshift h)⟩⟩
    · simpa using otherMark (f := Grammar.range) hword h rfl (by decide)
    · simpa using otherMark (f := Grammar.subquery) hword h rfl (by decide)
  | pinned hmark htime =>
    refine Or.inr ⟨?_, Or.inr ⟨?_, Or.inr ⟨?_, run_pin hmark htime h⟩⟩⟩
    · simpa using otherMark (f := Grammar.range) hmark h rfl (by decide)
    · simpa using otherMark (f := Grammar.subquery) hmark h rfl (by decide)
    · simpa using otherMark (f := Grammar.offset) hmark h rfl (by decide)

end Form

end PromqlGuide
