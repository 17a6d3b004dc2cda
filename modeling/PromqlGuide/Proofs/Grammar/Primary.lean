import PromqlGuide.Proofs.Grammar.Swallow
import PromqlGuide.Proofs.Written.Nesting

/-!
# Reading expressions without operators

Numbers, strings, selectors, calls, aggregations and parentheses are read back as they are written,
if the expressions inside are.  The alternatives that are tried before the right one fail: mostly
because their first lexeme is absent, and an aggregation at a metric named like one because nothing
behind the name goes on with it.
-/
namespace PromqlGuide

open Text Written

/-! ### Lexemes that look alike -/

/-- Where arguments open, a parenthesis comes first. -/
lemma opens_of_opensCall {cs : List Char} (h : Name.opensCall cs = true) :
    ¬ Absent (.mark '(') cs := by
  unfold Name.opensCall at h
  split at h
  · next rest hdrop =>
    have hsplit := List.takeWhile_append_dropWhile (p := isSpace) (l := cs)
    rw [hdrop] at hsplit
    have hgap : isGap (cs.takeWhile isSpace) = true :=
      isGap_of_isSpace (List.all_eq_true.1 List.all_takeWhile)
    rw [← hsplit, Absent, drop_blankLength_append hgap rfl]
    simp [Lexical.length?, Terminal.literalLength?]
  · cases h

section

variable {l : Lexeme} {rest : List Char}

/-- Where no parenthesis follows, a word is no function name. -/
lemma absent_function (hl : l.Proper)
    (hword : isWord l.text = true ∨ Terminal.startsNumeral l.text = true)
    (hrest : endsBefore isWordPart rest = true) (hparen : Absent (.mark '(') rest) :
    Terminal.functionName.length? (l.text ++ rest) = none := by
  cases hlength : Terminal.functionName.length? (l.text ++ rest) with
  | none => rfl
  | some n =>
    exfalso
    have hne := Lexical.ne_nil_of_spells hl.2.2
    simp only [Terminal.length?, Name.functionLength?] at hlength
    split_ifs at hlength
    cases hlabel : Name.labelLength? (l.text ++ rest) with
    | none => simp [hlabel] at hlength
    | some m =>
      simp only [hlabel] at hlength
      split_ifs at hlength with hopens
      rcases hword with hword | hnumeral
      · rcases Name.label_in_word hne hrest hlabel with ⟨rfl, -⟩ | ⟨-, -, c, hc, more, hdrop⟩
        · rw [List.drop_left] at hopens
          exact opens_of_opensCall hopens hparen
        · have hpart := Lexeme.isWordPart_of_mem hword hc
          rw [hdrop] at hopens
          exact opens_of_opensCall hopens (Lexeme.absent_mark_of_isWordPart (by simp) hpart more)
      · cases htext : l.text with
        | nil => exact hne htext
        | cons c cs =>
          rw [htext] at hnumeral hlabel
          have hstart : isNameStart c = false := by
            rcases Bool.or_eq_true _ _ ▸ hnumeral with hdigit | hpoint
            · exact not_isNameStart_of_isDigit hdigit
            · rw [beq_iff_eq.1 hpoint]
              decide
          simp [Name.labelLength?, Name.runLength?, hstart] at hlabel

/-- No number starts like an aggregation operator. -/
lemma absent_aggregation_of_number {n : Nat} {cs : List Char}
    (h : Terminal.number.length? cs = some n) :
    Terminal.aggregationOperator.length? cs = none := by
  obtain ⟨c, more, rfl, hc⟩ := Terminal.opens_of_length h
  refine Lexical.length_eq_none (x := .token .aggregationOperator) ?_ more
  by_contra hopens
  obtain ⟨w, hw, hfold⟩ := List.any_eq_true.1 (Bool.not_eq_false _ ▸ hopens)
  have heads : ∀ w ∈ aggregationOperators, ∀ a ∈ w.head?, a ∈ smallLetters ∧ a ≠ 'i' ∧ a ≠ 'n' := by
    decide
  obtain ⟨a, ha, hac⟩ := (Option.any_eq_true _ _).1 hfold
  obtain ⟨hsmall, hi, hn⟩ := heads w hw a ha
  rcases Terminal.letter_of_opens_number hsmall hac hc with rfl | rfl
  · exact hi rfl
  · exact hn rfl

/-- No function name starts like an aggregation operator that ends there. -/
lemma absent_aggregation_of_function (hl : l.Proper) (hkind : l.kind = .token .functionName)
    (hstops : l.kind.stopsAt l.text rest = true) :
    Terminal.aggregationOperator.length? (l.text ++ rest) = none := by
  have hspells : Terminal.functionName.spells l.text = true := by
    simpa [hkind, Lexical.spells] using hl.2.2
  have hne := Lexical.ne_nil_of_spells hl.2.2
  have hreserved := ((Name.functionLength_append_iff hne
    Terminal.isSmallWord_aggregationOperators).1 (beq_iff_eq.1 hspells)).1
  rw [hkind] at hstops
  have hrest : endsBefore isWordPart rest = true := Name.endsBefore_of_opensCall hstops
  cases hlength : Terminal.aggregationOperator.length? (l.text ++ rest) with
  | none => rfl
  | some n =>
    exfalso
    have hlength : Name.anyWordLength? aggregationOperators l.text = some n := by
      rw [← Name.anyWordLength_append Terminal.isSmallWord_aggregationOperators hrest]
      exact hlength
    obtain ⟨w, hw, hwlength⟩ := List.exists_of_findSome?_eq_some hlength
    unfold Name.wordLength? at hwlength
    split_ifs at hwlength with hboth
    obtain ⟨hstarts, hends⟩ := Bool.and_eq_true_iff.1 hboth
    have hfound : Name.startsWithReserved aggregationOperators l.text = true :=
      List.any_eq_true.2 ⟨w, hw, by
        simp [hstarts, endsBefore_mono (fun _ => isWordPart_of_isMetricPart) hends]⟩
    simp [hfound] at hreserved

/-- A number is found at a metric name exactly if it is found in the name alone. -/
lemma number_at_metric (hl : l.Proper) (hkind : l.kind = .token .metricName)
    (hrest : endsBefore isWordPart rest = true) :
    Terminal.number.length? (l.text ++ rest) = Number.tokenLength? l.text := by
  obtain ⟨c, cs, htext, hopens⟩ := Lexical.opens_of_spells hl.2.2
  rw [hkind] at hopens
  have hstart : isMetricStart c = true := hopens
  have hdigit : isDigit c = false := by
    by_contra hdigit
    have hname := not_isNameStart_of_isDigit (Bool.not_eq_false _ ▸ hdigit)
    simp only [isMetricStart, hname, Bool.false_or, beq_iff_eq] at hstart
    subst hstart
    revert hdigit; decide
  have hpoint : c ≠ '.' := by
    rintro rfl
    revert hstart; decide
  have hshort := Number.tokenLength_eq_anyWordLength hdigit hpoint cs
  have hlong := Number.tokenLength_eq_anyWordLength hdigit hpoint (cs ++ rest)
  show Number.tokenLength? (l.text ++ rest) = _
  rw [htext, List.cons_append, hlong, ← List.cons_append,
    Name.anyWordLength_append Number.isSmallWord_words hrest, ← hshort]

/-- At a metric name an aggregation operator is found as a whole or not at all. -/
lemma aggregation_at_metric {n : Nat} (hword : isWord l.text = true)
    (hrest : endsBefore isWordPart rest = true)
    (h : Terminal.aggregationOperator.length? (l.text ++ rest) = some n) : n = l.text.length := by
  have hlength : Name.anyWordLength? aggregationOperators l.text = some n := by
    rw [← Name.anyWordLength_append Terminal.isSmallWord_aggregationOperators hrest]
    exact h
  obtain ⟨w, hw, hwlength⟩ := List.exists_of_findSome?_eq_some hlength
  exact Name.eq_length_of_wordLength hword hwlength

end

namespace Form

/-! ### Alternatives that fail -/

variable {call : Rule → Cursor → Outcome} {known : Rule → List Written → List Char → Prop}
  {w : Written} {ws : List Written} {rest : List Char}

/-- Without a parenthesis no parentheses are read. -/
lemma fails_paren (h : Absent (.mark '(') rest) : Fails (Grammar.paren.read call) rest :=
  fails_phrase (fails_seq (fails_mark h))

/-- Without its operator no aggregation is read. -/
lemma fails_aggregation (h : Absent (.token .aggregationOperator) rest) :
    Fails (Grammar.aggregation.read call) rest := fails_phrase (fails_seq (fails_token h))

/-- Without the name of a function no call is read. -/
lemma fails_call (h : Absent (.token .functionName) rest) : Fails (Grammar.call.read call) rest :=
  fails_phrase (fails_seq (fails_token h))

/-- Without a parenthesis no arguments are read. -/
lemma fails_callBody (h : Absent (.mark '(') rest) : Fails (Grammar.callBody.read call) rest :=
  fails_phrase (fails_seq (fails_mark h))

/-- Without one of its keywords no modifier is read. -/
lemma fails_modifier (hby : Absent (.token (.keyword .byWord)) rest)
    (hwithout : Absent (.token (.keyword .without)) rest) :
    Fails (Grammar.modifier.read call) rest :=
  fails_phrase (fails_seq (fails_choice (fails_token hby) (fails_token hwithout)))

/-- Whether a text goes on neither with arguments nor with the modifier of an aggregation. -/
def LeavesName (rest : List Char) : Prop :=
  Absent (.mark '(') rest ∧ Absent (.token (.keyword .byWord)) rest ∧
    Absent (.token (.keyword .without)) rest

/-- What continues no expression does not go on behind a name. -/
lemma leavesName_of_stops (h : Stops 8 rest) : LeavesName rest :=
  ⟨h (.mark '(', 8) (by decide) (by decide),
    h (.token (.keyword .byWord), 8) (by decide) (by decide),
    h (.token (.keyword .without), 8) (by decide) (by decide)⟩

/-- A lexeme that is laid out is where its reader stops. -/
lemma stopsAt_of_laid {l : Lexeme} (h : Laid (.lexeme l :: ws) rest) :
    l.kind.stopsAt l.text (textAll ws ++ rest) = true := h.2.1

/-- A lexeme that is laid out is proper. -/
lemma proper_of_laid {l : Lexeme} (h : Laid (.lexeme l :: ws) rest) : l.Proper := h.1

/-- The name of a metric is a word. -/
lemma isWord_of_metric {l : Lexeme} (hl : l.Proper) (hkind : l.kind = .token .metricName) :
    isWord l.text = true := by
  have hspells : Terminal.metricName.spells l.text = true := by
    simpa [hkind, Lexical.spells] using hl.2.2
  rcases Terminal.isWord_of_spells rfl hspells with hword | hnumeral
  · exact hword
  · exfalso
    obtain ⟨c, cs, htext, hopens⟩ := Terminal.opens_of_spells hspells
    rw [htext] at hnumeral
    have hstart : isMetricStart c = true := hopens
    rcases Bool.or_eq_true _ _ ▸ hnumeral with hdigit | hpoint
    · have hname := not_isNameStart_of_isDigit hdigit
      simp only [isMetricStart, hname, Bool.false_or, beq_iff_eq] at hstart
      subst hstart
      revert hdigit; decide
    · rw [beq_iff_eq.1 hpoint] at hstart
      revert hstart; decide

/-- At a metric name, an aggregation fails where nothing behind the name goes on with one. -/
lemma fails_aggregation_of_metric {l : Lexeme} (hkind : l.kind = .token .metricName)
    (h : Laid (.lexeme l :: ws) rest) (hleaves : LeavesName (textAll ws ++ rest)) :
    Fails (Grammar.aggregation.read call) (textAll (.lexeme l :: ws) ++ rest) := by
  have hfound := found_of_laid h
  have hl := proper_of_laid h
  have hrest : endsBefore isWordPart (textAll ws ++ rest) = true := by
    have hstops := stopsAt_of_laid h
    rwa [hkind] at hstops
  simp only [textAll_cons, text_lexeme, List.append_assoc]
  cases hlength : Terminal.aggregationOperator.length? (l.text ++ (textAll ws ++ rest)) with
  | none => exact fails_aggregation ((absent_at_lexeme_iff hfound).2 hlength)
  | some n =>
    obtain rfl := aggregation_at_metric (isWord_of_metric hl hkind) hrest hlength
    have readsOperator : Reads ((token .aggregationOperator).read call)
        [.lexeme ⟨⟨.token .aggregationOperator, l.text⟩, l.gap⟩] (textAll ws ++ rest) :=
      reads_of_plain_run (run_token_as hfound hlength)
    have failsRest : Fails ((choice (seq Grammar.modifier Grammar.callBody)
        (seq Grammar.callBody (optional Grammar.modifier))).read call) (textAll ws ++ rest) :=
      fails_choice (fails_seq (fails_modifier hleaves.2.1 hleaves.2.2))
        (fails_seq (fails_callBody hleaves.1))
    refine fails_phrase ?_
    simpa using fails_seq_of_reads readsOperator failsRest

/-- A number or the name of a metric without a parenthesis behind it is no call. -/
lemma fails_call_of_word {l : Lexeme} {t : Terminal} (hkind : l.kind = .token t)
    (ht : t = .number ∨ t = .metricName) (h : Laid (.lexeme l :: ws) rest)
    (hparen : Absent (.mark '(') (textAll ws ++ rest)) :
    Fails (Grammar.call.read call) (textAll (.lexeme l :: ws) ++ rest) := by
  have hl := proper_of_laid h
  have hstops := stopsAt_of_laid h
  have hspells : t.spells l.text = true := by simpa [hkind, Lexical.spells] using hl.2.2
  have hwordy : t.isWordy = true := by rcases ht with rfl | rfl <;> rfl
  rw [hkind] at hstops
  have hrest := (Terminal.endsBefore_of_stopsAt hwordy hstops).2
    (by rcases ht with rfl | rfl <;> decide)
  have hnone := absent_function hl (Terminal.isWord_of_spells hwordy hspells) hrest hparen
  have habsent := (absent_at_lexeme_iff (x := .token .functionName) (found_of_laid h)).2 hnone
  exact fails_call (by simpa using habsent)

/-! ### Alternatives that are taken -/

/-- A number is read as an expression. -/
lemma run_number (hw : Of (.token .number) w) (h : Laid [w] rest) (hstops : Stops 8 rest) :
    Grammar.primary.Run call known [w] rest := by
  obtain ⟨l, rfl, hkind⟩ := id hw
  have hfound := found_of_laid h
  have hlength := hfound.2.2
  rw [hkind] at hlength
  refine Or.inr ⟨fails_paren (absent_of_head hw h (by decide)), Or.inr ⟨fails_aggregation ?_,
    Or.inr ⟨fails_call_of_word hkind (Or.inl rfl) h (leavesName_of_stops hstops).1,
      Or.inl (run_token hw h)⟩⟩⟩
  simpa using (absent_at_lexeme_iff (x := .token .aggregationOperator) hfound).2
    (absent_aggregation_of_number hlength)

/-- A string is read as an expression. -/
lemma run_string (hw : Of (.token .string) w) (h : Laid [w] rest) :
    Grammar.primary.Run call known [w] rest :=
  Or.inr ⟨fails_paren (absent_of_head hw h (by decide)),
    Or.inr ⟨fails_aggregation (absent_of_head hw h (by decide)),
      Or.inr ⟨fails_call (absent_of_head hw h (by decide)),
        Or.inr ⟨fails_token (absent_of_head hw h (by decide)), Or.inl (run_token hw h)⟩⟩⟩⟩

/-- The name of a metric, with matchers or without, is read as an expression. -/
lemma run_named {l : Lexeme} {block : List Written} (hkind : l.kind = .token .metricName)
    (hnumber : Number.tokenLength? l.text = none) (hblock : Maybe IsLabelBlock block)
    (h : Laid (.lexeme l :: block) rest) (hstops : Stops 8 rest) :
    Grammar.primary.Run call known [.phrase .vectorSelector (.lexeme l :: block)] rest := by
  have hl := proper_of_laid h
  have hfound := found_of_laid h
  have hhead : Of (.token .metricName) (.lexeme l) := ⟨l, rfl, hkind⟩
  have hrest : endsBefore isWordPart (textAll block ++ rest) = true := by
    have hstopsAt := stopsAt_of_laid h
    rwa [hkind] at hstopsAt
  have hlaidBlock := (laid_cons.1 h).2
  have hleaves : LeavesName (textAll block ++ rest) := by
    rcases hblock with rfl | ⟨w, rfl, parts, rfl, opening, inside, comma, closing, rfl, hopening, -⟩
    · exact leavesName_of_stops hstops
    · simp only [List.cons_append, textAll_cons, text_phrase, textAll_nil, List.append_nil]
      rw [laid_phrase] at hlaidBlock
      simp only [← textAll_cons]
      exact ⟨absent_of_head hopening hlaidBlock (by decide),
        absent_of_head hopening hlaidBlock (by decide),
        absent_of_head hopening hlaidBlock (by decide)⟩
  have hnone : Absent (.token .number) (textAll (.lexeme l :: block) ++ rest) := by
    have habsent := (absent_at_lexeme_iff (x := .token .number) hfound).2
      ((number_at_metric hl hkind hrest).trans hnumber)
    simpa using habsent
  have hparts : textAll [Written.phrase .vectorSelector (.lexeme l :: block)] =
      textAll (.lexeme l :: block) := by simp
  simp only [Grammar.primary, oneOf, Run, hparts]
  refine Or.inr ⟨fails_paren (absent_of_head hhead h (by decide)),
    Or.inr ⟨fails_aggregation_of_metric hkind h hleaves,
      Or.inr ⟨fails_call_of_word hkind (Or.inr rfl) h hleaves.1, Or.inr ⟨fails_token hnone,
        Or.inr ⟨fails_token (absent_of_head hhead h (by decide)), _, rfl,
          Or.inl ⟨[.lexeme l], block, rfl, run_token hhead (laid_cons.1 h).1, ?_⟩⟩⟩⟩⟩⟩
  refine run_optional hblock (fun w hw heq => run_labelBlock hw (heq ▸ hlaidBlock)) fun _ => ?_
  exact fails_phrase (fails_seq (fails_mark (hstops (.mark '\x7b', 8) (by decide) (by decide))))

/-- Matchers without a name are read as an expression. -/
lemma run_unnamed {block : Written} (hblock : IsLabelBlock block) (h : Laid [block] rest) :
    Grammar.primary.Run call known [.phrase .vectorSelector [block]] rest := by
  obtain ⟨parts, rfl, opening, inside, comma, closing, rfl, hopening, -⟩ := id hblock
  have hlaid := laid_phrase.1 h
  simp only [List.cons_append] at hlaid
  have absent : ∀ x, (Lexical.mark '\x7b').apart x = true → Absent x
      (textAll [.phrase .vectorSelector
        [.phrase .labelMatchers (opening :: inside ++ comma ++ [closing])]] ++ rest) := by
    intro x hx
    simpa using absent_of_head hopening hlaid hx
  exact Or.inr ⟨fails_paren (absent _ (by decide)),
    Or.inr ⟨fails_aggregation (absent _ (by decide)), Or.inr ⟨fails_call (absent _ (by decide)),
      Or.inr ⟨fails_token (absent _ (by decide)), Or.inr ⟨fails_token (absent _ (by decide)),
        [_], rfl, Or.inr ⟨fails_seq (fails_token (by simpa using absent _ (by decide))),
          run_labelBlock hblock h⟩⟩⟩⟩⟩⟩

/-! ### Expressions between parentheses -/

section

variable {depth : Nat}

/-- Whether an expression is read at a depth in front of a comma or a closing parenthesis. -/
def ReadsInside (depth : Nat) (w : Written) : Prop :=
  ∀ rest, Laid [w] rest → Before [',', ')'] rest → Rule.Run depth .expression [w] rest

/-- Arguments between parentheses are read if each of them is. -/
lemma run_callBody (hdepth : 2 ≤ depth) {body : List Written}
    (hbody : Enclosed '(' ')' (fun w => w.isNode = true) body)
    (hinside : ∀ w ∈ body, w.isNode = true → ReadsInside depth w) (h : Laid body rest) :
    Grammar.callBody.Run (Rule.read depth) (Rule.Run depth) [.phrase .callBody body] rest := by
  have starters : ∀ x ∈ Rule.starters, ∀ c ∈ [',', ')'], (Lexical.mark c).apart x = true := by
    decide
  have henclosed : Enclosed '(' ')' (ReadsInside depth) body := hbody.mono hinside
  refine ⟨body, rfl, run_enclosed (P := ReadsInside depth) (fun w rest hw => hw rest)
    (fun rest hrest => ?_) (by decide) henclosed h⟩
  exact Rule.fails_of_absent hdepth .expression fun x hx => absent_of_before hrest (starters x hx)

/-- A call is read as an expression if its arguments are. -/
lemma run_call (hdepth : 2 ≤ depth) {function : Written} {body : List Written}
    (hfunction : Of (.token .functionName) function)
    (hbody : Enclosed '(' ')' (fun w => w.isNode = true) body)
    (hinside : ∀ w ∈ body, w.isNode = true → ReadsInside depth w)
    (h : Laid [function, .phrase .callBody body] rest) :
    Grammar.primary.Run (Rule.read depth) (Rule.Run depth)
      [.phrase .call [function, .phrase .callBody body]] rest := by
  obtain ⟨hlaidFunction, hlaidBody⟩ := laid_cons.1 h
  obtain ⟨l, rfl, hkind⟩ := id hfunction
  have hl := proper_of_laid h
  have hnone : Absent (.token .aggregationOperator)
      (textAll [.lexeme l, .phrase .callBody body] ++ rest) := by
    have habsent := (absent_at_lexeme_iff (x := .token .aggregationOperator) (found_of_laid h)).2
      (absent_aggregation_of_function hl hkind (stopsAt_of_laid h))
    simpa using habsent
  have hparts : textAll [Written.phrase .call [.lexeme l, .phrase .callBody body]] =
      textAll [.lexeme l, .phrase .callBody body] := by simp
  simp only [Grammar.primary, oneOf, Run, hparts]
  exact Or.inr ⟨fails_paren (absent_of_head hfunction h (by decide)),
    Or.inr ⟨fails_aggregation hnone, Or.inl ⟨_, rfl, [.lexeme l], [_], rfl,
      run_token hfunction hlaidFunction, run_callBody hdepth hbody hinside
        (laid_phrase.1 hlaidBody)⟩⟩⟩

/-- An aggregation is read as an expression if its arguments are. -/
lemma run_aggregation (hdepth : 2 ≤ depth) {operator : Written} {before body after : List Written}
    (hoperator : Of (.token .aggregationOperator) operator) (hbefore : Maybe IsModifier before)
    (hbody : Enclosed '(' ')' (fun w => w.isNode = true) body)
    (hinside : ∀ w ∈ body, w.isNode = true → ReadsInside depth w) (hafter : Maybe IsModifier after)
    (hone : before = [] ∨ after = [])
    (h : Laid (operator :: before ++ .phrase .callBody body :: after) rest)
      (hstops : Stops 8 rest) :
    Grammar.primary.Run (Rule.read depth) (Rule.Run depth)
      [.phrase .aggregation (operator :: before ++ .phrase .callBody body :: after)] rest := by
  have hparts : textAll [Written.phrase .aggregation
      (operator :: before ++ .phrase .callBody body :: after)] =
      textAll (operator :: before ++ .phrase .callBody body :: after) := by simp
  simp only [List.cons_append] at h hparts ⊢
  obtain ⟨hlaidOperator, hlaidMore⟩ := laid_cons.1 h
  obtain ⟨hlaidBefore, hlaidBody⟩ := laid_append.1 hlaidMore
  obtain ⟨hlaidBody, hlaidAfter⟩ := laid_cons.1 hlaidBody
  have runBody := run_callBody hdepth hbody hinside (laid_phrase.1 hlaidBody)
  have hleaves := leavesName_of_stops hstops
  simp only [Grammar.primary, oneOf, Run, hparts]
  refine Or.inr ⟨fails_paren (absent_of_head hoperator h (by decide)),
    Or.inl ⟨_, rfl, [operator], _, rfl, run_token hoperator hlaidOperator, ?_⟩⟩
  rcases hbefore with rfl | ⟨modifier, rfl, hmodifier⟩
  · refine Or.inr ⟨fails_seq ?_, [_], after, rfl, runBody, ?_⟩
    · obtain ⟨opening, inside, closing, rfl, hopening, -⟩ := hbody
      simp only [List.cons_append] at hlaidBody
      have hhead := fun x hx => absent_of_head (y := x) hopening (laid_phrase.1 hlaidBody) hx
      exact fails_modifier (by simpa using hhead _ (by decide)) (by simpa using hhead _ (by decide))
    · exact run_optional hafter (fun w hw heq => run_modifier hw (heq ▸ hlaidAfter)) fun _ =>
        fails_modifier hleaves.2.1 hleaves.2.2
  · obtain rfl : after = [] := hone.resolve_left (by simp)
    exact Or.inl ⟨[modifier], [_], rfl, run_modifier hmodifier hlaidBefore, runBody⟩

/-- An expression between parentheses is read as an expression. -/
lemma run_paren {opening e closing : Written} (hopening : Of (.mark '(') opening)
    (he : ReadsInside depth e) (hclosing : Of (.mark ')') closing)
    (h : Laid [opening, e, closing] rest) :
    Grammar.primary.Run (Rule.read depth) (Rule.Run depth)
      [.phrase .paren [opening, e, closing]] rest := by
  obtain ⟨hlaidOpening, hlaidMore⟩ := laid_cons.1 h
  obtain ⟨hlaidInside, hlaidClosing⟩ := laid_cons.1 hlaidMore
  exact Or.inl ⟨_, rfl, [opening], [e, closing], rfl, run_mark hopening hlaidOpening, [e],
    [closing], rfl, he _ hlaidInside (before_of_head hclosing hlaidClosing (by simp)),
    run_mark hclosing hlaidClosing⟩

end

end Form

end PromqlGuide
