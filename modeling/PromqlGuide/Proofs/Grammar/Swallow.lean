import PromqlGuide.Proofs.Grammar.Parts
import PromqlGuide.Proofs.Token.Wordy
import PromqlGuide.Proofs.Written.Bracketed

/-!
# What modifiers take

The modifiers of an operator are optional, and each is read wherever its words stand, also if they
were meant as the start of the right operand.  Whether that happens depends on the words alone: on
how they are spelled, but not on the kinds of lexeme they are and not on the blank text between
them.

Main statements: at the text of an operand, a keyword fails, a list of labels fails and a clause
that matches series fails exactly if the words do not start with one (`fails_either_iff`,
`fails_grouping_iff` and `fails_matching_iff`).
-/
namespace PromqlGuide

open Text Written

/-! ### Words at a lexeme -/

namespace Lexeme

variable {l : Lexeme} {rest : List Char}

/-- A kind whose lexemes cannot start where a lexeme starts is not found there, and its word cannot
be read as one. -/
lemma none_of_not_opens {x : Lexical} (rest : List Char) (hl : l.Proper)
    (h : ∀ c cs, l.text = c :: cs → x.opens c = false) :
    x.length? (l.text ++ rest) = none ∧ l.toWord.readsAs x = false := by
  obtain ⟨c, cs, heq, -⟩ := Lexical.opens_of_spells hl.2.2
  have hc := h c cs heq
  constructor
  · rw [heq, List.cons_append]
    exact Lexical.length_eq_none hc _
  · by_contra hreads
    obtain ⟨d, ds, hd, hopens⟩ := Lexical.opens_of_spells (Bool.not_eq_false _ ▸ hreads)
    rw [heq] at hd
    cases hd
    simp [hc] at hopens

/-- A proper lexeme starts with a character that its kind may start with. -/
lemma opens_of_text (hl : l.Proper) {c : Char} {cs : List Char} (h : l.text = c :: cs) :
    l.kind.opens c = true := by
  obtain ⟨d, ds, heq, hd⟩ := Lexical.opens_of_spells hl.2.2
  rw [h] at heq
  cases heq
  exact hd

/-- No keyword starts like a number. -/
lemma not_opens_keyword_of_startsNumeral {c : Char} {cs : List Char} (k : Keyword)
    (h : Terminal.startsNumeral (c :: cs) = true) : (Terminal.keyword k).opens c = false := by
  by_contra hopens
  obtain ⟨a, hhead, ha⟩ : ∃ a, k.letters.head? = some a ∧ foldsTo a c = true := by
    simpa [Terminal.opens, Terminal.opensWord, Option.any_eq_true] using hopens
  have hmem : a ∈ smallLetters := by
    have letters : ∀ k ∈ Keyword.all, ∀ b ∈ k.letters.head?, b ∈ smallLetters := by decide
    exact letters k (by cases k <;> decide) a hhead
  have hplain := Terminal.not_numeral_of_foldsTo hmem ha
  simp [Terminal.startsNumeral, hplain] at h

/-- At the first lexeme of an operand, a keyword is found if the word can be read as it. -/
lemma keyword_at_starter (k : Keyword) (hl : l.Proper)
    (hstops : l.kind.stopsAt l.text rest = true) (hstart : l.kind ∈ Rule.starters) :
    (Lexical.token (.keyword k)).length? (l.text ++ rest) =
      if l.toWord.readsAs (.token (.keyword k)) then some l.text.length else none := by
  have away : (∀ c cs, l.text = c :: cs → (Terminal.keyword k).opens c = false) →
      (Lexical.token (.keyword k)).length? (l.text ++ rest) =
        if l.toWord.readsAs (.token (.keyword k)) then some l.text.length else none := by
    intro h
    obtain ⟨hlength, hreads⟩ := none_of_not_opens (x := .token (.keyword k)) rest hl h
    simp [hlength, hreads]
  have marked : ∀ x ∈ Rule.starters, ∀ ds ∈ x.heads?, ∀ d ∈ ds, ∀ k ∈ Keyword.all,
      (Terminal.keyword k).opens d = false := by decide
  cases hheads : l.kind.heads? with
  | some ds =>
    refine away fun c cs heq => ?_
    exact marked _ hstart ds hheads c (Lexical.mem_heads_of_opens hheads (opens_of_text hl heq)) k
      (by cases k <;> decide)
  | none =>
    have wordy : ∀ x ∈ Rule.starters, x.heads? = none →
        ∃ t : Terminal, x = .token t ∧ t.isWordy = true ∧ t ≠ .labelName := by
      intro x hx hnone
      simp only [Rule.starters, List.mem_cons, List.not_mem_nil, or_false] at hx
      rcases hx with rfl | rfl | rfl | rfl | rfl | rfl | rfl | rfl | rfl
      all_goals first | exact ⟨_, rfl, rfl, by decide⟩ | simp [Lexical.heads?] at hnone
    obtain ⟨t, hkind, ht, hne⟩ := wordy _ hstart hheads
    have hspells : t.spells l.text = true := by simpa [hkind, Lexical.spells] using hl.2.2
    rw [hkind] at hstops
    have hrest := (Terminal.endsBefore_of_stopsAt ht hstops).2 hne
    rcases Terminal.isWord_of_spells ht hspells with hword | hnumeral
    · have happend : (Lexical.token (.keyword k)).length? (l.text ++ rest) =
          Name.wordLength? k.letters l.text :=
        Name.wordLength_append (Terminal.isSmallWord_keyword k) hrest
      have hreads : l.toWord.readsAs (.token (.keyword k)) =
          (Name.wordLength? k.letters l.text == some l.text.length) := rfl
      rw [happend, hreads]
      cases hlength : Name.wordLength? k.letters l.text with
      | none => simp
      | some n => simp [Name.eq_length_of_wordLength hword hlength]
    · exact away fun c cs heq => not_opens_keyword_of_startsNumeral k (heq ▸ hnumeral)

/-- Separators are found only where they stand. -/
lemma eq_mark_of_opens {x : Lexical} (hx : x.isUsed = true) {c : Char}
    (hc : c ∈ ['(', ')', ',']) (h : x.opens c = true) : x = .mark c := by
  cases x with
  | mark m => rw [beq_iff_eq.1 (show (m == c) = true from h)]
  | token t =>
    have signs : ∀ d ∈ ['(', ')', ','], isWordPart d = false ∧ isDigit d = false ∧
        d ∉ Terminal.openingSigns := by decide
    obtain ⟨hword, hdigit, hsign⟩ := signs c hc
    rcases Terminal.opens_cases h with h | h | h
    · simp [hword] at h
    · simp [hdigit] at h
    · exact absurd h hsign

/-- A lexeme that is no mark is not read as that mark, neither as a text nor as a word. -/
lemma no_mark {c : Char} (rest : List Char) (hl : l.Proper) (hc : c ∈ ['(', ')', ','])
    (h : l.kind ≠ .mark c) :
    (Lexical.mark c).length? (l.text ++ rest) = none ∧ l.toWord.readsAs (.mark c) = false := by
  refine none_of_not_opens rest hl fun d ds heq => ?_
  by_contra hopens
  obtain rfl : c = d := beq_iff_eq.1 (Bool.not_eq_false _ ▸ hopens)
  exact h (eq_mark_of_opens hl.2.1 hc (opens_of_text hl heq))

/-- A mark as a word is read as the mark. -/
lemma readsAs_mark {c : Char} (hl : l.Proper) (h : l.kind = .mark c) :
    l.toWord.readsAs (.mark c) = true := by
  have hspells := hl.2.2
  rwa [h] at hspells

/-- In front of a character of a word there is no mark. -/
lemma absent_mark_of_isWordPart {c d : Char} (hc : c ∈ ['(', ')', ',']) (hd : isWordPart d = true)
    (cs : List Char) : Absent (.mark c) (d :: cs) := by
  have hblank : blankLength (d :: cs) = 0 := by
    have hspace : isSpace d = false := by
      by_contra hspace
      simp [not_isWordPart_of_isSpace (Bool.not_eq_false _ ▸ hspace)] at hd
    have hmark : d ≠ '#' := by
      rintro rfl
      revert hd; decide
    simp [blankLength, blankRun, hspace, hmark]
  have hne : (c == d) = false := by
    rw [beq_eq_false_iff_ne]
    rintro rfl
    have signs : ∀ d ∈ ['(', ')', ','], isWordPart d = false := by decide
    simp [signs c hc] at hd
  rw [Absent, hblank, List.drop_zero]
  exact Lexical.length_eq_none (x := .mark c) hne cs

/-- How the reader of label names stops inside a lexeme that is no label name. -/
def StopsInside (l : Lexeme) (rest : List Char) : Prop :=
  ∃ n, 0 < n ∧ n ≤ (l.text ++ rest).length ∧
    Terminal.labelName.length? (l.text ++ rest) = some n ∧
    ∀ c ∈ [')', ','], Absent (.mark c) ((l.text ++ rest).drop n)

/-- A word consists of characters of words. -/
lemma isWordPart_of_mem {w : List Char} (hw : isWord w = true) {c : Char} (hc : c ∈ w) :
    isWordPart c = true := List.all_eq_true.1 hw c hc

/-- The reader of label names finds a lexeme as a whole, stops inside it, or finds nothing. -/
lemma label_at_word (hl : l.Proper) (hword : isWord l.text = true)
    (hrest : endsBefore isWordPart rest = true) :
    (l.toWord.readsAs (.token .labelName) = true ∧
        Terminal.labelName.length? (l.text ++ rest) = some l.text.length) ∨
      (l.toWord.readsAs (.token .labelName) = false ∧
        (Terminal.labelName.length? (l.text ++ rest) = none ∨ l.StopsInside rest)) := by
  have hreads : l.toWord.readsAs (.token .labelName) =
      (Name.labelLength? l.text == some l.text.length) := rfl
  have hne := Lexical.ne_nil_of_spells hl.2.2
  rw [hreads]
  cases hlength : Terminal.labelName.length? (l.text ++ rest) with
  | none =>
    refine Or.inr ⟨?_, Or.inl rfl⟩
    rw [beq_eq_false_iff_ne]
    intro hall
    have hname : endsBefore isNamePart rest = true :=
      endsBefore_mono (fun _ => Name.isWordPart_of_isNamePart) hrest
    have happend : Name.labelLength? (l.text ++ rest) = Name.labelLength? l.text :=
      Name.runLength_append hne hname
    rw [← happend] at hall
    exact absurd (hlength.symm.trans hall) (by simp)
  | some n =>
    have hpos : 0 < n ∧ n ≤ (l.text ++ rest).length := Terminal.length_advancing _ _ _ hlength
    rcases Name.label_in_word hne hrest hlength with ⟨rfl, hall⟩ | ⟨hall, hlt, c, hc, more, hdrop⟩
    · exact Or.inl ⟨by simp [hall], rfl⟩
    · refine Or.inr ⟨by simpa using hall, Or.inr ⟨n, hpos.1, hpos.2, hlength, fun d hd => ?_⟩⟩
      rw [hdrop]
      exact absent_mark_of_isWordPart (List.mem_cons_of_mem _ hd) (isWordPart_of_mem hword hc) more

/-- In front of whitespace and a parenthesis the reader of label names stops at the end of a word or
inside it. -/
lemma label_at_startOrEnd (h : Terminal.startOrEnd.spells l.text = true) :
    l.toWord.readsAs (.token .labelName) = false ∧
      (Terminal.labelName.length? (l.text ++ rest) = none ∨ l.StopsInside rest) := by
  obtain ⟨keyword, hnonempty, hsmall, hlength⟩ : ∃ keyword, keyword ≠ [] ∧
      isSmallWord keyword = true ∧ Name.emptyCallLength? keyword l.text = some l.text.length := by
    rcases Terminal.startOrEnd_eq_some_iff.1 (beq_iff_eq.1 h) with h | h
    · exact ⟨_, by decide, by decide, h⟩
    · exact ⟨_, by decide, by decide, h⟩
  obtain ⟨word, s₁, s₂, more, heq, hlen, hstarts, hs₁, -, -⟩ :=
    Name.emptyCallLength_eq_some_iff.1 hlength
  have hword := Name.isWord_of_startsWithWord hsmall hstarts hlen.symm
  have hgap : isGap s₁ = true := isGap_of_isSpace hs₁
  have hends : endsBefore isWordPart (s₁ ++ '(' :: (s₂ ++ ')' :: more) ++ rest) = true := by
    cases s₁ with
    | nil => rfl
    | cons c s₁ => simp [endsBefore, not_isWordPart_of_isSpace (hs₁ c List.mem_cons_self)]
  constructor
  · by_contra hreads
    have hlabel : Name.labelLength? l.text = some l.text.length :=
      beq_iff_eq.1 (Bool.not_eq_false _ ▸ hreads)
    have hall := Name.isWord_of_runLength (fun _ => Name.isWordPart_of_isNameStart)
      (fun _ => Name.isWordPart_of_isNamePart) hlabel
    have hparen := isWordPart_of_mem hall (c := '(') (by rw [heq]; simp)
    revert hparen; decide
  · cases hread : Terminal.labelName.length? (l.text ++ rest) with
    | none => exact Or.inl rfl
    | some n =>
      have hadvances := Terminal.length_advancing _ _ _ hread
      refine Or.inr ⟨n, hadvances.1, hadvances.2, hread, fun c hc => ?_⟩
      have hne : word ≠ [] := by
        rintro rfl
        exact hnonempty (List.length_eq_zero_iff.1 hlen.symm)
      rw [heq, List.append_assoc] at hread ⊢
      rcases Name.label_in_word hne hends hread with ⟨rfl, -⟩ | ⟨-, -, d, hd, tail, hdrop⟩
      · rw [List.drop_left, List.append_assoc, Absent, List.cons_append,
          drop_blankLength_append hgap rfl]
        have closers : ∀ c ∈ [')', ','], (Lexical.mark c).opens '(' = false := by decide
        exact Lexical.length_eq_none (closers c hc) _
      · rw [hdrop]
        exact absent_mark_of_isWordPart (List.mem_cons_of_mem _ hc)
          (isWordPart_of_mem hword hd) tail

/-- The same, whatever the kind of the lexeme is. -/
lemma label_at_lexeme (hl : l.Proper) (hstops : l.kind.stopsAt l.text rest = true) :
    (l.toWord.readsAs (.token .labelName) = true ∧
        Terminal.labelName.length? (l.text ++ rest) = some l.text.length) ∨
      (l.toWord.readsAs (.token .labelName) = false ∧
        (Terminal.labelName.length? (l.text ++ rest) = none ∨ l.StopsInside rest)) := by
  -- What starts like no name is no label, and none is read there.
  have away : (∀ c cs, l.text = c :: cs → isNameStart c = false) →
      l.toWord.readsAs (.token .labelName) = false ∧
        (Terminal.labelName.length? (l.text ++ rest) = none ∨ l.StopsInside rest) := by
    intro h
    obtain ⟨hlength, hreads⟩ := none_of_not_opens (x := .token .labelName) rest hl h
    exact ⟨hreads, Or.inl hlength⟩
  have heads : ∀ ds, l.kind.heads? = some ds → (∀ d ∈ ds, isNameStart d = false) →
      l.toWord.readsAs (.token .labelName) = false ∧
        (Terminal.labelName.length? (l.text ++ rest) = none ∨ l.StopsInside rest) :=
    fun ds hds hnone => away fun c cs heq =>
      hnone c (Lexical.mem_heads_of_opens hds (opens_of_text hl heq))
  obtain ⟨hgap, hused, hspells⟩ := id hl
  cases hkind : l.kind with
  | mark m =>
    rw [hkind] at hused
    have marks : ∀ d ∈ Lexical.marks, isNameStart d = false := by decide
    exact Or.inr (heads [m] (by rw [hkind]; rfl) fun d hd => by
      obtain rfl := List.mem_singleton.1 hd
      exact marks d (of_decide_eq_true hused))
  | token t =>
    rw [hkind] at hspells hstops
    by_cases ht : t.isWordy = true
    · rcases Terminal.isWord_of_spells ht hspells with hword | hnumeral
      · by_cases hlabel : t = .labelName
        · subst hlabel
          exact Or.inl ⟨hspells, Terminal.length_append hspells hstops⟩
        · exact label_at_word hl hword ((Terminal.endsBefore_of_stopsAt ht hstops).2 hlabel)
      · refine Or.inr (away fun c cs heq => ?_)
        rw [heq] at hnumeral
        rcases Bool.or_eq_true _ _ ▸ hnumeral with hdigit | hpoint
        · exact not_isNameStart_of_isDigit hdigit
        · rw [beq_iff_eq.1 hpoint]
          decide
    · cases t with
      | string => exact Or.inr (heads _ (by rw [hkind]; rfl) (by decide))
      | matchOperator => exact Or.inr (heads _ (by rw [hkind]; rfl) (by decide))
      | symbol s =>
        refine Or.inr (heads _ (by rw [hkind]; rfl) ?_)
        cases s <;> decide
      | duration =>
        refine Or.inr (away fun c cs heq => ?_)
        have hopens := opens_of_text hl heq
        rw [hkind] at hopens
        exact not_isNameStart_of_isDigit hopens
      | startOrEnd => exact Or.inr (label_at_startOrEnd hspells)
      | _ => exact absurd rfl ht

end Lexeme

namespace Form

variable {call : Rule → Cursor → Outcome} {known : Rule → List Written → List Char → Prop}
  {l : Lexeme} {ls : List Lexeme} {rest : List Char}

/-- A kind of lexeme is absent exactly if it is not found where the lexeme starts. -/
lemma absent_at_lexeme_iff {x : Lexical} (h : l.Found rest) :
    Absent x (l.gap ++ (l.text ++ rest)) ↔ x.length? (l.text ++ rest) = none := by
  rw [Absent, drop_blankLength_append h.1 h.visible]

/-- A lexeme is read as any kind of which it is found as a whole. -/
lemma run_token_as {t : Terminal} (h : l.Found rest)
    (hlength : t.length? (l.text ++ rest) = some l.text.length) :
    (token t).Run call known [.lexeme ⟨⟨.token t, l.text⟩, l.gap⟩] rest :=
  ⟨_, rfl, rfl, h.1, rfl, hlength⟩

/-- Where the reader of label names stops inside a lexeme, it takes what is in front of that
place. -/
lemma run_label_take {n : Nat} (h : l.Found rest)
    (hlength : Terminal.labelName.length? (l.text ++ rest) = some n)
    (hn : n ≤ (l.text ++ rest).length) :
    (token .labelName).Run call known
      [.lexeme ⟨⟨.token .labelName, (l.text ++ rest).take n⟩, l.gap⟩]
      ((l.text ++ rest).drop n) := by
  refine ⟨_, rfl, rfl, h.1, rfl, ?_⟩
  rw [List.take_append_drop, List.length_take, Nat.min_eq_left hn]
  exact hlength

/-! ### Lists of labels -/

/-- Further label names, each behind a comma. -/
def moreLabels : Form := many (seq (mark ',') (token .labelName))

/-- The end of a list of label names. -/
def labelsEnd : Form := seq (optional (mark ',')) (mark ')')

/-- A list of labels does not end without a comma or a parenthesis. -/
lemma fails_labelsEnd (hcomma : Absent (.mark ',') rest) (hparen : Absent (.mark ')') rest) :
    Fails (labelsEnd.read call) rest := by
  have readsNothing : Reads ((optional (mark ',')).read call) [] rest :=
    reads_of_plain_run (Or.inr ⟨fails_mark hcomma, rfl⟩)
  exact fails_seq_of_reads readsNothing (fails_mark hparen)

/-- A parenthesis ends a list of labels. -/
lemma run_labelsEnd (h : l.Found rest) (hkind : l.kind = .mark ')') :
    labelsEnd.Run call known [.lexeme l] rest := by
  refine ⟨[], [.lexeme l], rfl, Or.inr ⟨fails_mark ?_, rfl⟩, l, rfl, hkind, h⟩
  simpa using absent_of_found h (by rw [hkind]; decide)

/-- A comma and a parenthesis end a list of labels. -/
lemma run_labelsEnd_at_comma {m : Lexeme} (hl : l.Found (m.gap ++ (m.text ++ rest)))
    (hcomma : l.kind = .mark ',') (hm : m.Found rest) (hparen : m.kind = .mark ')') :
    labelsEnd.Run call known [.lexeme l, .lexeme m] rest :=
  ⟨[.lexeme l], [.lexeme m], rfl, Or.inl ⟨l, rfl, hcomma, by simpa using hl⟩, m, rfl, hparen, hm⟩

/-- A comma without a parenthesis behind it does not end a list of labels. -/
lemma fails_labelsEnd_at_comma {m : Lexeme} (hl : l.Found (m.gap ++ (m.text ++ rest)))
    (hcomma : l.kind = .mark ',') (hparen : Absent (.mark ')') (m.gap ++ (m.text ++ rest))) :
    Fails (labelsEnd.read call) (l.gap ++ (l.text ++ (m.gap ++ (m.text ++ rest)))) := by
  have readsComma : Reads ((optional (mark ',')).read call) [.lexeme l]
      (m.gap ++ (m.text ++ rest)) :=
    reads_of_plain_run (f := optional (mark ',')) (Or.inl ⟨l, rfl, hcomma, hl⟩)
  simpa [labelsEnd] using fails_seq_of_reads readsComma (fails_mark hparen)

/-- Whether reading goes on with label names and then ends a list of them, or fails to. -/
def EndsIf (call : Rule → Cursor → Outcome) (b : Bool) (rest : List Char) : Prop :=
  if b then ∃ ps more, rest = textAll ps ++ more ∧ labelsEnd.Run call (fun _ _ _ => False) ps more
  else Fails (labelsEnd.read call) rest

/-- A form is read at a text, and behind it a list of label names ends or fails to. -/
def RunsThenEnds (call : Rule → Cursor → Outcome) (f : Form) (b : Bool) (cs : List Char) : Prop :=
  ∃ ps more, cs = textAll ps ++ more ∧ f.Run call (fun _ _ _ => False) ps more ∧ EndsIf call b more

/-- Without a comma there are no further labels. -/
lemma run_noMoreLabels (h : Absent (.mark ',') rest) : moreLabels.Run call known [] rest :=
  .nil (fails_seq (fails_mark h))

/-- A list of labels may be empty. -/
lemma run_noLabels (h : Fails ((token .labelName).read call) rest) :
    (commaSeparated (token .labelName)).Run call known [] rest := Or.inr ⟨fails_seq h, rfl⟩

/-- A closing parenthesis ends a list, whether or not a name stands in front of it. -/
lemma endsIf_closing (b : Bool) (hl : l.Proper) (h : l.Found (Lexeme.writtenAll ls ++ rest))
    (hparen : l.kind = .mark ')') :
    EndsIf call (endsLabels b ((l :: ls).map Lexeme.toWord))
      (Lexeme.writtenAll (l :: ls) ++ rest) := by
  have hends : endsLabels b ((l :: ls).map Lexeme.toWord) = true := by
    cases b <;> simp [endsLabels, Lexeme.readsAs_mark hl hparen]
  rw [hends, EndsIf, if_pos rfl]
  exact ⟨[.lexeme l], Lexeme.writtenAll ls ++ rest, by simp, run_labelsEnd h hparen⟩

/-- A list whose names do not go on ends only with a parenthesis. -/
lemma endsLabels_eq_false (hparen : l.toWord.readsAs (.mark ')') = false)
    (hname : l.toWord.readsAs (.token .labelName) = false) (ls : List Lexeme) :
    endsLabels false ((l :: ls).map Lexeme.toWord) = false := by
  simp [endsLabels, hparen, hname]

/-- Where no label name starts with a lexeme, none is read. -/
lemma fails_label (h : l.Found rest)
    (hnone : Terminal.labelName.length? (l.text ++ rest) = none) :
    Fails ((token .labelName).read call) (l.gap ++ (l.text ++ rest)) :=
  fails_token ((absent_at_lexeme_iff (x := .token .labelName) h).2 hnone)

/-- A comma with no label name behind it is no further label name. -/
lemma fails_moreLabel {m : Lexeme} (hl : l.Found (m.gap ++ (m.text ++ rest)))
    (hcomma : l.kind = .mark ',')
    (hlabel : Fails ((token .labelName).read call) (m.gap ++ (m.text ++ rest))) :
    Fails ((seq (mark ',') (token .labelName)).read call)
      (l.gap ++ (l.text ++ (m.gap ++ (m.text ++ rest)))) := by
  have readsComma : Reads ((mark ',').read call) [.lexeme l] (m.gap ++ (m.text ++ rest)) :=
    reads_of_plain_run ⟨l, rfl, hcomma, hl⟩
  simpa using fails_seq_of_reads readsComma hlabel

variable (call known) in
/-- A label name behind a comma is read. -/
lemma run_moreLabel {m : Lexeme} {n : Nat} (hl : l.Found (m.gap ++ (m.text ++ rest)))
    (hcomma : l.kind = .mark ',') (hm : m.Found rest)
    (hlength : Terminal.labelName.length? (m.text ++ rest) = some n)
    (hn : n ≤ (m.text ++ rest).length) :
    (seq (mark ',') (token .labelName)).Run call known
      [.lexeme l, .lexeme ⟨⟨.token .labelName, (m.text ++ rest).take n⟩, m.gap⟩]
      ((m.text ++ rest).drop n) := by
  refine ⟨[.lexeme l], [_], rfl, ⟨l, rfl, hcomma, ?_⟩, run_label_take hm hlength hn⟩
  simpa only [textAll_cons, textAll_nil, text_lexeme, List.append_nil, List.append_assoc,
    List.take_append_drop] using hl

variable (call) in
/-- At a comma behind a label name, a further name is read if the words behind it have one. -/
lemma moreLabels_of_comma {m : Lexeme} (hl : l.Found (Lexeme.writtenAll (m :: ls) ++ rest))
    (hcomma : l.kind = .mark ',') (h : Lexeme.LaidOut (m :: ls) rest)
    (hmore : m.kind ≠ .mark ')' → RunsThenEnds call moreLabels
      (endsLabels true (ls.map Lexeme.toWord)) (Lexeme.writtenAll ls ++ rest)) :
    RunsThenEnds call moreLabels (endsLabels false ((m :: ls).map Lexeme.toWord))
      (Lexeme.writtenAll (l :: m :: ls) ++ rest) := by
  have hm := h.1
  have hfound := Lexeme.found_of_laidOut h
  simp only [Lexeme.writtenAll_cons, List.append_assoc] at hl ⊢
  by_cases hparen : m.kind = .mark ')'
  · have hnone : Absent (.token .labelName)
        (m.gap ++ (m.text ++ (Lexeme.writtenAll ls ++ rest))) :=
      absent_of_found hfound (by rw [hparen]; decide)
    refine ⟨[], _, rfl, .nil (fails_moreLabel hl hcomma (fails_token hnone)), ?_⟩
    simp only [List.map_cons, endsLabels, Lexeme.readsAs_mark hm hparen, Bool.true_or, EndsIf,
      if_true]
    exact ⟨[.lexeme l, .lexeme m], Lexeme.writtenAll ls ++ rest, by simp,
      run_labelsEnd_at_comma hl hcomma hfound hparen⟩
  have hnoParen := Lexeme.no_mark (c := ')') (Lexeme.writtenAll ls ++ rest) hm (by simp)
    hparen
  rcases Lexeme.label_at_lexeme hm h.2.1 with ⟨hreads, hlength⟩ | ⟨hreads, hnone | hinside⟩
  · obtain ⟨ps, more, htext, hrun, hends⟩ := hmore hparen
    have hnext := run_moreLabel call (fun _ _ _ => False) hl hcomma hfound hlength (by simp)
    simp only [List.take_left, List.drop_left] at hnext
    refine ⟨_, more, ?_, Repeats.cons (htext ▸ hnext) ?_ hrun, ?_⟩
    · simp [htext]
    · simp [text_ne_nil_of_found hl]
    · simpa [endsLabels, hnoParen.2, hreads] using hends
  · rw [endsLabels_eq_false hnoParen.2 hreads]
    exact ⟨[], _, rfl, .nil (fails_moreLabel hl hcomma (fails_label hfound hnone)),
      fails_labelsEnd_at_comma hl hcomma ((absent_at_lexeme_iff hfound).2 hnoParen.1)⟩
  · obtain ⟨n, hpos, hle, hlength, habsent⟩ := hinside
    have hnext := run_moreLabel call (fun _ _ _ => False) hl hcomma hfound hlength hle
    have hstop : moreLabels.Run call (fun _ _ _ => False) []
        ((m.text ++ (Lexeme.writtenAll ls ++ rest)).drop n) :=
      run_noMoreLabels (habsent ',' (by simp))
    rw [endsLabels_eq_false hnoParen.2 hreads]
    refine ⟨_, _, ?_, Repeats.cons hnext ?_ hstop,
      fails_labelsEnd (habsent ',' (by simp)) (habsent ')' (by simp))⟩
    · simp only [textAll_cons, textAll_nil, text_lexeme, List.append_nil, List.append_assoc,
        List.take_append_drop]
    · simp [text_ne_nil_of_found hl]

variable (call) in
/-- Behind a label name, further names are read, and the list ends as the words tell. -/
lemma moreLabels_of_laidOut (h : Lexeme.LaidOut ls rest)
    (hclosing : .mark ')' ∈ ls.map fun l => l.kind) :
    RunsThenEnds call moreLabels (endsLabels true (ls.map Lexeme.toWord))
      (Lexeme.writtenAll ls ++ rest) := by
  -- By length, because a comma takes the label behind it too.
  induction hlen : ls.length using Nat.strongRecOn generalizing ls with
  | ind n ih =>
  subst hlen
  cases ls with
  | nil => simp at hclosing
  | cons l ls =>
  have hl := h.1
  have hfound := Lexeme.found_of_laidOut h
  have htext : Lexeme.writtenAll (l :: ls) ++ rest =
      l.gap ++ (l.text ++ (Lexeme.writtenAll ls ++ rest)) := by simp
  by_cases hparen : l.kind = .mark ')'
  · have hcomma : Absent (.mark ',') (Lexeme.writtenAll (l :: ls) ++ rest) := by
      rw [htext]
      exact absent_of_found hfound (by rw [hparen]; decide)
    exact ⟨[], _, rfl, run_noMoreLabels hcomma, endsIf_closing true hl hfound hparen⟩
  have hnoParen := Lexeme.no_mark (c := ')') (Lexeme.writtenAll ls ++ rest) hl (by simp)
    hparen
  by_cases hcomma : l.kind = .mark ','
  · have hmem : .mark ')' ∈ ls.map fun l => l.kind := by simpa [Ne.symm hparen] using hclosing
    cases ls with
    | nil => simp at hmem
    | cons m ls =>
      have hall := moreLabels_of_comma call hfound hcomma h.2.2 fun hm =>
        ih ls.length (by simp only [List.length_cons]; omega) h.2.2.2.2
          (by simpa [Ne.symm hm] using hmem) rfl
      simpa [endsLabels, hnoParen.2, Lexeme.readsAs_mark hl hcomma] using hall
  · have hnoComma := Lexeme.no_mark (c := ',') (Lexeme.writtenAll ls ++ rest) hl (by simp)
      hcomma
    have absentComma := (absent_at_lexeme_iff hfound).2 hnoComma.1
    have absentParen := (absent_at_lexeme_iff hfound).2 hnoParen.1
    rw [← htext] at absentComma absentParen
    refine ⟨[], _, rfl, run_noMoreLabels absentComma, ?_⟩
    simp only [List.map_cons, endsLabels, hnoComma.2, hnoParen.2, Bool.false_and, Bool.or_false,
      EndsIf]
    exact fails_labelsEnd absentComma absentParen

variable (call) in
/-- A comma ends a list without labels if nothing but the closing parenthesis is behind it. -/
lemma endsIf_commaOnly {m : Lexeme} (h : Lexeme.LaidOut (l :: m :: ls) rest)
    (hcomma : l.kind = .mark ',') :
    EndsIf call (commaOnly ((l :: m :: ls).map Lexeme.toWord))
      (Lexeme.writtenAll (l :: m :: ls) ++ rest) := by
  have hm := h.2.2.1
  have hfound := Lexeme.found_of_laidOut h
  have hfoundNext := Lexeme.found_of_laidOut h.2.2
  simp only [Lexeme.writtenAll_cons, List.append_assoc] at hfound ⊢
  by_cases hclose : m.kind = .mark ')'
  · simp only [List.map_cons, commaOnly, Lexeme.readsAs_mark h.1 hcomma,
      Lexeme.readsAs_mark hm hclose, Bool.and_self, EndsIf, if_true]
    exact ⟨[.lexeme l, .lexeme m], Lexeme.writtenAll ls ++ rest, by simp,
      run_labelsEnd_at_comma hfound hcomma hfoundNext hclose⟩
  · have hnoClose := Lexeme.no_mark (c := ')') (Lexeme.writtenAll ls ++ rest) hm (by simp) hclose
    simp only [List.map_cons, commaOnly, hnoClose.2, Bool.and_false, EndsIf]
    exact fails_labelsEnd_at_comma hfound hcomma ((absent_at_lexeme_iff hfoundNext).2 hnoClose.1)

variable (call) in
/-- At a comma no label name is read, and the list ends if only the closing parenthesis is behind
it. -/
lemma labels_of_comma (h : Lexeme.LaidOut (l :: ls) rest) (hcomma : l.kind = .mark ',')
    (hclosing : .mark ')' ∈ ls.map fun l => l.kind) :
    RunsThenEnds call (commaSeparated (token .labelName))
      (endsLabels false ((l :: ls).map Lexeme.toWord) || commaOnly ((l :: ls).map Lexeme.toWord))
      (Lexeme.writtenAll (l :: ls) ++ rest) := by
  have hfound := Lexeme.found_of_laidOut h
  have hnoParen := Lexeme.no_mark (c := ')') (Lexeme.writtenAll ls ++ rest) h.1 (by simp)
    (by rw [hcomma]; decide)
  have hlabel := Lexeme.none_of_not_opens (x := .token .labelName)
    (Lexeme.writtenAll ls ++ rest) h.1 fun c cs heq => by
      have hopens := Lexeme.opens_of_text h.1 heq
      rw [hcomma] at hopens
      rw [← beq_iff_eq.1 (show (',' == c) = true from hopens)]
      decide
  have hnone : Fails ((token .labelName).read call) (Lexeme.writtenAll (l :: ls) ++ rest) := by
    simpa using fails_label hfound hlabel.1
  rw [endsLabels_eq_false hnoParen.2 hlabel.2, Bool.false_or]
  refine ⟨[], _, rfl, run_noLabels hnone, ?_⟩
  cases ls with
  | nil => simp at hclosing
  | cons m ls => exact endsIf_commaOnly call h hcomma

variable (call) in
/-- Label names are read from the start of a list, and the list ends as the words tell. -/
lemma labels_of_laidOut (h : Lexeme.LaidOut ls rest)
    (hclosing : .mark ')' ∈ ls.map fun l => l.kind) :
    RunsThenEnds call (commaSeparated (token .labelName))
      (endsLabels false (ls.map Lexeme.toWord) || commaOnly (ls.map Lexeme.toWord))
      (Lexeme.writtenAll ls ++ rest) := by
  cases ls with
  | nil => simp at hclosing
  | cons l ls =>
  have hl := h.1
  have hfound := Lexeme.found_of_laidOut h
  have hmem : l.kind ≠ .mark ')' → .mark ')' ∈ ls.map fun l => l.kind := fun hparen => by
    simpa [Ne.symm hparen] using hclosing
  -- Three ways to start: a comma, the closing parenthesis, or something else, which is a label, is
  -- none, or has one swallowed from its front.
  by_cases hcomma : l.kind = .mark ','
  · exact labels_of_comma call h hcomma (hmem (by rw [hcomma]; decide))
  have hnoComma := Lexeme.no_mark (c := ',') (Lexeme.writtenAll ls ++ rest) hl (by simp)
    hcomma
  have hnotOnly : commaOnly ((l :: ls).map Lexeme.toWord) = false := by
    cases ls with
    | nil => rfl
    | cons m ls => simp [commaOnly, hnoComma.2]
  rw [hnotOnly, Bool.or_false]
  by_cases hparen : l.kind = .mark ')'
  · have hnone : Fails ((token .labelName).read call) (Lexeme.writtenAll (l :: ls) ++ rest) := by
      simpa using fails_token
        (absent_of_found (x := .token .labelName) hfound (by rw [hparen]; decide))
    exact ⟨[], _, rfl, run_noLabels hnone, endsIf_closing false hl hfound hparen⟩
  have hnoParen := Lexeme.no_mark (c := ')') (Lexeme.writtenAll ls ++ rest) hl (by simp)
    hparen
  simp only [Lexeme.writtenAll_cons, List.append_assoc]
  rcases Lexeme.label_at_lexeme hl h.2.1 with ⟨hreads, hlength⟩ | ⟨hreads, hnone | hinside⟩
  · obtain ⟨ps, more, htext, hrun, hends⟩ := moreLabels_of_laidOut call h.2.2 (hmem hparen)
    refine ⟨_, more, ?_,
      Or.inl ⟨[_], ps, rfl, run_token_as (htext ▸ hfound) (htext ▸ hlength), hrun⟩, ?_⟩
    · simp [htext]
    · simpa [endsLabels, hnoParen.2, hreads] using hends
  · rw [endsLabels_eq_false hnoParen.2 hreads]
    exact ⟨[], _, rfl, run_noLabels (fails_label hfound hnone),
      fails_labelsEnd ((absent_at_lexeme_iff hfound).2 hnoComma.1)
        ((absent_at_lexeme_iff hfound).2 hnoParen.1)⟩
  · obtain ⟨n, hpos, hle, hlength, habsent⟩ := hinside
    rw [endsLabels_eq_false hnoParen.2 hreads]
    refine ⟨[_], _, ?_, Or.inl ⟨[_], [], rfl, run_label_take hfound hlength hle,
      run_noMoreLabels (habsent ',' (by simp))⟩,
      fails_labelsEnd (habsent ',' (by simp)) (habsent ')' (by simp))⟩
    simp only [textAll_cons, textAll_nil, text_lexeme, List.append_nil, List.append_assoc,
      List.take_append_drop]

/-! ### At the text of an operand -/

variable (call) in
/-- What comes first in lexemes is read as a list of labels exactly if their words start with
one. -/
lemma grouping_of_laidOut (h : Lexeme.LaidOut ls rest) (hcloses : Closes ls)
    (hrest : ls = [] → Absent (.mark '(') rest) :
    (startsLabels (ls.map Lexeme.toWord) = true ∧ ∃ ps more,
        Lexeme.writtenAll ls ++ rest = textAll ps ++ more ∧
          Grammar.groupingLabels.Run call (fun _ _ _ => False) ps more) ∨
      (startsLabels (ls.map Lexeme.toWord) = false ∧
        Fails (Grammar.groupingLabels.read call) (Lexeme.writtenAll ls ++ rest)) := by
  cases ls with
  | nil => exact Or.inr ⟨rfl, fails_phrase (fails_seq (fails_mark (hrest rfl)))⟩
  | cons l ls =>
  have hl := h.1
  have hfound := Lexeme.found_of_laidOut h
  have htext : Lexeme.writtenAll (l :: ls) ++ rest =
      l.gap ++ (l.text ++ (Lexeme.writtenAll ls ++ rest)) := by simp
  by_cases hopen : l.kind = .mark '('
  · have hmem : .mark ')' ∈ ls.map fun l => l.kind := by
      have hall := hcloses (by simp [hopen])
      simpa [hopen] using hall
    obtain ⟨ps, more, hmore, hrun, hends⟩ := labels_of_laidOut call h.2.2 hmem
    have hstarts : startsLabels ((l :: ls).map Lexeme.toWord) =
        (endsLabels false (ls.map Lexeme.toWord) || commaOnly (ls.map Lexeme.toWord)) := by
      simp [startsLabels, Lexeme.readsAs_mark hl hopen]
    rw [hmore] at hfound
    rw [hstarts, htext, hmore]
    have readsOpen : Reads ((mark '(').read call) [.lexeme l] (textAll ps ++ more) :=
      reads_of_plain_run (f := mark '(') ⟨l, rfl, hopen, hfound⟩
    cases hb : endsLabels false (ls.map Lexeme.toWord) || commaOnly (ls.map Lexeme.toWord) with
    | true =>
      rw [hb] at hends
      obtain ⟨qs, last, hlast, hend⟩ := hends
      refine Or.inl ⟨rfl, [.phrase .groupingLabels (.lexeme l :: (ps ++ qs))], last, ?_,
        _, rfl, [.lexeme l], ps ++ qs, rfl, ⟨l, rfl, hopen, ?_⟩, ps, qs, rfl, hlast ▸ hrun, hend⟩
      · simp [hlast]
      · simpa [hlast] using hfound
    | false =>
      rw [hb] at hends
      have hinner := fails_seq_of_reads (reads_of_plain_run hrun)
        (show Fails (labelsEnd.read call) more from hends)
      have houter := fails_seq_of_reads readsOpen hinner
      exact Or.inr ⟨rfl, fails_phrase (by simpa [sequence, labelsEnd] using houter)⟩
  · have hnone := Lexeme.no_mark (c := '(') (Lexeme.writtenAll ls ++ rest) hl (by simp) hopen
    refine Or.inr ⟨by simp [startsLabels, hnone.2], fails_phrase (fails_seq (fails_mark ?_))⟩
    rw [htext]
    exact (absent_at_lexeme_iff hfound).2 hnone.1

/-- A list of labels fails exactly where the words do not start with one. -/
theorem fails_grouping_iff (h : Lexeme.LaidOut ls rest) (hcloses : Closes ls)
    (hrest : ls = [] → Absent (.mark '(') rest) :
    Fails (Grammar.groupingLabels.read call) (Lexeme.writtenAll ls ++ rest) ↔
      startsLabels (ls.map Lexeme.toWord) = false := by
  rcases grouping_of_laidOut call h hcloses hrest with
    ⟨htrue, ps, more, htext, hrun⟩ | ⟨hfalse, hfails⟩
  · refine iff_of_false (fun hfails => ?_) (by simp [htrue])
    obtain ⟨stuck, hfailed⟩ := hfails 0
    obtain ⟨stuck', hdone⟩ := reads_of_plain_run hrun 0
    rw [htext, hdone] at hfailed
    cases hfailed
  · exact iff_of_true hfails hfalse

/-- A keyword is absent exactly if the first word is not read as it. -/
lemma absent_keyword_iff {k : Keyword} (hl : l.Proper)
    (hstops : l.kind.stopsAt l.text rest = true) (hfound : l.Found rest)
    (hstart : l.kind ∈ Rule.starters) :
    Absent (.token (.keyword k)) (l.gap ++ (l.text ++ rest)) ↔
      l.toWord.readsAs (.token (.keyword k)) = false := by
  rw [absent_at_lexeme_iff hfound, Lexeme.keyword_at_starter k hl hstops hstart]
  cases l.toWord.readsAs (.token (.keyword k)) <;> simp

/-- A token is not read exactly if it is absent. -/
lemma fails_token_iff {t : Terminal} :
    Fails ((token t).read call) rest ↔ Absent (.token t) rest := by
  refine ⟨fun h => ?_, fails_token⟩
  by_contra hpresent
  obtain ⟨n, hn⟩ := Option.ne_none_iff_exists'.1 hpresent
  obtain ⟨stuck, hfailed⟩ := h 0
  have hlength : t.length? (rest.drop (blankLength rest)) = some n := hn
  simp [read, readLexeme, Cursor.skipBlank, Cursor.advance, hlength] at hfailed

variable (call) in
/-- At the text of an operand, one of two keywords is read as the first word or fails. -/
lemma either_of_laidOut (k k' : Keyword) (h : Lexeme.LaidOut (l :: ls) rest)
    (hstart : l.kind ∈ Rule.starters) :
    (startsEither k k' ((l :: ls).map Lexeme.toWord) = true ∧ ∃ m : Lexeme,
        Lexeme.writtenAll (l :: ls) ++ rest = m.gap ++ (m.text ++ (Lexeme.writtenAll ls ++ rest)) ∧
          (choice (Grammar.keyword k) (Grammar.keyword k')).Run call (fun _ _ _ => False)
            [.lexeme m] (Lexeme.writtenAll ls ++ rest)) ∨
      (startsEither k k' ((l :: ls).map Lexeme.toWord) = false ∧
        Fails ((choice (Grammar.keyword k) (Grammar.keyword k')).read call)
          (Lexeme.writtenAll (l :: ls) ++ rest)) := by
  have hl := h.1
  have hfound := Lexeme.found_of_laidOut h
  have htext : Lexeme.writtenAll (l :: ls) ++ rest =
      l.gap ++ (l.text ++ (Lexeme.writtenAll ls ++ rest)) := by simp
  have found : ∀ k, l.toWord.readsAs (.token (.keyword k)) = true →
      (Terminal.keyword k).length? (l.text ++ (Lexeme.writtenAll ls ++ rest)) =
        some l.text.length := by
    intro k hk
    have hlength := Lexeme.keyword_at_starter k hl h.2.1 hstart
    rwa [hk, if_pos rfl] at hlength
  have fails : ∀ k, l.toWord.readsAs (.token (.keyword k)) = false →
      Fails ((Grammar.keyword k).read call)
        (l.gap ++ (l.text ++ (Lexeme.writtenAll ls ++ rest))) :=
    fun k hk => fails_token ((absent_keyword_iff hl h.2.1 hfound hstart).2 hk)
  rw [htext]
  cases hk : l.toWord.readsAs (.token (.keyword k)) with
  | true =>
    exact Or.inl ⟨by simp [startsEither, hk], ⟨⟨.token (.keyword k), l.text⟩, l.gap⟩, rfl,
      Or.inl (run_token_as hfound (found k hk))⟩
  | false =>
    cases hk' : l.toWord.readsAs (.token (.keyword k')) with
    | true =>
      refine Or.inl ⟨by simp [startsEither, hk'], ⟨⟨.token (.keyword k'), l.text⟩, l.gap⟩, rfl,
        Or.inr ⟨?_, run_token_as hfound (found k' hk')⟩⟩
      simpa using fails k hk
    | false =>
      exact Or.inr ⟨by simp [startsEither, hk, hk'], fails_choice (fails k hk) (fails k' hk')⟩

/-- Whether a reader does not fail at a text, wherever this stands in a query. -/
def Passes (read : Cursor → Outcome) (cs : List Char) : Prop :=
  ∀ position stuck, read ⟨position, cs⟩ ≠ .failed stuck

/-- What passes does not fail. -/
lemma Passes.not_fails {read : Cursor → Outcome} (h : Passes read rest) : ¬ Fails read rest := by
  intro hfails
  obtain ⟨stuck, hfailed⟩ := hfails 0
  exact h 0 stuck hfailed

/-- What is read passes. -/
lemma passes_of_reads {read : Cursor → Outcome} {ps : List Written} (h : Reads read ps rest) :
    Passes read (textAll ps ++ rest) := by
  intro position stuck hfailed
  obtain ⟨stuck', hdone⟩ := h position
  rw [hdone] at hfailed
  cases hfailed

/-- An optional form passes everywhere. -/
lemma passes_optional (f : Form) (cs : List Char) : Passes ((optional f).read call) cs := by
  intro position stuck hfailed
  simp only [optional, read] at hfailed
  split at hfailed
  · cases hfailed
  · next hother => exact hother stuck hfailed

/-- A sequence passes if the first form is read and the second one passes behind it. -/
lemma passes_seq {f g : Form} {ps : List Written} (hf : Reads (f.read call) ps rest)
    (hg : Passes (g.read call) rest) : Passes ((seq f g).read call) (textAll ps ++ rest) := by
  intro position stuck hfailed
  obtain ⟨stuck', hdone⟩ := hf position
  simp only [read, hdone] at hfailed
  cases hread : g.read call ⟨position + (textAll ps).length, rest⟩ with
  | done items next further => simp [hread, Outcome.after] at hfailed
  | failed further => exact hg _ _ hread
  | tooDeep => simp [hread, Outcome.after] at hfailed

/-- A phrase passes where its body does. -/
lemma passes_phrase {p : Phrase} {body : Form} {cs : List Char} (h : Passes (body.read call) cs) :
    Passes ((phrase p body).read call) cs := by
  intro position stuck hfailed
  simp only [read] at hfailed
  cases hread : body.read call ⟨position, cs⟩ with
  | done items next further => simp [hread, Outcome.mapItems] at hfailed
  | failed further => exact h _ _ hread
  | tooDeep => simp [hread, Outcome.mapItems] at hfailed

/-- One of two keywords fails exactly where the words do not start with one. -/
theorem fails_either_iff {k k' : Keyword} (h : Lexeme.LaidOut (l :: ls) rest)
    (hstart : l.kind ∈ Rule.starters) :
    Fails ((choice (Grammar.keyword k) (Grammar.keyword k')).read call)
        (Lexeme.writtenAll (l :: ls) ++ rest) ↔
      startsEither k k' ((l :: ls).map Lexeme.toWord) = false := by
  rcases either_of_laidOut call k k' h hstart with
    ⟨htrue, m, htext, hrun⟩ | ⟨hfalse, hfails⟩
  · have hpasses := passes_of_reads (reads_of_plain_run hrun)
    refine iff_of_false (fun hfails => hpasses.not_fails ?_) (by rw [htrue]; simp)
    rw [htext] at hfails
    simpa using hfails
  · exact iff_of_true hfails hfalse

/-- A clause that matches series fails exactly where the words do not start with one. -/
theorem fails_matching_iff (h : Lexeme.LaidOut (l :: ls) rest) (hstart : l.kind ∈ Rule.starters)
    (hcloses : Closes (l :: ls)) (hrest : Absent (.mark '(') rest) :
    Fails (Grammar.matching.read call) (Lexeme.writtenAll (l :: ls) ++ rest) ↔
      startsMatching ((l :: ls).map Lexeme.toWord) = false := by
  have hcloses' : Closes ls := by
    have hne : l.kind ≠ .mark ')' := by
      intro heq
      rw [heq] at hstart
      revert hstart; decide
    intro hmem
    have hall := hcloses (List.mem_cons_of_mem _ hmem)
    simpa [Ne.symm hne] using hall
  rcases either_of_laidOut call .on .ignoring h hstart with
    ⟨htrue, m, htext, hrun⟩ | ⟨hfalse, hfails⟩
  · have readsWord := reads_of_plain_run hrun
    have hstarts : startsMatching ((l :: ls).map Lexeme.toWord) =
        startsLabels (ls.map Lexeme.toWord) := by
      rw [startsMatching, htrue, Bool.true_and]
      rfl
    rw [hstarts, htext]
    rcases grouping_of_laidOut call h.2.2 hcloses' fun _ => hrest with
      ⟨hlabels, ps, more, hmore, hrunLabels⟩ | ⟨hlabels, hfails⟩
    · rw [hmore] at readsWord ⊢
      have hpasses : Passes (Grammar.matching.read call)
          (textAll [.lexeme m] ++ (textAll ps ++ more)) :=
        passes_phrase (passes_seq readsWord (passes_seq (reads_of_plain_run hrunLabels)
          (passes_optional _ _)))
      refine iff_of_false (fun hfails => hpasses.not_fails ?_) (by rw [hlabels]; simp)
      simpa using hfails
    · refine iff_of_true (fails_phrase ?_) hlabels
      have hinner := fails_seq_of_reads readsWord
        (fails_seq (g := optional (seq (choice (Grammar.keyword .groupLeft)
          (Grammar.keyword .groupRight)) (optional Grammar.groupingLabels))) hfails)
      simpa [sequence] using hinner
  · exact iff_of_true (fails_phrase (fails_seq hfails)) (by rw [startsMatching, hfalse]; rfl)

end Form

end PromqlGuide
