import PromqlGuide.Expr.Basic
import PromqlGuide.Proofs.Token.Durations
import PromqlGuide.Proofs.Token.Names
import PromqlGuide.Proofs.Token.Strings
import PromqlGuide.Proofs.Written.Nesting
import PromqlGuide.Proofs.Written.Spacing
import PromqlGuide.Proofs.Written.Subtree

/-!
# Selectors as they are written

A selector is written as the name of a metric, if it has one, and label matchers between braces.
Its words flow, so that it may be written with any gaps between them (`SelectorText.flows`), and
whatever the gaps are, the lexemes are those of a selector in the grammar
(`SelectorText.IsTree.grammatical`).  The same holds of a selector with a range behind it.
-/
namespace PromqlGuide

open Text

/-! ### Words -/

namespace Word

/-- The word of a mark. -/
def ofMark (c : Char) : Word := ⟨.mark c, [c]⟩

/-- Whether a word is one of its kind. -/
def IsSpelled (w : Word) : Prop := w.kind.isUsed = true ∧ w.kind.spells w.text = true

/-- The word of a mark of the grammar is one of its kind. -/
lemma isSpelled_ofMark {c : Char} (hc : c ∈ Lexical.marks) : (ofMark c).IsSpelled :=
  ⟨decide_eq_true hc, beq_self_eq_true _⟩

/-- A mark runs into nothing. -/
lemma isClosed_ofMark (c : Char) : (ofMark c).IsClosed := fun _ => rfl

end Word

/-- A lexeme with a word is of the kind of the word. -/
lemma Written.of_toWord {l : Lexeme} {w : Word} (h : l.toWord = w) : Of w.kind (.lexeme l) :=
  ⟨l, rfl, congrArg Word.kind h⟩

/-- A lexeme whose word is one of its kind is a lexeme. -/
lemma Lexeme.proper_of_isSpelled {l : Lexeme} (hgap : isGap l.gap = true) (h : l.toWord.IsSpelled) :
    l.Proper := ⟨hgap, h⟩

namespace QuotedText

variable (q : QuotedText)

/-- The word of a quoted text. -/
def word : Word := ⟨.token .string, q.text⟩

/-- The word of a quoted text is a string. -/
lemma isSpelled_word : q.word.IsSpelled := ⟨rfl, q.spells⟩

/-- A quoted text runs into nothing. -/
lemma isClosed_word : q.word.IsClosed := fun _ => rfl

end QuotedText

/-! ### Label matchers -/

/-- What is written for the label of a matcher: its name, as it is or between quotes. -/
inductive LabelText where
  | plain (name : List Char) (proper : Terminal.labelName.spells name = true)
  | quoted (name : QuotedText)

namespace LabelText

/-- The name that is written. -/
def name : LabelText → List Char
  | plain name _ => name
  | quoted q => q.body

/-- The word of the name. -/
def word : LabelText → Word
  | plain name _ => ⟨.token .labelName, name⟩
  | quoted q => q.word

/-- The phrase that a matcher with the label is. -/
def phrase : LabelText → Phrase
  | plain .. => .unquotedMatcher
  | quoted _ => .quotedMatcher

/-- The tree of the name, written as a lexeme. -/
def tree (l : Lexeme) : LabelText → Written
  | plain .. => .lexeme l
  | quoted _ => .phrase .quotedName [.lexeme l]

/-- The word of a label is one of its kind. -/
lemma isSpelled_word : ∀ label : LabelText, label.word.IsSpelled
  | plain _ proper => ⟨rfl, proper⟩
  | quoted q => q.isSpelled_word

end LabelText

/-- What is written for a label matcher. -/
structure MatcherText where
  label : LabelText
  operator : MatchOperator
  value : QuotedText
  known : operator ∈ [.equal, .notEqual, .matching, .notMatching]

namespace MatcherText

variable (m : MatcherText)

/-- The matcher that is written. -/
def matcher : Matcher := ⟨String.ofList m.label.name, m.operator, String.ofList m.value.body⟩

/-- The word of the operator. -/
def operatorWord : Word := ⟨.token .matchOperator, m.operator.symbol.toList⟩

/-- The words of a matcher. -/
def words : List Word := [m.label.word, m.operatorWord, m.value.word]

/-- The words of matchers with commas between them. -/
def wordsAll : List MatcherText → List Word
  | [] => []
  | [m] => m.words
  | m :: m' :: ms => m.words ++ .ofMark ',' :: wordsAll (m' :: ms)

/-- The operator of a matcher is a match operator of the grammar. -/
lemma symbol_mem_matchOperators : m.operator.symbol.toList ∈ matchOperators := by
  have hknown := m.known
  simp only [List.mem_cons, List.not_mem_nil, or_false] at hknown
  rcases hknown with h | h | h | h <;> rw [h] <;> decide

/-- The word of the operator is one of its kind. -/
lemma isSpelled_operatorWord : m.operatorWord.IsSpelled := by
  have hsymbols : ∀ w ∈ matchOperators, Terminal.matchOperator.spells w = true := by decide
  exact ⟨rfl, hsymbols _ m.symbol_mem_matchOperators⟩

/-- The operator that is written is the one that is read. -/
lemma ofWritten_operator : MatchOperator.ofWritten m.operator.symbol.toList = m.operator := by
  have hknown := m.known
  simp only [List.mem_cons, List.not_mem_nil, or_false] at hknown
  rcases hknown with h | h | h | h <;> rw [h] <;> decide

/-- The words of matchers are words of their kinds. -/
lemma isSpelled_wordsAll (ms : List MatcherText) : ∀ w ∈ wordsAll ms, w.IsSpelled := by
  have hwords : ∀ m : MatcherText, ∀ w ∈ m.words, w.IsSpelled := by
    intro m
    simp only [words, List.forall_mem_cons]
    exact ⟨m.label.isSpelled_word, m.isSpelled_operatorWord, m.value.isSpelled_word, by simp⟩
  induction ms with
  | nil => simp [wordsAll]
  | cons m ms ih =>
    cases ms with
    | nil => exact hwords m
    | cons m' ms =>
      rw [wordsAll, List.forall_mem_append, List.forall_mem_cons]
      exact ⟨hwords m, Word.isSpelled_ofMark (by decide), ih⟩

/-- The label does not run into the operator. -/
lemma label_meets : m.label.word.Meets m.operatorWord := by
  cases hlabel : m.label with
  | quoted q => exact fun _ _ _ => q.isClosed_word _
  | plain name _ =>
    refine Word.meets_of_stops nofun fun rest => ?_
    have hsymbols : ∀ w ∈ matchOperators, w ≠ [] ∧ endsBefore isNamePart w = true := by decide
    obtain ⟨hne, hends⟩ := hsymbols _ m.symbol_mem_matchOperators
    obtain ⟨c, cs, hsymbol⟩ := List.exists_cons_of_ne_nil hne
    rw [hsymbol] at hends
    rw [operatorWord, hsymbol]
    exact hends

/-- The operator does not run into the value. -/
lemma operator_meets : m.operatorWord.Meets m.value.word := by
  refine Word.meets_of_stops nofun fun rest => ?_
  have hquote : m.value.quote ≠ '~' := by
    intro heq
    exact absurd (heq ▸ m.value.proper.mem_quotes) (by decide)
  simp [operatorWord, QuotedText.word, QuotedText.text, Lexical.stopsAt, Terminal.stopsAt,
    endsBefore, hquote]

/-- The words of matchers flow. -/
lemma flows_wordsAll (ms : List MatcherText) : Word.Flows (wordsAll ms) := by
  have hwords : ∀ m : MatcherText, Word.Flows m.words := fun m =>
    .meets m.label_meets (.meets m.operator_meets (.closed m.value.isClosed_word .nil))
  induction ms with
  | nil => exact .nil
  | cons m ms ih =>
    cases ms with
    | nil => exact hwords m
    | cons m' ms => exact (hwords m).append (.closed (Word.isClosed_ofMark _) ih)

/-! ### Trees of matchers -/

/-- Whether a tree is written for a matcher. -/
inductive IsTree (m : MatcherText) : Written → Prop where
  | intro {l o v : Lexeme} : l.toWord = m.label.word → o.toWord = m.operatorWord →
      v.toWord = m.value.word →
      IsTree m (.phrase m.label.phrase [m.label.tree l, .lexeme o, .lexeme v])

/-- Whether trees are written for matchers with commas between them. -/
inductive AreTrees : List MatcherText → List Written → Prop where
  | nil : AreTrees [] []
  | one {m : MatcherText} {w : Written} : m.IsTree w → AreTrees [m] [w]
  | cons {m m' : MatcherText} {ms : List MatcherText} {w : Written} {comma : Lexeme}
      {ws : List Written} : m.IsTree w → comma.toWord = .ofMark ',' → AreTrees (m' :: ms) ws →
      AreTrees (m :: m' :: ms) (w :: .lexeme comma :: ws)

variable {m}

/-- Lexemes with the words of a matcher are those of a tree of it. -/
lemma exists_isTree {ls : List Lexeme} (h : ls.map Lexeme.toWord = m.words) :
    ∃ w, m.IsTree w ∧ w.lexemes = ls := by
  obtain ⟨l, more, rfl, hl, hmore⟩ := List.map_eq_cons_iff.1 h
  obtain ⟨o, more, rfl, ho, hmore⟩ := List.map_eq_cons_iff.1 hmore
  obtain ⟨v, more, rfl, hv, hnil⟩ := List.map_eq_cons_iff.1 hmore
  obtain rfl := List.map_eq_nil_iff.1 hnil
  refine ⟨_, .intro hl ho hv, ?_⟩
  cases m.label <;> rfl

/-- Lexemes whose words are those of matchers are written for them. -/
lemma exists_areTrees {ms : List MatcherText} {ls : List Lexeme}
    (h : ls.map Lexeme.toWord = wordsAll ms) : ∃ ws, AreTrees ms ws ∧
    Written.lexemesAll ws = ls := by
  induction ms generalizing ls with
  | nil => exact ⟨[], .nil, (List.map_eq_nil_iff.1 h).symm⟩
  | cons m ms ih =>
    cases ms with
    | nil =>
      obtain ⟨w, hw, rfl⟩ := exists_isTree h
      exact ⟨[w], .one hw, by simp [Written.lexemesAll]⟩
    | cons m' ms =>
      obtain ⟨ks, more, rfl, hks, hmore⟩ := List.map_eq_append_iff.1 h
      obtain ⟨comma, more, rfl, hcomma, hmore⟩ := List.map_eq_cons_iff.1 hmore
      obtain ⟨w, hw, rfl⟩ := exists_isTree hks
      obtain ⟨ws, hws, rfl⟩ := ih hmore
      exact ⟨_, .cons hw hcomma hws, by simp [Written.lexemesAll, Written.lexemes]⟩

/-- A tree that is written for a matcher is one in the grammar. -/
lemma IsTree.isMatcher {w : Written} (h : m.IsTree w) : Written.IsMatcher w := by
  cases h with
  | intro hl ho hv =>
    cases hlabel : m.label with
    | plain name proper =>
      rw [hlabel] at hl
      exact .plain (Written.of_toWord hl) (Written.of_toWord ho) (Written.of_toWord hv)
    | quoted q =>
      rw [hlabel] at hl
      exact .quoted (Written.of_toWord hl) (Written.of_toWord ho) (Written.of_toWord hv)

/-- A matcher is not nested. -/
lemma IsTree.nesting_le {w : Written} (h : m.IsTree w) : w.nesting ≤ 1 := by
  cases h with
  | @intro l o v =>
    have hlabel : (m.label.tree l).nesting ≤ 1 := by
      cases m.label with
      | plain => exact Nat.le_refl 1
      | quoted => exact Written.nesting_le_of_isPlain rfl (by simp [Written.nesting])
    refine Written.nesting_le_of_isPlain (by cases m.label <;> rfl) ?_
    simpa [Written.nesting] using hlabel

/-- Matchers are not nested. -/
lemma AreTrees.nesting_le {ms : List MatcherText} {ws : List Written} (h : AreTrees ms ws) :
    ∀ w ∈ ws, w.nesting ≤ 1 := by
  induction h with
  | nil => simp
  | one hw => exact List.forall_mem_singleton.2 hw.nesting_le
  | cons hw _ _ ih =>
    simp only [List.forall_mem_cons]
    exact ⟨hw.nesting_le, Nat.le_refl 1, ih⟩

/-- Trees of matchers are label matchers with commas between them. -/
lemma AreTrees.separated {ms : List MatcherText} {ws : List Written} (h : AreTrees ms ws) :
    Written.Separated Written.IsMatcher ws := by
  induction h with
  | nil => exact .nil
  | one hw => exact .one hw.isMatcher
  | cons hw hcomma hws ih =>
    cases hws with
    | one hv => exact .cons hw.isMatcher (Written.of_toWord hcomma) ih
    | cons hv _ _ => exact .cons hw.isMatcher (Written.of_toWord hcomma) ih

end MatcherText

/-! ### Selectors -/

/-- The name of a metric that is not read as a number. -/
structure MetricText where
  name : List Char
  proper : Terminal.metricName.spells name = true
  notNumber : ¬ Name.IsNumber name

/-- What is written for a selector: the name of a metric, if there is one, and label matchers
between braces, with or without a comma behind the last one. -/
structure SelectorText where
  metric : Option MetricText
  matchers : List MatcherText
  trailing : Bool

namespace SelectorText

variable (s : SelectorText)

/-- The name that is written, or nothing. -/
def name : String := (s.metric.map fun m => String.ofList m.name).getD ""

/-- The words in front of the braces. -/
def nameWords : List Word := s.metric.toList.map fun m => ⟨.token .metricName, m.name⟩

/-- The words behind the last matcher. -/
def commaWords : List Word := if s.trailing then [.ofMark ','] else []

/-- The words of a selector. -/
def words : List Word :=
  s.nameWords ++
    .ofMark '\x7b' :: (MatcherText.wordsAll s.matchers ++ s.commaWords ++ [.ofMark '\x7d'])

/-- All words of a selector are of their kinds. -/
lemma isSpelled_words : ∀ w ∈ s.words, w.IsSpelled := by
  have hname : ∀ w ∈ s.nameWords, w.IsSpelled := by
    rw [nameWords, List.forall_mem_map]
    exact fun m _ => ⟨rfl, m.proper⟩
  have hcomma : ∀ w ∈ s.commaWords, w.IsSpelled := by
    unfold commaWords
    split
    · exact List.forall_mem_singleton.2 (Word.isSpelled_ofMark (by decide))
    · simp
  simp only [words, List.forall_mem_append, List.forall_mem_cons]
  exact ⟨hname, Word.isSpelled_ofMark (by decide),
    ⟨MatcherText.isSpelled_wordsAll _, hcomma⟩, Word.isSpelled_ofMark (by decide), by simp⟩

/-- The words of a selector flow. -/
lemma flows_words : Word.Flows s.words := by
  have hmark : ∀ {c : Char} {ws : List Word}, Word.Flows ws → Word.Flows (.ofMark c :: ws) :=
    .closed (Word.isClosed_ofMark _)
  have hcomma : Word.Flows s.commaWords := by
    unfold commaWords
    split
    · exact hmark .nil
    · exact .nil
  have hblock := ((MatcherText.flows_wordsAll s.matchers).append hcomma).append
    (hmark (c := '\x7d') .nil)
  cases hmetric : s.metric with
  | none =>
    rw [words, nameWords, hmetric]
    exact hmark hblock
  | some m =>
    rw [words, nameWords, hmetric]
    refine .meets (Word.meets_of_stops nofun fun rest => ?_) (hmark hblock)
    exact Lexical.stopsAt_apart (x := .token .metricName) (c := '\x7b') nofun (by decide)
      (by decide +kernel) (by decide) rest

/-- Whether a tree is written for a selector. -/
inductive IsTree (s : SelectorText) : Written → Prop where
  | intro {ns cs : List Lexeme} {opening closing : Lexeme} {ws : List Written} :
      ns.map Lexeme.toWord = s.nameWords → opening.toWord = .ofMark '\x7b' →
      MatcherText.AreTrees s.matchers ws → cs.map Lexeme.toWord = s.commaWords →
      closing.toWord = .ofMark '\x7d' →
      IsTree s (.phrase .vectorSelector (ns.map .lexeme ++
        [.phrase .labelMatchers (.lexeme opening :: ws ++ cs.map .lexeme ++ [.lexeme closing])]))

variable {s}

/-- Lexemes whose words are those of a selector are written for it. -/
lemma exists_isTree {ls : List Lexeme} (h : ls.map Lexeme.toWord = s.words) :
    ∃ w, s.IsTree w ∧ w.lexemes = ls := by
  have hleaves : ∀ ks : List Lexeme, Written.lexemesAll (ks.map .lexeme) = ks := by
    intro ks
    induction ks with
    | nil => rfl
    | cons k ks ih => simp [Written.lexemesAll, Written.lexemes, ih]
  obtain ⟨ns, more, rfl, hns, hmore⟩ := List.map_eq_append_iff.1 h
  obtain ⟨opening, more, rfl, hopening, hmore⟩ := List.map_eq_cons_iff.1 hmore
  obtain ⟨inside, closing, rfl, hinside, hclosing⟩ := List.map_eq_append_iff.1 hmore
  obtain ⟨ls, cs, rfl, hls, hcs⟩ := List.map_eq_append_iff.1 hinside
  obtain ⟨last, rfl, hlast⟩ := List.map_eq_singleton_iff.1 hclosing
  obtain ⟨ws, hws, rfl⟩ := MatcherText.exists_areTrees hls
  refine ⟨_, .intro hns hopening hws hcs hlast, ?_⟩
  simp [Written.lexemes, Written.lexemesAll, hleaves]

/-- A tree that is written for a selector is one in the grammar. -/
lemma IsTree.grammatical {clear : List Written → List Word → Prop} {w : Written} (h : s.IsTree w) :
    Written.Grammatical clear w := by
  cases h with
  | @intro ns cs opening closing ws hns hopening hws hcs hclosing =>
    have hcomma : Written.Maybe (Written.Of (.mark ',')) (cs.map .lexeme) := by
      unfold commaWords at hcs
      split at hcs
      · obtain ⟨c, rfl, hc⟩ := List.map_eq_singleton_iff.1 hcs
        exact Or.inr ⟨_, rfl, Written.of_toWord hc⟩
      · obtain rfl := List.map_eq_nil_iff.1 hcs
        exact Or.inl rfl
    have hblock : Written.IsLabelBlock (.phrase .labelMatchers
        (.lexeme opening :: ws ++ cs.map .lexeme ++ [.lexeme closing])) :=
      ⟨_, rfl, _, ws, _, _, rfl, Written.of_toWord hopening, hws.separated, hcomma,
        Written.of_toWord hclosing⟩
    unfold nameWords at hns
    cases hmetric : s.metric with
    | none =>
      rw [hmetric] at hns
      obtain rfl := List.map_eq_nil_iff.1 hns
      exact .unnamed hblock
    | some m =>
      rw [hmetric] at hns
      obtain ⟨l, rfl, hl⟩ := List.map_eq_singleton_iff.1 hns
      have hname : l.text = m.name := congrArg Word.text hl
      refine .named (congrArg Word.kind hl) ?_ (Or.inr ⟨_, rfl, hblock⟩)
      rw [hname]
      by_contra hnumber
      exact m.notNumber ((Name.isNumber_iff m.proper).2 hnumber)

/-- A selector is not nested. -/
lemma IsTree.nesting_le {w : Written} (h : s.IsTree w) : w.nesting ≤ 1 := by
  have hleaves : ∀ ks : List Lexeme, ∀ w ∈ ks.map Written.lexeme, w.nesting ≤ 1 := by
    intro ks
    rw [List.forall_mem_map]
    exact fun _ _ => Nat.le_refl 1
  cases h with
  | intro _ _ hws _ _ =>
    refine Written.nesting_le_of_isPlain rfl ?_
    rw [List.forall_mem_append, List.forall_mem_singleton]
    refine ⟨hleaves _, Written.nesting_le_of_isPlain rfl ?_⟩
    simp only [List.cons_append, List.forall_mem_cons, List.forall_mem_append]
    exact ⟨Nat.le_refl 1, ⟨hws.nesting_le, hleaves _⟩, Nat.le_refl 1, by simp⟩

/-- The gap in front of a selector is that of its first lexeme. -/
lemma IsTree.firstGap {w : Written} (h : s.IsTree w) :
    ∃ l ls, w.lexemes = l :: ls ∧ w.firstGap = l.gap := by
  cases h with
  | @intro ns cs opening closing ws =>
    cases ns with
    | nil => exact ⟨_, _, rfl, rfl⟩
    | cons n ns => exact ⟨_, _, rfl, rfl⟩

end SelectorText

/-! ### Ranges -/

/-- What is written for a duration: parts, one after the other, each with digits in front of its
unit. -/
structure DurationText where
  parts : List DurationPart
  ne_nil : parts ≠ []
  digits : ∀ p ∈ parts, p.digits ≠ [] ∧ ∀ c ∈ p.digits, isDigit c = true

namespace DurationText

variable (d : DurationText)

/-- How a duration is written. -/
def text : List Char := d.parts.flatMap DurationPart.text

/-- The text of a duration writes its parts. -/
lemma writes : Duration.Writes d.parts d.text := ⟨d.digits, rfl⟩

/-- The word of a duration. -/
def word : Word := ⟨.token .duration, d.text⟩

/-- The words of a duration in brackets. -/
def rangeWords : List Word := [.ofMark '[', d.word, .ofMark ']']

/-- All words of a range are of their kinds. -/
lemma isSpelled_rangeWords : ∀ w ∈ d.rangeWords, w.IsSpelled := by
  simp only [rangeWords, List.forall_mem_cons]
  refine ⟨Word.isSpelled_ofMark (by decide), ⟨rfl, ?_⟩, Word.isSpelled_ofMark (by decide), by simp⟩
  exact beq_iff_eq.2 (Duration.tokenLength_of_writes d.ne_nil d.writes)

/-- The words of a range may stand in front of any text. -/
lemma flows_rangeWords : Word.Flows d.rangeWords := by
  refine .closed (Word.isClosed_ofMark _) (.meets (Word.meets_of_stops nofun fun rest => ?_)
    (.closed (Word.isClosed_ofMark _) .nil))
  exact Lexical.stopsAt_apart (x := .token .duration) (c := ']') nofun (by decide)
    (by decide +kernel)
    (by decide) rest

end DurationText

namespace SelectorText

variable {s : SelectorText} {d : DurationText}

/-- Whether a tree is written for a selector with a range behind it. -/
inductive IsRangeTree (s : SelectorText) (d : DurationText) : Written → Prop where
  | intro {w : Written} {opening l closing : Lexeme} : s.IsTree w → opening.toWord = .ofMark '[' →
      l.toWord = d.word → closing.toWord = .ofMark ']' →
      IsRangeTree s d (.phrase .matrixSelector [w, .lexeme opening, .lexeme l, .lexeme closing])

/-- Lexemes with the words of a selector and a range are those of a tree of both. -/
lemma exists_isRangeTree {ls : List Lexeme} (h : ls.map Lexeme.toWord = s.words ++ d.rangeWords) :
    ∃ w, s.IsRangeTree d w ∧ w.lexemes = ls := by
  obtain ⟨ks, more, rfl, hks, hmore⟩ := List.map_eq_append_iff.1 h
  obtain ⟨opening, more, rfl, hopening, hmore⟩ := List.map_eq_cons_iff.1 hmore
  obtain ⟨l, more, rfl, hl, hmore⟩ := List.map_eq_cons_iff.1 hmore
  obtain ⟨closing, rfl, hclosing⟩ := List.map_eq_singleton_iff.1 hmore
  obtain ⟨w, hw, rfl⟩ := exists_isTree hks
  exact ⟨_, .intro hw hopening hl hclosing, by simp [Written.lexemes, Written.lexemesAll]⟩

/-- A selector with a range is not nested. -/
lemma IsRangeTree.nesting_le {w : Written} (h : s.IsRangeTree d w) : w.nesting ≤ 1 := by
  cases h with
  | intro hw =>
    refine Written.nesting_le_of_isPlain rfl ?_
    simpa [Written.nesting] using hw.nesting_le

/-- A selector with a range is an expression. -/
lemma IsRangeTree.grammatical {clear : List Written → List Word → Prop} {w : Written}
    (h : s.IsRangeTree d w) : Written.Grammatical clear w := by
  cases h with
  | intro hw hopening hl hclosing =>
    refine .postfixed hw.grammatical ?_ (.range (Written.of_toWord hopening)
      (Written.of_toWord hl) (Written.of_toWord hclosing))
    cases hw
    exact Nat.le_refl 7

/-- The first gap of a selector with a range is that of its first lexeme. -/
lemma IsRangeTree.firstGap {w : Written} (h : s.IsRangeTree d w) :
    ∃ l ls, w.lexemes = l :: ls ∧ w.firstGap = l.gap := by
  cases h with
  | @intro w opening k closing hw =>
    obtain ⟨l, ls, hlexemes, hgap⟩ := hw.firstGap
    refine ⟨l, ls ++ [opening, k, closing], ?_, hgap⟩
    rw [Written.lexemes, Written.lexemesAll, hlexemes]
    rfl

end SelectorText

end PromqlGuide
