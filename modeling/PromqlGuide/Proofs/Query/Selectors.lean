import PromqlGuide.Proofs.Expr.Selectors
import PromqlGuide.Proofs.Query.Composition
import PromqlGuide.Proofs.Query.WellFormed

/-!
# Selectors in queries

A selector with any label matchers is read back as it is written, whatever gaps are between its
words: it has its name and its matchers, in order, each with its operator and with what stands
between the quotes.  A range behind it changes none of them.

Main statement: what a query that is a selector stands for (`Query.selector_of_words`).
-/
namespace PromqlGuide

open Text Written

namespace Word

/-- Whether a text is written as words, each with a gap in front of it. -/
def AreWritten (ws : List Word) (cs : List Char) : Prop :=
  ∃ ls : List Lexeme, ls.map Lexeme.toWord = ws ∧ (∀ l ∈ ls, isGap l.gap = true) ∧
    cs = Lexeme.writtenAll ls

/-- Words are written one after the other, without gaps. -/
lemma areWritten_flatMap (ws : List Word) : AreWritten ws (ws.flatMap Word.text) := by
  refine ⟨ws.map fun w => ⟨w, []⟩, by simp [Function.comp_def], ?_, ?_⟩
  · rw [List.forall_mem_map]
    exact fun _ _ => rfl
  · simp [Lexeme.writtenAll, List.flatMap_map, Lexeme.written]

end Word

/-! ### Depth -/

namespace Node

variable {query : List Char} {n : Node}

/-- How many nodes are one inside the other in a selector, from a node of a kind on. -/
def selectorHeight : Kind → Nat
  | .leaf _ => 1
  | .phrase .quotedName => 2
  | .phrase .unquotedMatcher | .phrase .quotedMatcher => 3
  | .phrase .labelMatchers => 4
  | .phrase .vectorSelector => 5
  | _ => 0

/-- The nodes inside one of a selector are less high. -/
lemma selectorHeight_children (hread : n.IsRead query) (hn : 0 < selectorHeight n.kind) :
    ∀ c ∈ n.children, 0 < selectorHeight c.kind ∧
    selectorHeight c.kind < selectorHeight n.kind := by
  cases hkind : n.kind with
  | leaf t => simp [children_of_leaf hread hkind]
  | phrase p =>
    rw [hkind] at hn
    have hparts : AreParts p n.children := hread.areParts hkind
    have hkinds : ∀ {ks : List Kind}, n.children.map Node.kind = ks →
        (∀ k ∈ ks, 0 < selectorHeight k ∧ selectorHeight k < selectorHeight (.phrase p)) →
        ∀ c ∈ n.children, 0 < selectorHeight c.kind ∧
          selectorHeight c.kind < selectorHeight (.phrase p) :=
      fun heq hks c hc => hks _ (heq ▸ List.mem_map_of_mem hc)
    cases p with
    | quotedName => exact hkinds hparts (by decide)
    | unquotedMatcher => exact hkinds hparts (by decide)
    | quotedMatcher => exact hkinds hparts (by decide)
    | labelMatchers =>
      have hall : ∀ k ∈ [Kind.phrase .unquotedMatcher, .phrase .quotedMatcher, .phrase .quotedName],
          0 < selectorHeight k ∧ selectorHeight k < selectorHeight (.phrase .labelMatchers) := by
        decide
      exact fun c hc => hall _ (hparts c hc)
    | vectorSelector =>
      simp only [AreParts, List.mem_cons, List.not_mem_nil, or_false] at hparts
      rcases hparts with heq | heq | heq <;> exact hkinds heq (by decide)
    | _ => cases hn
  | _ =>
    rw [hkind] at hn
    cases hn

/-- A selector is not deep, however many matchers it has. -/
lemma depth_le_of_selectorHeight (hread : ∀ k ∈ n.preorder, k.IsRead query)
    (hn : 0 < selectorHeight n.kind) : n.depth Query.stepsInto ≤ 2 * selectorHeight n.kind := by
  induction n using Node.inductionOn with
  | step n ih =>
    have hsteps : Query.stepsInto n.kind = 2 := by
      cases hkind : n.kind with
      | phrase p =>
        rw [hkind] at hn
        cases p with
        | call | pinned => cases hn
        | _ => rfl
      | _ => rfl
    have hchildren := selectorHeight_children (hread n n.mem_preorder_self) hn
    rw [← Nat.add_zero (n.depth _), depth_add_le_iff, hsteps]
    refine ⟨by omega, fun c hc => ?_⟩
    obtain ⟨hpos, hlt⟩ := hchildren c hc
    have hbelow := ih c hc (fun k hk => hread k (mem_preorder_iff.2 (Or.inr ⟨c, hc, hk⟩))) hpos
    omega

end Node

/-! ### Selectors as queries -/

namespace Query

variable {limits : Limits} {w : Written} {ws : List Word} {query cs tail : List Char} {n : Node}

/-- A tree is written as a query if its words flow, whatever gaps are between them. -/
lemma writes_of_flows (hw : Grammatical Clear w) (hnesting : w.nesting ≤ 1)
    (hwords : w.lexemes.map Lexeme.toWord = ws) (hgaps : ∀ l ∈ w.lexemes, isGap l.gap = true)
    (hspelled : ∀ v ∈ ws, v.IsSpelled) (hflows : Word.Flows ws) (htail : isTail tail = true) :
    w.Writes limits.rules (w.text ++ tail) := by
  subst hwords
  have hproper : ∀ l ∈ w.lexemes, l.Proper := fun l hl =>
    l.proper_of_isSpelled (hgaps l hl) (hspelled _ (List.mem_map_of_mem hl))
  have hlaid : Laid [w] tail := by
    simpa [Laid, lexemesAll] using Lexeme.laidOut_of_flows hproper hflows tail
  exact ⟨hw, limits.lt_rules (Nat.lt_of_le_of_lt hnesting (by decide)), tail, htail, hlaid, rfl⟩

/-- The text of the node of a tree is what is written for it, without the gap in front. -/
lemma textOf_of_writes {depth : Nat} (hw : w.Writes depth (w.text ++ tail))
    (hgap : ∃ l ls, w.lexemes = l :: ls ∧ w.firstGap = l.gap) (hn : w.item 0 = .node n) :
    Expr.textOf (w.text ++ tail) n = String.ofList (w.text.drop (blankLength w.text)) := by
  obtain ⟨l, ls, hlexemes, hfirst⟩ := hgap
  have hstands := stands_of_writes hw
  obtain ⟨rest, -, hlaid, -⟩ := hw.laidOut
  have hproper : l.Proper := by
    rw [Laid, lexemesAll, hlexemes] at hlaid
    exact hlaid.1
  rw [Expr.textOf, text_of_item hstands hn, text_bare_of_firstGap hlexemes hfirst hproper]

/-- A query is refused if its expression is. -/
lemma outcome_eq_error {cause : NumeralTooLong} (hdepth : n.depth stepsInto ≤ limits.building)
    (h : (Expr.ofTree query n).result = .error cause) :
    (ofExpression limits query n).outcome = .error (.numeral cause) := by
  rw [ofExpression, if_neg (Nat.not_lt.2 hdepth)]
  simp only [h]

variable {s : SelectorText} {d : DurationText}

/-- A query that is written as the tree of a selector has this selector. -/
lemma outcome_of_isTree (hw : w.Writes limits.rules (w.text ++ tail)) (h : s.IsTree w) :
    (parseChars limits (w.text ++ tail)).outcome =
      .ok (.vector (String.ofList (w.text.drop (blankLength w.text))) s.name s.written none) := by
  obtain ⟨n, hn, hkind, hresult⟩ := h.exists_vector (stands_of_writes hw)
  have hdepth := Node.depth_le_of_selectorHeight (isRead_of_writes hw hn) (by rw [hkind]; decide)
  rw [hkind] at hdepth
  rw [textOf_of_writes hw h.firstGap hn] at hresult
  rw [(parse_of_writes hw hn).2, ofExpression_eq_ok_iff]
  exact ⟨limits.le_building (Nat.le_trans hdepth (by decide)), hresult⟩

/-- The tree of a selector over a range is at most twelve steps deep. -/
lemma depth_le_of_isRange {base : Node} (hread : ∀ k ∈ n.preorder, k.IsRead query)
    (h : base.IsRange n) (hbase : base.kind = .phrase .vectorSelector) : n.depth stepsInto ≤
      12 := by
  obtain ⟨hkind, -, k, hchildren, hleaf⟩ := h
  have hin : ∀ c ∈ n.children, ∀ k ∈ c.preorder, k.IsRead query := fun c hc k hk =>
    hread k (Node.mem_preorder_iff.2 (Or.inr ⟨c, hc, hk⟩))
  rw [hchildren, List.forall_mem_cons, List.forall_mem_singleton] at hin
  have hdepth := Node.depth_le_of_selectorHeight hin.1 (by rw [hbase]; decide)
  rw [hbase] at hdepth
  have hduration :=
    Node.depth_leaf hleaf (Node.children_of_leaf (hin.2 k k.mem_preorder_self) hleaf)
  rw [← Nat.add_zero (n.depth _), Node.depth_add_le_iff, hkind, hchildren, List.forall_mem_cons,
    List.forall_mem_singleton, hduration]
  exact ⟨by decide, Nat.add_le_add_right hdepth 2, by decide⟩

/-- A query that is written as the tree of a selector over a range has this selector, unless a
number in the range has too many digits. -/
lemma outcome_of_isRangeTree (hw : w.Writes limits.rules (w.text ++ tail)) (h : s.IsRangeTree d w) :
    ((∀ p ∈ d.parts, p.digits.length ≤ numeralLimit) →
    (parseChars limits (w.text ++ tail)).outcome =
        .ok (.matrix (String.ofList (w.text.drop (blankLength w.text))) s.name s.written
          (Duration.span d.parts) none)) ∧
      ((∃ p ∈ d.parts, numeralLimit < p.digits.length) → ∃ digits, numeralLimit < digits ∧
        (parseChars limits (w.text ++ tail)).outcome = .error (.numeral (.reading digits))) := by
  obtain ⟨n, base, hn, hrange, hbase, hshort, hlong⟩ := h.exists_matrix (stands_of_writes hw)
  have hdepth : n.depth stepsInto ≤ limits.building :=
    limits.le_building (depth_le_of_isRange (isRead_of_writes hw hn) hrange hbase)
  rw [(parse_of_writes hw hn).2]
  constructor
  · intro hdigits
    obtain ⟨a, rfl, hresult⟩ := hshort hdigits
    rw [textOf_of_writes hw h.firstGap hn] at hresult
    exact ofExpression_eq_ok_iff.2 ⟨hdepth, hresult⟩
  · intro hdigits
    obtain ⟨digits, hlt, hresult⟩ := hlong hdigits
    exact ⟨digits, hlt, outcome_eq_error hdepth hresult⟩

/-- A selector that is written as words is read as this selector. -/
lemma vector_of_words (h : Word.AreWritten s.words cs) (htail : isTail tail = true) :
    (parseChars limits (cs ++ tail)).outcome =
      .ok (.vector (String.ofList (cs.drop (blankLength cs))) s.name s.written none) := by
  obtain ⟨ls, hwords, hgaps, rfl⟩ := h
  obtain ⟨w, hw, rfl⟩ := SelectorText.exists_isTree hwords
  exact outcome_of_isTree (writes_of_flows hw.grammatical hw.nesting_le hwords hgaps
    s.isSpelled_words s.flows_words htail) hw

/-- A selector over a range that is written as words is read as this selector, unless a number in
the range has too many digits. -/
lemma matrix_of_words (h : Word.AreWritten (s.words ++ d.rangeWords) cs)
    (htail : isTail tail = true) :
    ((∀ p ∈ d.parts, p.digits.length ≤ numeralLimit) → (parseChars limits (cs ++ tail)).outcome =
        .ok (.matrix (String.ofList (cs.drop (blankLength cs))) s.name s.written
          (Duration.span d.parts) none)) ∧
      ((∃ p ∈ d.parts, numeralLimit < p.digits.length) → ∃ digits, numeralLimit < digits ∧
        (parseChars limits (cs ++ tail)).outcome = .error (.numeral (.reading digits))) := by
  obtain ⟨ls, hwords, hgaps, rfl⟩ := h
  obtain ⟨w, hw, rfl⟩ := SelectorText.exists_isRangeTree hwords
  refine outcome_of_isRangeTree (writes_of_flows hw.grammatical hw.nesting_le hwords hgaps ?_
    (s.flows_words.append d.flows_rangeWords) htail) hw
  exact List.forall_mem_append.2 ⟨s.isSpelled_words, d.isSpelled_rangeWords⟩

/-- A selector stands for its name and its matchers, in order, whatever gaps are between its words
and whatever blank text is behind them.  With a range behind it, it stands for a range selector with
the same name and matchers, unless the digits of a part of the duration are too many to be read. -/
theorem selector_of_words (s : SelectorText) (htail : isTail tail = true) :
    (Word.AreWritten s.words cs → (parseChars limits (cs ++ tail)).outcome =
        .ok (.vector (String.ofList (cs.drop (blankLength cs))) s.name s.written none)) ∧
      ∀ d : DurationText, Word.AreWritten (s.words ++ d.rangeWords) cs →
        ((∀ p ∈ d.parts, p.digits.length ≤ numeralLimit) →
        (parseChars limits (cs ++ tail)).outcome =
            .ok (.matrix (String.ofList (cs.drop (blankLength cs))) s.name s.written
              (Duration.span d.parts) none)) ∧
          ((∃ p ∈ d.parts, numeralLimit < p.digits.length) → ∃ digits, numeralLimit < digits ∧
            (parseChars limits (cs ++ tail)).outcome = .error (.numeral (.reading digits))) :=
  ⟨fun h => vector_of_words h htail, fun _ h => matrix_of_words h htail⟩

/-- The selector `up{a="#,",'}'!~"'"}` with a comma behind its matchers. -/
def markedSelector : SelectorText where
  metric := some ⟨['u', 'p'], by decide +kernel, by decide⟩
  matchers :=
    [⟨.plain ['a'] (by decide +kernel), .equal,
        ⟨'"', ['#', ','], .double (.plain (by decide) (by decide) (by decide)
          (.plain (by decide) (by decide) (by decide) .nil))⟩, by decide⟩,
      ⟨.quoted ⟨'\'', ['\x7d'], .single (.plain (by decide) (by decide) (by decide) .nil)⟩,
        .notMatching, ⟨'\x60', ['\''], .raw (by decide)⟩, by decide⟩]
  trailing := true

/-- The duration `5ms`. -/
def shortDuration : DurationText := ⟨[⟨['5'], .millisecond⟩], by decide, by decide +kernel⟩

/-- Quotes, commas, braces and number signs between quotes are only text. -/
theorem selector_marked :
    isTail ['\n', '#'] = true ∧
      Word.AreWritten (markedSelector.words ++ shortDuration.rangeWords)
        ((markedSelector.words ++ shortDuration.rangeWords).flatMap Word.text) ∧
      (parseChars .usual ((markedSelector.words ++ shortDuration.rangeWords).flatMap Word.text ++
          ['\n', '#'])).outcome =
        .ok (.matrix "up\x7ba=\"#,\",'\x7d'!~\x60'\x60,\x7d[5ms]" "up"
          [⟨"a", .equal, "#,"⟩, ⟨"\x7d", .notMatching, "'"⟩] 5 none) := by
  have htail : isTail ['\n', '#'] = true := by decide
  have hwords := Word.areWritten_flatMap (markedSelector.words ++ shortDuration.rangeWords)
  refine ⟨htail, hwords, ?_⟩
  have htext : String.ofList (((markedSelector.words ++ shortDuration.rangeWords).flatMap
      Word.text).drop (blankLength ((markedSelector.words ++ shortDuration.rangeWords).flatMap
        Word.text))) = "up\x7ba=\"#,\",'\x7d'!~\x60'\x60,\x7d[5ms]" := by
    decide +kernel
  rw [((selector_of_words markedSelector htail).2 shortDuration hwords).1 (by decide), htext]
  rfl

/-- A metric with the name of a number is no selector, and a range with too many digits is none. -/
theorem not_selector_of_words_unless :
    (¬ ∀ (name : List Char) (s : SelectorText) (cs : List Char), s.metric = none →
        Terminal.metricName.spells name = true →
        Word.AreWritten (⟨.token .metricName, name⟩ :: s.words) cs →
        ∃ text, (parseChars .usual cs).outcome =
          .ok (.vector text (String.ofList name) s.written none)) ∧
      ¬ ∀ (s : SelectorText) (d : DurationText) (cs : List Char),
        Word.AreWritten (s.words ++ d.rangeWords) cs →
        ∃ text range, (parseChars .usual cs).outcome =
          .ok (.matrix text s.name s.written range none) := by
  constructor
  · intro h
    obtain ⟨text, hok⟩ := h ['n', 'a', 'n'] { markedSelector with metric := none } _ rfl
      (by decide +kernel) (Word.areWritten_flatMap _)
    have hrefused : (parseChars .usual ((⟨.token .metricName, ['n', 'a', 'n']⟩ ::
        SelectorText.words { markedSelector with metric := none }).flatMap Word.text)).outcome =
        .error (.rejected 3) := rfl
    cases hrefused.symm.trans hok
  · intro h
    have hdigits : ∀ c ∈ List.replicate (numeralLimit + 1) '0', isDigit c = true := by
      intro c hc
      rw [List.eq_of_mem_replicate hc]
      decide +kernel
    let d : DurationText :=
      ⟨[⟨List.replicate (numeralLimit + 1) '0', .minute⟩], List.cons_ne_nil _ _,
        List.forall_mem_singleton.2 ⟨List.cons_ne_nil _ _, hdigits⟩⟩
    have hlong : ∃ p ∈ d.parts, numeralLimit < p.digits.length := by
      refine ⟨_, List.mem_singleton_self _, ?_⟩
      rw [List.length_replicate]
      exact Nat.lt_succ_self _
    have hwords := Word.areWritten_flatMap (markedSelector.words ++ d.rangeWords)
    have htail : isTail [] = true := by decide
    obtain ⟨digits, -, herror⟩ := (matrix_of_words hwords htail).2 hlong
    obtain ⟨text, range, hok⟩ := h markedSelector d _ hwords
    rw [List.append_nil] at herror
    cases herror.symm.trans hok

end Query

end PromqlGuide
