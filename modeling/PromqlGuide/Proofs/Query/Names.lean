import PromqlGuide.Proofs.Query.Grouping
import PromqlGuide.Proofs.Token.Names

/-!
# Names in queries

The words of operators are kept apart from the names of metrics, and the aggregation operators from
the names of functions.  The two lists do not meet, so the word of a binary operator or of a
modifier may be the name of a function, as in `and(x)`.

Main statement: which texts are names in some accepted query (`Query.names_of_tokens`).
-/
namespace PromqlGuide

open Text Written

namespace Query

variable {limits : Limits} {name : List Char} {t : Terminal}

/-- Whether a text is a token of a kind in the tree of an accepted query. -/
def IsUsed (limits : Limits) (t : Terminal) (name : List Char) : Prop :=
  ∃ query root n, Node.ofQuery? limits query = some root ∧
    (∀ m ∈ root.preorder, m.isError = false) ∧
    n ∈ root.preorder ∧ n.kind = .leaf t ∧ n.text query = name

/-- A token in the tree of a query is spelled as its kind asks. -/
lemma IsUsed.spells (h : IsUsed limits t name) : t.spells name = true := by
  obtain ⟨query, root, n, hquery, haccepted, hn, hkind, rfl⟩ := h
  have hread := isRead_of_ofQuery hquery haccepted hn (by simp [hkind])
  exact (hread n n.mem_preorder_self).spelled t hkind

/-- A metric is not named like a number, which would be read instead. -/
lemma IsUsed.not_isNumber (h : IsUsed limits .metricName name) : ¬Name.IsNumber name := by
  have hspells := h.spells
  obtain ⟨query, root, n, hquery, haccepted, hn, hkind, rfl⟩ := h
  obtain ⟨e, top, he, htop, hn⟩ :=
    Node.exists_writes_of_mem_preorder hquery haccepted hn (by simp [hkind])
  obtain ⟨w, place, hwithin, hstands, hitem⟩ :=
    exists_within_of_mem_preorder (stands_of_writes he) htop hn
  rw [Name.isNumber_iff hspells, not_not]
  have hkinds := kind_of_item hitem
  rw [hkind] at hkinds
  cases w with
  | phrase p parts => cases hkinds
  | lexeme l =>
    obtain ⟨t, hl, hleaf⟩ := exists_token_of_kind hkinds
    cases hleaf
    have htext : n.text query = l.text := by simpa [bare] using text_of_item hstands hitem
    rw [htext]
    exact (fragment_of_within he.grammatical hwithin).number_eq_none hl

/-! ### Queries for names -/

/-- What a query is written as holds tokens of an accepted query. -/
lemma isUsed_of_writes {query : List Char} {e : Written} {n m : Node}
    (he : e.Writes limits.rules query)
    (hn : e.item 0 = .node n) (hm : m ∈ n.preorder) (hkind : m.kind = .leaf t) :
    IsUsed limits t (m.text query) := by
  have htop : n ∈ [n] := List.mem_singleton_self n
  refine ⟨query, _, m, (parse_of_writes he hn).1, fun k hk => ?_,
    Node.mem_preorder_iff.2 (Or.inr ⟨n, htop, hm⟩), hkind, rfl⟩
  rcases Node.mem_preorder_iff.1 hk with rfl | ⟨c, hc, hbelow⟩
  · rfl
  · rw [List.mem_singleton.1 hc] at hbelow
    exact isError_of_mem_preorder (stands_of_writes he) hn hbelow

/-- A metric may have every name that is spelled like one and is no number. -/
lemma isUsed_metricName (h : Terminal.metricName.spells name = true)
    (hnumber : ¬Name.IsNumber name) :
    IsUsed limits .metricName name := by
  have hwrites : (Written.phrase .vectorSelector [.lexeme ⟨⟨.token .metricName, name⟩, []⟩]).Writes
      limits.rules name := by
    rw [Name.isNumber_iff h, not_not] at hnumber
    refine ⟨.named rfl hnumber (Or.inl rfl), ?_, [], rfl, ⟨⟨rfl, rfl, h⟩, rfl, trivial⟩, by simp⟩
    simpa [Written.nesting, Written.deepest] using limits.lt_rules (n := 1) (by decide)
  have hused :
    IsUsed limits .metricName ((⟨.leaf .metricName, 0, name.length, []⟩ : Node).text name) := by
    refine isUsed_of_writes hwrites rfl ?_ rfl
    rw [Node.preorder_eq]
    simp [Written.items, Written.item, Written.leaf, Item.node?, Item.span, Node.preorder_eq]
  simpa [Node.text, slice] using hused

/-- A call of a function without arguments. -/
def emptyCall (name : List Char) : Written :=
  .phrase .call [.lexeme ⟨⟨.token .functionName, name⟩, []⟩,
    .phrase .callBody [.lexeme ⟨⟨.mark '(', ['(']⟩, []⟩, .lexeme ⟨⟨.mark ')', [')']⟩, []⟩]]

/-- A call without arguments is written as its query. -/
lemma writes_emptyCall (h : Terminal.functionName.spells name = true) :
    (emptyCall name).Writes limits.rules (name ++ ['(', ')']) := by
  have hopening : Of (.mark '(') (.lexeme ⟨⟨.mark '(', ['(']⟩, []⟩) := ⟨_, rfl, rfl⟩
  have hclosing : Of (.mark ')') (.lexeme ⟨⟨.mark ')', [')']⟩, []⟩) := ⟨_, rfl, rfl⟩
  refine ⟨.call ⟨_, rfl, rfl⟩ ⟨_, [], _, rfl, hopening, .nil, hclosing⟩ ?_, ?_, [], rfl, ?_, ?_⟩
  · simp [Written.isNode]
  · simpa [emptyCall, Written.nesting, Written.deepest] using limits.lt_rules (n := 3) (by decide)
  · exact ⟨⟨rfl, rfl, h⟩, rfl, by decide, rfl, by decide, rfl, trivial⟩
  · simp [emptyCall]

/-- A function may have every name that is spelled like one. -/
lemma isUsed_functionName (h : Terminal.functionName.spells name = true) :
    IsUsed limits .functionName name := by
  have hused : IsUsed limits .functionName
      ((⟨.leaf .functionName, 0, name.length, []⟩ : Node).text (name ++ ['(', ')'])) := by
    refine isUsed_of_writes (writes_emptyCall h) rfl ?_ rfl
    rw [Node.preorder_eq]
    simp [Written.items, Written.item, Written.leaf, Item.node?, Item.span, Node.preorder_eq]
  simpa [Node.text, slice] using hused

/-! ### The names -/

/-- A text is the name of a metric exactly if it is made of the characters for that and is no word
of an operator and no word of a number in any letter case.  It is the name of a function exactly if
it is a label name and no aggregation operator in any letter case.  So the words of operators are
names of functions. -/
theorem names_of_tokens (limits : Limits) (name : List Char) :
    (IsUsed limits .metricName name ↔
      Name.runLength? isMetricStart isMetricPart name = some name.length ∧
        (¬∃ w ∈ Keyword.reserved.map Keyword.letters, Folded w name) ∧
        ¬∃ w ∈ Name.numberWords, Folded w name) ∧
    (IsUsed limits .functionName name ↔
      Terminal.labelName.spells name = true ∧ ¬∃ w ∈ aggregationOperators, Folded w name) ∧
    ∀ w ∈ Keyword.reserved.map Keyword.letters, Folded w name →
      Terminal.labelName.spells name = true → IsUsed limits .functionName name := by
  have hfunction : IsUsed limits .functionName name ↔
      Terminal.labelName.spells name = true ∧ ¬∃ w ∈ aggregationOperators, Folded w name :=
    ⟨fun h => Name.functionName_spells_iff.1 h.spells,
      fun h => isUsed_functionName (Name.functionName_spells_iff.2 h)⟩
  refine ⟨⟨fun h => ?_, fun h => ?_⟩, hfunction, fun w hw hfolded hlabel =>
    hfunction.2 ⟨hlabel, ?_⟩⟩
  · obtain ⟨hlength, hreserved⟩ := Name.metricName_spells_iff.1 h.spells
    exact ⟨hlength, hreserved, h.not_isNumber⟩
  · exact isUsed_metricName (Name.metricName_spells_iff.2 ⟨h.1, h.2.1⟩) h.2.2
  · -- the small form of a text is the word that it is, and the two lists of words do not meet
    rintro ⟨v, hv, hfolded'⟩
    have hdisjoint : ∀ w ∈ Keyword.reserved.map Keyword.letters,
      w ∉ aggregationOperators := by decide
    have hsmall := map_smallForm_of_folded (Terminal.isSmallWord_reserved w hw) hfolded
    have hsmall' := map_smallForm_of_folded (Terminal.isSmallWord_aggregationOperators v hv)
      hfolded'
    exact hdisjoint w hw (hsmall ▸ hsmall' ▸ hv)

/-- The tree of `-and(x)`. -/
def negatedAnd : Node :=
  ⟨.root, 0, 7, [⟨.phrase .unary, 0, 7, [⟨.leaf (.symbol .sub), 0, 1, []⟩, ⟨.phrase .call, 1, 7,
    [⟨.leaf .functionName, 1, 4, []⟩, ⟨.phrase .callBody, 4, 7, [⟨.phrase .vectorSelector, 5, 6,
      [⟨.leaf .metricName, 5, 6, []⟩]⟩]⟩]⟩]⟩]⟩

/-- In `-and(x)`, the word of an operator is the name of a function.  This is no accident of the
place where it stands: every letter case of such a word is one. -/
theorem names_operatorWords :
    Node.ofQuery? .usual ['-', 'a', 'n', 'd', '(', 'x', ')'] = some negatedAnd ∧
      (∀ m ∈ negatedAnd.preorder, m.isError = false) ∧ IsUsed .usual .functionName ['a', 'n', 'd'] ∧
      IsUsed .usual .functionName ['U', 'n', 'l', 'e', 's', 'S'] ∧
        ¬IsUsed .usual .metricName ['a', 'n', 'd'] ∧
      ¬IsUsed .usual .functionName ['S', 'u', 'm'] := by
  refine ⟨rfl, by decide, ?_, ?_, fun h => ?_, fun h => ?_⟩
  · exact (names_of_tokens .usual _).2.2 ['a', 'n', 'd'] (by decide) (by decide) (by decide)
  · exact (names_of_tokens .usual _).2.2 ['u', 'n', 'l', 'e', 's', 's'] (by decide) (by decide)
      (by decide)
  · exact ((names_of_tokens .usual _).1.1 h).2.1 (by decide)
  · exact ((names_of_tokens .usual _).2.1.1 h).2 (by decide)

end Query

end PromqlGuide
