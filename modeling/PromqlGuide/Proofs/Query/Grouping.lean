import PromqlGuide.Proofs.Expr.Makers
import PromqlGuide.Proofs.Expr.Refusal
import PromqlGuide.Proofs.Query.WellFormed
import PromqlGuide.Proofs.Tree.Tokens

/-!
# How aggregations are grouped

An aggregation has at most one modifier, in front of its arguments or behind them, and is grouped by
the label names in it.  Of the modifier itself nothing is kept, so an aggregation without label
names may be one without a modifier or one whose modifier has an empty list.

Main statement: the labels of an aggregation tell whether it has a modifier, and are there if they
are to be dropped, exactly if it has no modifier with an empty list
(`Query.grouping_of_aggregation`).
-/
namespace PromqlGuide

open Text Written

namespace Node

variable {query : List Char} {n : Node}

/-- The first child of a kind is the first of all of that kind. -/
lemma child_singleton (n : Node) (k : Kind) : n.child? [k] = (n.childrenOf k).head? := by
  rw [childrenOf, List.head?_filter, child?]
  simp only [List.mem_singleton]

/-- The modifiers that are written in an aggregation. -/
def modifiers (n : Node) : List Node := n.childrenOf (.phrase .modifier)

/-- Whether an aggregation has a modifier with an empty list of label names. -/
def HasEmptyModifier (n : Node) : Prop :=
  ∃ m ∈ n.modifiers, ∃ list ∈ m.childrenOf (.phrase .groupingLabels), list.children = []

/-- How an aggregation is grouped: by nothing if it has no modifier, or else by the label names of
its modifier, which are dropped if this starts with `without`. -/
inductive IsGroupedBy (query : List Char) (n : Node) : List String → Bool → Prop where
  | whole : n.modifiers = [] → IsGroupedBy query n [] false
  | labels {m word list : Node} {k : Keyword} : n.modifiers = [m] → m.children = [word, list] →
      word.kind = .leaf (.keyword k) → k = .byWord ∨ k = .without →
      list.kind = .phrase .groupingLabels →
      IsGroupedBy query n (list.children.map (Expr.textOf query)) (decide (k = .without))

/-! ### Modifiers -/

/-- An aggregation has at most one modifier. -/
lemma length_modifiers_le (h : n.IsRead query) (hkind : n.kind = .phrase .aggregation) :
    n.modifiers.length ≤ 1 := by
  have hparts : n.children.map kind ∈ _ := h.areParts hkind
  have hcount : n.modifiers.length =
      (n.children.map kind).countP fun k => decide (k = .phrase .modifier) := by
    rw [List.countP_map, List.countP_eq_length_filter]
    rfl
  rw [hcount]
  simp only [List.mem_cons, List.not_mem_nil, or_false] at hparts
  rcases hparts with heq | heq | heq <;> rw [heq] <;> decide

/-- An aggregation has no modifier or one. -/
lemma modifiers_eq_or (h : n.IsRead query) (hkind : n.kind = .phrase .aggregation) :
    n.modifiers = [] ∨ ∃ m, n.modifiers = [m] := by
  have hlength := length_modifiers_le h hkind
  cases hm : n.modifiers with
  | nil => exact Or.inl rfl
  | cons m more =>
    rw [hm, List.length_cons] at hlength
    obtain rfl : more = [] := List.eq_nil_of_length_eq_zero (by omega)
    exact Or.inr ⟨m, rfl⟩

/-- A modifier is one of two words and a list. -/
lemma exists_word_list (h : n.IsRead query) (hkind : n.kind = .phrase .modifier) :
    ∃ word list k, n.children = [word, list] ∧ word.kind = .leaf (.keyword k) ∧
      (k = .byWord ∨ k = .without) ∧ list.kind = .phrase .groupingLabels := by
  have hparts : n.children.map kind ∈ _ := h.areParts hkind
  have hkinds : ∃ k, (k = .byWord ∨ k = .without) ∧
      n.children.map kind = [.leaf (.keyword k), .phrase .groupingLabels] := by
    simp only [List.mem_cons, List.not_mem_nil, or_false] at hparts
    rcases hparts with heq | heq
    · exact ⟨.byWord, Or.inl rfl, heq⟩
    · exact ⟨.without, Or.inr rfl, heq⟩
  obtain ⟨k, hk, heq⟩ := hkinds
  obtain ⟨word, more, hchildren, hword, hmore⟩ := List.map_eq_cons_iff.1 heq
  obtain ⟨list, rest, rfl, hlist, hrest⟩ := List.map_eq_cons_iff.1 hmore
  obtain rfl := List.map_eq_nil_iff.1 hrest
  exact ⟨word, list, k, hchildren, hword, hk, hlist⟩

/-- The labels of a list are the texts of its children. -/
lemma labels_of_isRead (h : n.IsRead query) (hkind : n.kind = .phrase .groupingLabels) :
    n.labels query = n.children.map (Expr.textOf query) := by
  have hparts : ∀ c ∈ n.children, c.kind = .leaf .labelName := h.areParts hkind
  have hall : n.childrenOf (.leaf .labelName) = n.children :=
    List.filter_eq_self.2 fun c hc => by simp [hparts c hc]
  rw [labels, hall]
  rfl

/-- An aggregation that is read is grouped as its modifier says. -/
lemma isGroupedBy_of_isRead (hread : ∀ s ∈ n.preorder, s.IsRead query)
    (hkind : n.kind = .phrase .aggregation) :
    n.IsGroupedBy query
      ((((n.child? [.phrase .modifier]).bind fun m => m.child? [.phrase .groupingLabels]).map
        fun l => l.labels query).getD [])
      ((n.child? [.phrase .modifier]).bind fun m =>
        m.child? [.leaf (.keyword .without)]).isSome := by
  rw [child_singleton]
  rcases modifiers_eq_or (hread n n.mem_preorder_self) hkind with hm | ⟨m, hm⟩
  · rw [show n.childrenOf (.phrase .modifier) = [] from hm]
    exact .whole hm
  · rw [show n.childrenOf (.phrase .modifier) = [m] from hm]
    obtain ⟨hmem, hmkind⟩ := List.mem_filter.1 (hm ▸ List.mem_singleton_self m : m ∈ n.modifiers)
    have hin := mem_preorder_of_mem_children hmem
    obtain ⟨word, list, k, hchildren, hword, hk, hlist⟩ :=
      exists_word_list (hread m hin) (of_decide_eq_true hmkind)
    have hlistmem : list ∈ m.preorder := mem_preorder_of_mem_children (by simp [hchildren])
    have hlabels := labels_of_isRead (hread list (mem_preorder_trans hin hlistmem)) hlist
    have hfound : m.child? [.phrase .groupingLabels] = some list := by
      simp [child?, hchildren, hword, hlist]
    have hwithout : (m.child? [.leaf (.keyword .without)]).isSome = decide (k = .without) := by
      rcases hk with rfl | rfl <;> simp [child?, hchildren, hword, hlist]
    simp only [List.head?_cons, Option.bind_some, hfound, hwithout, Option.map_some,
      Option.getD_some, hlabels]
    exact .labels hm hchildren hword hk hlist

/-- The labels tell whether there is a modifier, and are there if they are to be dropped, exactly if
no modifier has an empty list. -/
lemma IsGroupedBy.tells_iff {grouping : List String} {without : Bool}
    (h : n.IsGroupedBy query grouping without) :
    ((grouping = [] ↔ n.modifiers = []) ∧ (without = true → grouping ≠ [])) ↔
      ¬ n.HasEmptyModifier := by
  cases h with
  | whole hm => simp [HasEmptyModifier, hm]
  | @labels m word list k hm hchildren hword hk hlist =>
    have hlists : m.childrenOf (.phrase .groupingLabels) = [list] := by
      simp [childrenOf, hchildren, hword, hlist]
    have hempty : n.HasEmptyModifier ↔ list.children = [] := by
      simp [HasEmptyModifier, hm, hlists]
    rw [hempty, hm, List.map_eq_nil_iff]
    constructor
    · rintro ⟨htells, -⟩ hnil
      cases htells.1 hnil
    · intro hne
      exact ⟨iff_of_false hne (List.cons_ne_nil m []), fun _ => mt List.map_eq_nil_iff.1 hne⟩

end Node

namespace Query

variable {limits : Limits} {query : List Char}

/-- Below the root, the nodes of an accepted query are as the reader leaves them. -/
lemma isRead_of_ofQuery {root s : Node} (h : Node.ofQuery? limits query = some root)
    (haccepted : ∀ n ∈ root.preorder, n.isError = false) (hs : s ∈ root.preorder)
    (hroot : s.kind ≠ .root) : ∀ k ∈ s.preorder, k.IsRead query := by
  obtain ⟨e, n, he, hn, hs⟩ := Node.exists_writes_of_mem_preorder h haccepted hs hroot
  exact fun k hk => isRead_of_writes he hn k (Node.mem_preorder_trans hs hk)

/-- An aggregation in an accepted query is grouped by the label names of its modifier.  The labels
tell whether there is a modifier, and are there if they are to be dropped, exactly if no modifier
has an empty list. -/
theorem grouping_of_aggregation {root s : Node} (h : Node.ofQuery? limits query = some root)
    (haccepted : ∀ n ∈ root.preorder, n.isError = false) (hs : s ∈ root.preorder)
    (hkind : s.kind = .phrase .aggregation) :
    (∃ digits, numeralLimit < digits ∧ (Expr.ofTree query s).result = .error (.reading digits)) ∨
      ∃ text operator grouping without children,
        (Expr.ofTree query s).result =
          .ok (.aggregation text operator grouping without children) ∧
        s.IsGroupedBy query grouping without ∧
        (((grouping = [] ↔ s.modifiers = []) ∧ (without = true → grouping ≠ [])) ↔
          ¬ s.HasEmptyModifier) := by
  cases hresult : (Expr.ofTree query s).result with
  | error cause =>
    obtain ⟨digits, hdigits, rfl⟩ := Expr.exists_digits_of_error hresult
    exact Or.inl ⟨digits, hdigits, rfl⟩
  | ok a =>
    -- In a tree that was read the modifier of an aggregation has its shape.
    have hread := isRead_of_ofQuery h haccepted hs (by simp [hkind])
    have hgrouped := Node.isGroupedBy_of_isRead hread hkind
    rw [Expr.ofTree_aggregation hkind] at hresult
    obtain ⟨operator, es, rfl, -⟩ := Expr.exists_ofAggregation hresult
    exact Or.inr ⟨_, operator, _, _, es, rfl, hgrouped, hgrouped.tells_iff⟩

/-- The aggregation in the tree of `-sum without()(x)`. -/
def emptyWithout : Node :=
  ⟨.phrase .aggregation, 1, 17, [⟨.leaf .aggregationOperator, 1, 4, []⟩,
    ⟨.phrase .modifier, 5, 14, [⟨.leaf (.keyword .without), 5, 12, []⟩,
      ⟨.phrase .groupingLabels, 12, 14, []⟩]⟩,
    ⟨.phrase .callBody, 14, 17, [⟨.phrase .vectorSelector, 15, 16,
      [⟨.leaf .metricName, 15, 16, []⟩]⟩]⟩]⟩

/-- The tree of `-sum without()(x)`. -/
def negatedWithout : Node :=
  ⟨.root, 0, 17, [⟨.phrase .unary, 0, 17, [⟨.leaf (.symbol .sub), 0, 1, []⟩, emptyWithout]⟩]⟩

/-- The text of `-sum without()(x)`. -/
def withoutNothing : List Char :=
  ['-', 's', 'u', 'm', ' ', 'w', 'i', 't', 'h', 'o', 'u', 't', '(', ')', '(', 'x', ')']

/-- In `-sum without()(x)`, labels are dropped although there are none, and a modifier is written
although there are no labels. -/
theorem grouping_emptyWithout :
    Node.ofQuery? .usual withoutNothing = some negatedWithout ∧
      (∀ n ∈ negatedWithout.preorder, n.isError = false) ∧ emptyWithout ∈ negatedWithout.preorder ∧
      emptyWithout.kind = .phrase .aggregation ∧
      (Expr.ofTree withoutNothing emptyWithout).result =
        .ok (.aggregation "sum without()(x)" "sum" [] true [.vector "x" "x" [] none]) ∧
      emptyWithout.IsGroupedBy withoutNothing [] true ∧ emptyWithout.HasEmptyModifier := by
  have hread : Node.ofQuery? .usual withoutNothing = some negatedWithout := rfl
  have haccepted : ∀ n ∈ negatedWithout.preorder, n.isError = false := by decide
  have hin : emptyWithout ∈ negatedWithout.preorder :=
    Node.mem_preorder_trans (Node.mem_preorder_of_mem_children List.mem_cons_self)
      (Node.mem_preorder_of_mem_children (List.mem_cons_of_mem _ List.mem_cons_self))
  have hresult : (Expr.ofTree withoutNothing emptyWithout).result =
      .ok (.aggregation "sum without()(x)" "sum" [] true [.vector "x" "x" [] none]) := rfl
  rcases grouping_of_aggregation hread haccepted hin rfl with
    ⟨digits, -, herror⟩ | ⟨text, operator, grouping, without, es, hok, hgrouped, htells⟩
  · cases hresult.symm.trans herror
  · cases hresult.symm.trans hok
    refine ⟨hread, haccepted, hin, rfl, hresult, hgrouped, ?_⟩
    by_contra hempty
    exact (htells.2 hempty).2 rfl rfl

end Query

end PromqlGuide
