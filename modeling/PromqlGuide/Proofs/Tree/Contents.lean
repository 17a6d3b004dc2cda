import PromqlGuide.Proofs.Expr.WellFormed

/-!
# What is inside a node

Whether a node, or one below it, is of some kind can be told from its children.  A selector with a
name has the name as a child, and below its label matchers there are only strings, label names and
operators; so what it names and which labels it matches is all that stands in it (`Node.names_iff`,
`Node.matches_iff`).
-/
namespace PromqlGuide.Node

open Text

variable {query : List Char} {n base : Node} {Q : Kind → Prop}

/-- Whether a node or one below it is of a kind with a property. -/
def Contains (Q : Kind → Prop) (n : Node) : Prop := ∃ k ∈ n.preorder, Q k.kind

instance [DecidablePred Q] : Decidable (n.Contains Q) :=
  inferInstanceAs (Decidable (∃ k ∈ n.preorder, Q k.kind))

/-- A node contains what it is itself and what one of its children contains. -/
lemma contains_iff : n.Contains Q ↔ Q n.kind ∨ ∃ c ∈ n.children, c.Contains Q := by
  constructor
  · rintro ⟨k, hk, hQ⟩
    rcases mem_preorder_iff.1 hk with rfl | ⟨c, hc, hk⟩
    · exact Or.inl hQ
    · exact Or.inr ⟨c, hc, k, hk, hQ⟩
  · rintro (hQ | ⟨c, hc, k, hk, hQ⟩)
    · exact ⟨n, n.mem_preorder_self, hQ⟩
    · exact ⟨k, mem_preorder_iff.2 (Or.inr ⟨c, hc, hk⟩), hQ⟩

/-- A leaf has no children. -/
lemma children_of_leaf {t : Terminal} (hread : n.IsRead query) (hkind : n.kind = .leaf t) :
    n.children = [] := by
  have hshape := hread.shape
  rwa [HasShape, hkind] at hshape

/-- A token contains itself only. -/
lemma contains_leaf_iff {t : Terminal} (hread : n.IsRead query) (hkind : n.kind = .leaf t) :
    n.Contains Q ↔ Q (.leaf t) := by
  rw [contains_iff, children_of_leaf hread hkind, hkind]
  simp

/-- A node with tokens behind a first child contains what this contains, if nothing else is looked
for. -/
lemma contains_first_iff {more : List Node} (hread : ∀ k ∈ n.preorder, k.IsRead query)
    (hchildren : n.children = base :: more) (hn : ¬ Q n.kind)
    (hmore : ∀ c ∈ more, (∃ t, c.kind = .leaf t) ∧ ¬ Q c.kind) : n.Contains Q ↔
      base.Contains Q := by
  have hnone : ∀ c ∈ more, ¬ c.Contains Q := by
    intro c hc
    obtain ⟨⟨t, ht⟩, hQ⟩ := hmore c hc
    have hin : c ∈ n.preorder := mem_preorder_of_mem_children (by simp [hchildren, hc])
    rwa [contains_leaf_iff (hread c hin) ht, ← ht]
  rw [contains_iff, or_iff_right hn, hchildren, List.exists_mem_cons_iff, or_iff_left]
  rintro ⟨c, hc, hcontains⟩
  exact hnone c hc hcontains

/-- Kinds that pass on to the children are those of all nodes below. -/
lemma kinds_of_closed {S : Kind → Prop} (hread : ∀ k ∈ n.preorder, k.IsRead query) (hn : S n.kind)
    (hclosed : ∀ k : Node, k.IsRead query → S k.kind → ∀ c ∈ k.children, S c.kind) :
    ∀ k ∈ n.preorder, S k.kind := by
  induction n using Node.inductionOn with
  | step n ih =>
    intro k hk
    rcases mem_preorder_iff.1 hk with rfl | ⟨c, hc, hk⟩
    · exact hn
    · have hbelow : ∀ k ∈ c.preorder, k.IsRead query := fun k hk =>
        hread k (mem_preorder_iff.2 (Or.inr ⟨c, hc, hk⟩))
      exact ih c hc hbelow (hclosed n (hread n n.mem_preorder_self) hn c hc) k hk

/-! ### Label matchers -/

/-- The kinds of the nodes inside a label matcher. -/
def matcherParts : List Kind :=
  [.phrase .quotedName, .leaf .labelName, .leaf .matchOperator, .leaf .string]

/-- The kinds of the nodes inside the braces of a selector. -/
def blockParts : List Kind :=
  .phrase .labelMatchers :: .phrase .unquotedMatcher :: .phrase .quotedMatcher :: matcherParts

/-- The children are of the kinds in the list of their kinds. -/
lemma kinds_of_children {kinds : List Kind} (h : n.children.map Node.kind = kinds) :
    ∀ c ∈ n.children, c.kind ∈ kinds := fun _ hc => h ▸ List.mem_map_of_mem hc

/-- Nothing but parts of a label matcher is inside of one. -/
lemma matcherParts_closed (hread : n.IsRead query) (hn : n.kind ∈ matcherParts) :
    ∀ c ∈ n.children, c.kind ∈ matcherParts := by
  have hleaf : ∀ t, n.kind = .leaf t → ∀ c ∈ n.children, c.kind ∈ matcherParts := by
    intro t ht
    simp [children_of_leaf hread ht]
  simp only [matcherParts, List.mem_cons, List.not_mem_nil, or_false] at hn
  rcases hn with hkind | hkind | hkind | hkind
  · have hkinds : n.children.map Node.kind = _ := hread.areParts hkind
    exact fun c hc => List.mem_singleton.1 (kinds_of_children hkinds c hc) ▸ by decide
  · exact hleaf _ hkind
  · exact hleaf _ hkind
  · exact hleaf _ hkind

/-- Nothing but parts of a list of label matchers is inside of its braces. -/
lemma blockParts_closed (hread : n.IsRead query) (hn : n.kind ∈ blockParts) :
    ∀ c ∈ n.children, c.kind ∈ blockParts := by
  simp only [blockParts, List.mem_cons] at hn
  rcases hn with hkind | hkind | hkind | hn
  · intro c hc
    have hkinds := hread.areParts hkind c hc
    simp only [List.mem_cons, List.not_mem_nil, or_false] at hkinds
    rcases hkinds with heq | heq | heq <;> rw [heq] <;> decide
  · have hkinds : n.children.map Node.kind = _ := hread.areParts hkind
    have hsub : ∀ k ∈ [Kind.leaf .labelName, .leaf .matchOperator, .leaf .string], k ∈
      blockParts := by
      decide
    exact fun c hc => hsub _ (kinds_of_children hkinds c hc)
  · have hkinds : n.children.map Node.kind = _ := hread.areParts hkind
    have hsub : ∀ k ∈ [Kind.phrase .quotedName, .leaf .matchOperator, .leaf .string],
        k ∈ blockParts := by
      decide
    exact fun c hc => hsub _ (kinds_of_children hkinds c hc)
  · have hsub : ∀ k ∈ matcherParts, k ∈ blockParts := by decide
    exact fun c hc => hsub _ (matcherParts_closed hread hn c hc)

/-- The braces of a selector name no metric. -/
lemma not_names_block (hread : ∀ k ∈ n.preorder, k.IsRead query)
    (hkind : n.kind = .phrase .labelMatchers) : ¬ n.Contains (· = .leaf .metricName) := by
  rintro ⟨k, hk, hname⟩
  have hin := kinds_of_closed (S := (· ∈ blockParts)) hread (by rw [hkind]; decide)
    (fun _ => blockParts_closed) k hk
  rw [hname] at hin
  exact absurd hin (by decide)

/-- What matches a label in the braces of a selector stands directly in them. -/
lemma matches_block_iff (hread : ∀ k ∈ n.preorder, k.IsRead query)
    (hkind : n.kind = .phrase .labelMatchers) :
    n.Contains (fun k => k.isMatcher = true) ↔ ∃ c ∈ n.children, c.kind.isMatcher = true := by
  rw [contains_iff, hkind, or_iff_right (by decide)]
  constructor
  · rintro ⟨c, hc, hcontains⟩
    refine ⟨c, hc, ?_⟩
    have hbelow : ∀ k ∈ c.preorder, k.IsRead query := fun k hk =>
      hread k (mem_preorder_iff.2 (Or.inr ⟨c, hc, hk⟩))
    have hkinds := (hread n n.mem_preorder_self).areParts hkind c hc
    simp only [List.mem_cons, List.not_mem_nil, or_false] at hkinds
    rcases hkinds with heq | heq | heq
    · rw [heq]; rfl
    · rw [heq]; rfl
    · -- below a quoted name that stands alone there is no matcher
      obtain ⟨k, hk, hmatcher⟩ := hcontains
      have hnone : ∀ k ∈ matcherParts, k.isMatcher = false := by decide
      have hin := kinds_of_closed (S := (· ∈ matcherParts)) hbelow (by rw [heq]; decide)
        (fun _ => matcherParts_closed) k hk
      rw [hnone _ hin] at hmatcher
      cases hmatcher
  · rintro ⟨c, hc, hmatcher⟩
    exact ⟨c, hc, c, c.mem_preorder_self, hmatcher⟩

/-! ### Selectors -/

/-- A selector is a name, braces, or a name and braces. -/
lemma selector_cases (hread : n.IsRead query) (hkind : n.kind = .phrase .vectorSelector) :
    (∃ name, n.children = [name] ∧ name.kind = .leaf .metricName) ∨
      (∃ name block, n.children = [name, block] ∧ name.kind = .leaf .metricName ∧
        block.kind = .phrase .labelMatchers) ∨
      ∃ block, n.children = [block] ∧ block.kind = .phrase .labelMatchers := by
  have hparts : n.children.map Node.kind ∈ _ := hread.areParts hkind
  simp only [List.mem_cons, List.not_mem_nil, or_false] at hparts
  rcases hparts with heq | heq | heq
  · obtain ⟨name, hchildren, hname⟩ := List.map_eq_singleton_iff.1 heq
    exact Or.inl ⟨name, hchildren, hname⟩
  · obtain ⟨name, rest, hchildren, hname, hrest⟩ := List.map_eq_cons_iff.1 heq
    obtain ⟨block, rfl, hblock⟩ := List.map_eq_singleton_iff.1 hrest
    exact Or.inr (Or.inl ⟨name, block, hchildren, hname, hblock⟩)
  · obtain ⟨block, hchildren, hblock⟩ := List.map_eq_singleton_iff.1 heq
    exact Or.inr (Or.inr ⟨block, hchildren, hblock⟩)

/-- The name of a selector is spelled as one, if there is one. -/
lemma selectorName_cases (hread : ∀ k ∈ n.preorder, k.IsRead query)
    (hkind : n.kind = .phrase .vectorSelector) :
    (∃ name ∈ n.children, name.kind = .leaf .metricName ∧
        Terminal.metricName.spells (name.text query) = true ∧
        Expr.selectorName query n = String.ofList (name.text query)) ∨
      ∃ block, n.children = [block] ∧ block.kind = .phrase .labelMatchers ∧
        Expr.selectorName query n = "" := by
  have hnamed : ∀ name more, n.children = name :: more → name.kind = .leaf .metricName →
      ∃ name ∈ n.children, name.kind = .leaf .metricName ∧
        Terminal.metricName.spells (name.text query) = true ∧
        Expr.selectorName query n = String.ofList (name.text query) := by
    intro name more hchildren hname
    have hmem : name ∈ n.children := by simp [hchildren]
    have hfound : n.child? [.leaf .metricName, .metricIdentifier] = some name := by
      simp [child?, hchildren, hname]
    refine ⟨name, hmem, hname, (hread name (mem_preorder_of_mem_children hmem)).spelled _ hname, ?_⟩
    rw [Expr.selectorName, hfound]
    rfl
  rcases selector_cases (hread n n.mem_preorder_self) hkind with
    ⟨name, hchildren, hname⟩ | ⟨name, block, hchildren, hname, -⟩ | ⟨block, hchildren, hblock⟩
  · exact Or.inl (hnamed name [] hchildren hname)
  · exact Or.inl (hnamed name [block] hchildren hname)
  · have hnone : n.child? [.leaf .metricName, .metricIdentifier] = none := by
      simp [child?, hchildren, hblock]
    exact Or.inr ⟨block, hchildren, hblock, by rw [Expr.selectorName, hnone]; rfl⟩

/-- A selector is without a name exactly if it names no metric. -/
theorem names_iff (hread : ∀ k ∈ n.preorder, k.IsRead query)
    (hkind : n.kind = .phrase .vectorSelector) :
    Expr.selectorName query n = "" ↔ ¬ n.Contains (· = .leaf .metricName) := by
  rcases selectorName_cases hread hkind with
    ⟨name, hmem, hname, hspells, heq⟩ | ⟨block, hchildren, hblock, heq⟩
  · refine iff_of_false ?_ fun hnone => hnone ⟨name, mem_preorder_of_mem_children hmem, hname⟩
    rw [heq]
    exact fun hempty => Terminal.ne_nil_of_spells hspells (by simpa using hempty)
  · refine iff_of_true heq ?_
    have hbelow : ∀ k ∈ block.preorder, k.IsRead query := fun k hk =>
      hread k (mem_preorder_iff.2 (Or.inr ⟨block, by simp [hchildren], hk⟩))
    rw [contains_iff, hkind, hchildren]
    simp [not_names_block hbelow hblock]

/-- Of the label matchers of a block all are kept. -/
lemma matchers_block_eq_nil_iff (hread : ∀ k ∈ n.preorder, k.IsRead query)
    (hkind : n.kind = .phrase .labelMatchers) {ms : List Matcher}
    (h : (n.matchers query).result = .ok ms) :
    ms = [] ↔ ¬ n.Contains (fun k => k.isMatcher = true) := by
  cases h
  rw [matches_block_iff hread hkind, List.filterMap_eq_nil_iff]
  simp only [List.mem_filter, and_imp, not_exists, not_and]
  refine forall₂_congr fun c hc => ?_
  have hcread := hread c (mem_preorder_of_mem_children hc)
  have hkinds := (hread n n.mem_preorder_self).areParts hkind c hc
  simp only [List.mem_cons, List.not_mem_nil, or_false] at hkinds
  have hsome : c.kind.isMatcher = true → (c.matcher? query).isSome = true := by
    intro hmatcher
    rcases hkinds with heq | heq | heq
    · exact Expr.isSome_matcher hcread (Or.inl heq)
    · exact Expr.isSome_matcher hcread (Or.inr heq)
    · rw [heq] at hmatcher
      cases hmatcher
  constructor
  · intro hnone hmatcher
    have := hsome hmatcher
    rw [hnone hmatcher] at this
    cases this
  · exact fun hnot hmatcher => absurd hmatcher hnot

/-- A selector is without label matchers exactly if it matches no label. -/
theorem matches_iff (hread : ∀ k ∈ n.preorder, k.IsRead query)
    (hkind : n.kind = .phrase .vectorSelector) {ms : List Matcher}
    (h : (Expr.selectorMatchers query n).result = .ok ms) :
    ms = [] ↔ ¬ n.Contains (fun k => k.isMatcher = true) := by
  have hchild : ∀ c ∈ n.children, ∀ k ∈ c.preorder, k.IsRead query := fun c hc k hk =>
    hread k (mem_preorder_iff.2 (Or.inr ⟨c, hc, hk⟩))
  have hleaf : ∀ name ∈ n.children, name.kind = .leaf .metricName →
      ¬ name.Contains (fun k => k.isMatcher = true) := by
    intro name hmem hname
    rw [contains_leaf_iff (hchild name hmem name name.mem_preorder_self) hname]
    decide
  have hblock : ∀ block ∈ n.children, block.kind = .phrase .labelMatchers →
      n.child? [.phrase .labelMatchers] = some block →
      (∀ c ∈ n.children, c = block ∨ c.kind = .leaf .metricName) →
      (ms = [] ↔ ¬ n.Contains (fun k => k.isMatcher = true)) := by
    intro block hmem hblock hfound hall
    rw [Expr.selectorMatchers, hfound] at h
    rw [matchers_block_eq_nil_iff (hchild block hmem) hblock h, not_iff_not,
      contains_iff (n := n), hkind, or_iff_right (by decide)]
    constructor
    · exact fun hcontains => ⟨block, hmem, hcontains⟩
    · rintro ⟨c, hc, hcontains⟩
      rcases hall c hc with rfl | hname
      · exact hcontains
      · exact absurd hcontains (hleaf c hc hname)
  -- A name alone has no block; in the other two shapes the block decides.
  rcases selector_cases (hread n n.mem_preorder_self) hkind with
    ⟨name, hchildren, hname⟩ | ⟨name, block, hchildren, hname, hkindBlock⟩ |
      ⟨block, hchildren, hkindBlock⟩
  · have hnone : n.child? [.phrase .labelMatchers] = none := by
      simp [child?, hchildren, hname]
    rw [Expr.selectorMatchers, hnone] at h
    obtain rfl := Noted.result_pure h
    refine iff_of_true rfl ?_
    rw [contains_iff, hkind, hchildren]
    simpa [Kind.isMatcher] using hleaf name (by simp [hchildren]) hname
  · exact hblock block (by simp [hchildren]) hkindBlock
      (by simp [child?, hchildren, hname, hkindBlock])
      (by simp [hchildren, hname])
  · exact hblock block (by simp [hchildren]) hkindBlock (by simp [child?, hchildren, hkindBlock])
      (by simp [hchildren])

end PromqlGuide.Node
