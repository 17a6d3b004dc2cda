import PromqlGuide.Expr.Explain
import PromqlGuide.Proofs.Expr.Ranges
import PromqlGuide.Proofs.Query.WellFormed

/-!
# Metrics of range selectors

A range selector has the name and the matchers of the selector that its bracket stands directly
behind.  Behind other expressions, as in `(up)[5m]`, it has neither, and is explained as taking any
metric although one may be named there.

Main statement: what a range selector in a query names and matches, and when it leaves out a name or
a matcher (`Query.selected_of_parse`).
-/
namespace PromqlGuide.Query

open Text

variable {limits : Limits} {query : List Char} {a : Expr}

/-- Whether a range selector is without a name or without matchers only if none are in a node. -/
structure Shows (top : Node) (name : String) (matchers : List Matcher) : Prop where
  name : name = "" → ¬ top.Contains (· = .leaf .metricName)
  matchers : matchers = [] → ¬ top.Contains (fun k => k.isMatcher = true)

/-- A selector shows what is in it. -/
lemma shows_of_takes {base : Node} {name : String} {matchers : List Matcher}
    (hread : ∀ k ∈ base.preorder, k.IsRead query) (h : Expr.Takes query base name matchers) :
    Shows base name matchers ↔ base.kind = .phrase .vectorSelector ∨
      ¬ base.Contains (· = .leaf .metricName) ∧ ¬ base.Contains (fun k => k.isMatcher = true) := by
  cases h with
  | selector hkind hname hmatchers =>
    refine iff_of_true ⟨fun hempty => ?_, (Node.matches_iff hread hkind hmatchers).1⟩ (Or.inl hkind)
    exact (Node.names_iff hread hkind).1 (hname ▸ hempty)
  | nothing hkind hname hmatchers =>
    rw [or_iff_right hkind]
    exact ⟨fun hshows => ⟨hshows.name hname, hshows.matchers hmatchers⟩,
      fun hnone => ⟨fun _ => hnone.1, fun _ => hnone.2⟩⟩

/-- Only what is without a name is explained as taking any metric. -/
lemma metricWords_eq_any_iff {base : Node} {name : String} {matchers : List Matcher}
    (hread : ∀ k ∈ base.preorder, k.IsRead query) (h : Expr.Takes query base name matchers) :
    Expr.metricWords name = "(any)" ↔ name = "" := by
  constructor
  · intro hany
    by_contra hempty
    have hname : name = "(any)" := by
      rwa [Expr.metricWords, String.isEmpty_eq_false_iff.2 hempty,
        if_neg Bool.false_ne_true] at hany
    cases h with
    | selector hkind hselector _ =>
      rcases Node.selectorName_cases hread hkind with ⟨word, -, -, hspells, heq⟩ | ⟨-, -, -, heq⟩
      · -- No metric has the name `(any)`.
        have hword : word.text query = ['(', 'a', 'n', 'y', ')'] :=
          String.ofList_injective (heq.symm.trans (hselector.symm.trans hname))
        rw [hword] at hspells
        exact absurd hspells (by decide)
      · exact hempty (hselector.trans heq)
    | nothing _ hnothing _ => exact hempty hnothing
  · rintro rfl
    rfl

/-- A range selector has the text of a node that is a range under modifiers or not, and takes its
name and its matchers from what this is a range over.  If this is no selector it has neither, so it
leaves out what is named or matched there; it leaves out nothing exactly if this is a selector, or
contains neither names nor matchers.  It is explained as taking any metric exactly if it has no
name. -/
theorem selected_of_parse {place : Nat} {text name : String} {matchers : List Matcher} {range : Int}
    {offset : Option Int} (h : (parseChars limits query).outcome = .ok a)
    (hm : (place, .matrix text name matchers range offset) ∈ a.preorder 0) :
    ∃ root top base : Node, Node.ofQuery? limits query = some ⟨.root, 0, query.length, [root]⟩ ∧
      top ∈ root.preorder ∧ text = Expr.textOf query top ∧ base.IsRangeUnder query top ∧
      Expr.Takes query base name matchers ∧
      (Shows top name matchers ↔ base.kind = .phrase .vectorSelector ∨
        ¬ base.Contains (· = .leaf .metricName) ∧ ¬ base.Contains (fun k => k.isMatcher = true)) ∧
      (Expr.metricWords name = "(any)" ↔ name = "") := by
  obtain ⟨e, root, hmeans⟩ := outcome_eq_ok_iff.1 h
  have hroot := isRead_of_writes hmeans.writes hmeans.item
  obtain ⟨top, htop, hexpr, hresult, htext⟩ :=
    Expr.exists_source (isExpression_of_writes hmeans.writes hmeans.item)
      (ne_wrapper_of_writes hmeans.writes hmeans.item) hmeans.result hm
  have hread : ∀ k ∈ top.preorder, k.IsRead query := fun k hk =>
    hroot k (Node.mem_preorder_trans htop hk)
  obtain ⟨base, hunder, htakes⟩ := Expr.exists_isRangeUnder hread hexpr hresult
  have hbase : ∀ k ∈ base.preorder, k.IsRead query := fun k hk =>
    hread k (Node.mem_preorder_trans hunder.mem_preorder hk)
  refine ⟨root, top, base, (parse_of_writes hmeans.writes hmeans.item).1, htop, htext, hunder,
    htakes, ?_, metricWords_eq_any_iff hbase htakes⟩
  -- What stands between `top` and `base` adds no name and no matcher.
  have hname := hunder.contains_iff hread (Q := (· = .leaf .metricName)) (by decide)
  have hmatcher := hunder.contains_iff hread (Q := fun k => k.isMatcher = true) (by decide)
  have hshows : Shows top name matchers ↔ Shows base name matchers := by
    constructor
    · exact fun hshows =>
        ⟨fun he => hname.not.1 (hshows.name he), fun he => hmatcher.not.1 (hshows.matchers he)⟩
    · exact fun hshows =>
        ⟨fun he => hname.not.2 (hshows.name he), fun he => hmatcher.not.2 (hshows.matchers he)⟩
  exact hshows.trans (shows_of_takes hbase htakes)

/-- The text of `(up)[5ms] offset 1ms`. -/
def groupedRange : List Char :=
  ['(', 'u', 'p', ')', '[', '5', 'm', 's', ']', ' ', 'o', 'f', 'f', 's', 'e', 't', ' ', '1', 'm',
    's']

/-- The tree of `(up)[5ms] offset 1ms`. -/
def groupedRangeTree : Node :=
  ⟨.phrase .offset, 0, 20, [⟨.phrase .matrixSelector, 0, 9, [⟨.phrase .paren, 0, 4,
    [⟨.phrase .vectorSelector, 1, 3, [⟨.leaf .metricName, 1, 3, []⟩]⟩]⟩,
    ⟨.leaf .duration, 5, 8, []⟩]⟩, ⟨.leaf (.keyword .offset), 10, 16, []⟩,
      ⟨.leaf .duration, 17, 20, []⟩]⟩

/-- The range selector of `(up)[5ms] offset 1ms`. -/
def groupedRangeSelector : Expr := .matrix "(up)[5ms] offset 1ms" "" [] 5 (some 1)

/-- In `(up)[5ms] offset 1ms` the range is not over a selector, and the metric that is named is left
out. -/
theorem selected_groupedRange :
    (parseChars .usual groupedRange).outcome = .ok groupedRangeSelector ∧
      (0, groupedRangeSelector) ∈ groupedRangeSelector.preorder 0 ∧
      ∃ top ∈ groupedRangeTree.preorder, "(up)[5ms] offset 1ms" = Expr.textOf groupedRange top ∧
        ¬ Shows top "" [] ∧ Expr.metricWords "" = "(any)" ∧
        ∃ base : Node, base.IsRangeUnder groupedRange top ∧
          base.kind ≠ .phrase .vectorSelector := by
  have h : (parseChars .usual groupedRange).outcome = .ok groupedRangeSelector := rfl
  have hm : (0, groupedRangeSelector) ∈ groupedRangeSelector.preorder 0 := by
    rw [Expr.preorder_eq]
    exact List.mem_cons_self
  obtain ⟨root, top, base, hroot, htop, htext, hunder, -, hshows, hany⟩ := selected_of_parse h hm
  have htree : Node.ofQuery? .usual groupedRange = some ⟨.root, 0, 20, [groupedRangeTree]⟩ := rfl
  have hchildren := congrArg Node.children (Option.some.inj (hroot.symm.trans htree))
  obtain rfl : root = groupedRangeTree := (List.cons.inj hchildren).1
  -- Only one node has the text of the selector.
  have hnames : ∀ t ∈ groupedRangeTree.preorder, "(up)[5ms] offset 1ms" =
    Expr.textOf groupedRange t →
      t.Contains (· = .leaf .metricName) := by
    decide +kernel
  have hleft : ¬ Shows top "" [] := fun hshown => hshown.name rfl (hnames top htop htext)
  exact ⟨h, hm, top, htop, htext, hleft, hany.2 rfl, base, hunder,
    fun hkind => hleft (hshows.2 (Or.inl hkind))⟩

end PromqlGuide.Query
