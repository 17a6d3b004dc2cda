import PromqlGuide.Proofs.Expr.Makers
import PromqlGuide.Proofs.Expr.Postfixes
import PromqlGuide.Proofs.Tree.Contents

/-!
# Ranges under modifiers

A range may be written behind any expression, but only of a selector directly before its bracket are
the name and the matchers taken (`Expr.Takes`).  Whatever else stands there, parentheses or a
modifier say, is passed over with all that it contains.

Main statement: every range selector is made by a range that is under modifiers or not
(`Expr.exists_isRangeUnder`), and contains what this is a range over
(`Node.IsRangeUnder.contains_iff`).
-/
namespace PromqlGuide

variable {query : List Char} {a : Expr}

namespace Node

variable {base core ranged s top : Node} {Q : Kind → Prop} {minus : Bool} {ps : List DurationPart}

/-- Whether a node is a range over another one. -/
structure IsRange (base ranged : Node) : Prop where
  kind : ranged.kind = .phrase .matrixSelector
  operand : base.kind.isExpression = true
  parts : ∃ d, ranged.children = [base, d] ∧ d.kind = .leaf .duration

/-- Whether a node is a range over another one, under modifiers or not. -/
def IsRangeUnder (query : List Char) (base top : Node) : Prop :=
  ∃ ranged ps, base.IsRange ranged ∧ ranged.Carries query top ps

/-- The duration of a range is found. -/
lemma IsRange.exists_duration (h : base.IsRange ranged) :
    ∃ d, ranged.children = [base, d] ∧ d.kind = .leaf .duration ∧
      ranged.child? [.leaf .duration, .durationOperand] = some d := by
  obtain ⟨d, hchildren, hd⟩ := h.parts
  have hneither : base.kind ≠ .leaf .duration ∧ base.kind ≠ .durationOperand := by
    have hexpr := h.operand
    constructor
    all_goals
      intro heq
      rw [heq] at hexpr
      cases hexpr
  exact ⟨d, hchildren, hd, by simp [child?, hchildren, hd, hneither]⟩

/-- A node that is read as a range is one over another node. -/
lemma exists_isRange (hread : ranged.IsRead query) (hkind : ranged.kind = .phrase .matrixSelector) :
    ∃ base : Node, base.IsRange ranged := by
  obtain ⟨base, more, hchildren, hbase, -, hmore⟩ := hread.areParts hkind
  obtain ⟨d, rfl, hd⟩ := List.map_eq_singleton_iff.1 (List.mem_singleton.1 hmore)
  exact ⟨base, hkind, hbase, d, hchildren, hd⟩

/-- The reader makes no wrappers. -/
lemma ne_wrapper_of_isRead (h : s.IsRead query) : s.kind ≠ .wrapper := by
  intro hkind
  have hshape := h.shape
  rw [HasShape, hkind] at hshape
  exact hshape

/-! ### What is under modifiers -/

/-- The kinds of ranges, of modifiers, and of what is written behind an operand for them. -/
def postfixKinds : List Kind :=
  [.phrase .matrixSelector, .phrase .offset, .phrase .pinned, .leaf (.keyword .offset),
    .leaf (.symbol .sub), .leaf .duration, .leaf (.symbol .atSign), .leaf .timestamp,
    .leaf .startOrEnd]

/-- A range contains nothing but what it is over, its duration apart. -/
lemma IsRange.contains_iff (h : base.IsRange ranged) (hread : ∀ k ∈ ranged.preorder, k.IsRead query)
    (hQ : ∀ k ∈ postfixKinds, ¬ Q k) : ranged.Contains Q ↔ base.Contains Q := by
  obtain ⟨hkind, -, d, hchildren, hd⟩ := h
  refine contains_first_iff hread hchildren (hkind ▸ hQ _ (by decide)) ?_
  intro c hc
  obtain rfl := List.mem_singleton.1 hc
  exact ⟨⟨_, hd⟩, hd ▸ hQ _ (by decide)⟩

/-- A node that is pinned to a time contains nothing but the node that is pinned, the time apart. -/
lemma IsPin.contains_iff (h : base.IsPin s) (hread : ∀ k ∈ s.preorder, k.IsRead query)
    (hQ : ∀ k ∈ postfixKinds, ¬ Q k) : s.Contains Q ↔ base.Contains Q := by
  obtain ⟨hkind, -, mark, time, hchildren, hmark, htime⟩ := h
  refine contains_first_iff hread hchildren (hkind ▸ hQ _ (by decide)) ?_
  rw [List.forall_mem_cons, List.forall_mem_singleton]
  refine ⟨⟨⟨_, hmark⟩, hmark ▸ hQ _ (by decide)⟩, ?_⟩
  simp only [List.mem_cons, List.not_mem_nil, or_false] at htime
  rcases htime with htime | htime
  · exact ⟨⟨_, htime⟩, htime ▸ hQ _ (by decide)⟩
  · exact ⟨⟨_, htime⟩, htime ▸ hQ _ (by decide)⟩

/-- A node that is shifted contains nothing but the node that it shifts, the duration apart. -/
lemma IsShift.contains_iff (h : base.IsShift query s minus ps)
    (hread : ∀ k ∈ s.preorder, k.IsRead query) (hQ : ∀ k ∈ postfixKinds, ¬ Q k) :
    s.Contains Q ↔ base.Contains Q := by
  obtain ⟨hkind, -, word, sign, d, hchildren, hword, hsign, hd, -⟩ := h
  rw [List.cons_append] at hchildren
  refine contains_first_iff hread hchildren (hkind ▸ hQ _ (by decide)) ?_
  have hleaf : ∀ c ∈ sign, c.kind = .leaf (.symbol .sub) := by
    intro c hc
    have hmem := List.mem_map_of_mem (f := Node.kind) hc
    rw [hsign] at hmem
    cases minus with
    | false => cases hmem
    | true => exact List.mem_singleton.1 hmem
  intro c hc
  rw [List.cons_append, List.mem_cons, List.mem_append, List.mem_singleton] at hc
  rcases hc with rfl | hc | rfl
  · exact ⟨⟨_, hword⟩, hword ▸ hQ _ (by decide)⟩
  · exact ⟨⟨_, hleaf c hc⟩, hleaf c hc ▸ hQ _ (by decide)⟩
  · exact ⟨⟨_, hd⟩, hd ▸ hQ _ (by decide)⟩

/-- What is pinned to a time is a child. -/
lemma IsPin.mem_children (h : base.IsPin s) : base ∈ s.children := by
  obtain ⟨mark, time, hchildren, -⟩ := h.parts
  simp [hchildren]

/-- What is shifted in time is a child. -/
lemma IsShift.mem_children (h : base.IsShift query s minus ps) : base ∈ s.children := by
  obtain ⟨word, sign, d, hchildren, -⟩ := h.parts
  simp [hchildren]

/-- Modifiers contain what they apply to. -/
lemma Carries.mem_preorder (h : core.Carries query s ps) : core ∈ s.preorder := by
  induction h with
  | refl => exact core.mem_preorder_self
  | pin _ hpin ih => exact mem_preorder_iff.2 (Or.inr ⟨_, hpin.mem_children, ih⟩)
  | shift _ hshift ih => exact mem_preorder_iff.2 (Or.inr ⟨_, hshift.mem_children, ih⟩)

/-- Modifiers name nothing and match nothing. -/
lemma Carries.contains_iff (h : core.Carries query s ps) (hread : ∀ k ∈ s.preorder, k.IsRead query)
    (hQ : ∀ k ∈ postfixKinds, ¬ Q k) : s.Contains Q ↔ core.Contains Q := by
  induction h with
  | refl => exact Iff.rfl
  | pin _ hpin ih =>
    have hbelow := fun k hk =>
      hread k (mem_preorder_trans (mem_preorder_of_mem_children hpin.mem_children) hk)
    exact (hpin.contains_iff hread hQ).trans (ih hbelow)
  | shift _ hshift ih =>
    have hbelow := fun k hk =>
      hread k (mem_preorder_trans (mem_preorder_of_mem_children hshift.mem_children) hk)
    exact (hshift.contains_iff hread hQ).trans (ih hbelow)

/-- What a range is over is a child. -/
lemma IsRange.mem_children (h : base.IsRange ranged) : base ∈ ranged.children := by
  obtain ⟨d, hchildren, -⟩ := h.parts
  simp [hchildren]

/-- What a range is over stands below it. -/
lemma IsRangeUnder.mem_preorder (h : base.IsRangeUnder query top) : base ∈ top.preorder := by
  obtain ⟨ranged, ps, hrange, hcarries⟩ := h
  exact mem_preorder_trans hcarries.mem_preorder (mem_preorder_of_mem_children hrange.mem_children)

/-- A range contains nothing but what it is over, and its own parts. -/
theorem IsRangeUnder.contains_iff (h : base.IsRangeUnder query top)
    (hread : ∀ k ∈ top.preorder, k.IsRead query) (hQ : ∀ k ∈ postfixKinds, ¬ Q k) :
    top.Contains Q ↔ base.Contains Q := by
  obtain ⟨ranged, ps, hrange, hcarries⟩ := h
  have hbelow := fun k hk => hread k (mem_preorder_trans hcarries.mem_preorder hk)
  exact (hcarries.contains_iff hread hQ).trans (hrange.contains_iff hbelow hQ)

end Node

/-! ### Range selectors -/

namespace Expr

variable {base ranged s top n : Node} {minus : Bool} {ps : List DurationPart}
  {text name : String} {matchers : List Matcher} {range : Int} {offset : Option Int}

/-- What a range takes from what it is over: the name and the matchers of a selector, and nothing
from other expressions. -/
inductive Takes (query : List Char) (base : Node) (name : String) (matchers : List Matcher) :
    Prop where
  | selector : base.kind = .phrase .vectorSelector → name = selectorName query base →
      (selectorMatchers query base).result = .ok matchers → Takes query base name matchers
  | nothing : base.kind ≠ .phrase .vectorSelector → name = "" → matchers = [] →
      Takes query base name matchers

/-- A range takes its name and matchers from what it is over. -/
lemma takes_of_isRange (h : base.IsRange ranged)
    (hresult : (ofTree query ranged).result = .ok (.matrix text name matchers range offset)) :
    Takes query base name matchers := by
  obtain ⟨d, hchildren, hd, hduration⟩ := h.exists_duration
  rw [ofTree_eq_ofBranches, ofBranches, h.kind] at hresult
  dsimp only at hresult
  rw [ofMatrix, hduration] at hresult
  obtain ⟨ms, -, hresult⟩ := Noted.result_bind hresult
  by_cases hbase : base.kind = .phrase .vectorSelector
  · have hfound : ranged.child? [.phrase .vectorSelector] = some base := by
      simp [Node.child?, hchildren, hbase]
    rw [hfound] at hresult
    obtain ⟨taken, htaken, hresult⟩ := Noted.result_bind hresult
    cases Noted.result_pure hresult
    exact .selector hbase rfl htaken
  · have hnone : ranged.child? [.phrase .vectorSelector] = none := by
      simp [Node.child?, hchildren, hbase, hd]
    rw [hnone, branch_treeBranch, hchildren] at hresult
    by_cases hcall : base.kind = .phrase .call
    · -- A call is handed on, and is no selector.
      simp only [hcall, List.mem_singleton, decide_true, List.find?_cons_of_pos,
        Option.map_some] at hresult
      have hphrase : (ofTree query base).result = .ok (.matrix text name matchers range offset) :=
        hresult
      rw [ofTree_eq_ofBranches, ofBranches, hcall] at hphrase
      cases phrase_ofCall hphrase
    · have hfind : [base, d].find? (fun c => decide (c.kind ∈ [Kind.phrase .call])) = none := by
        simp [hcall, hd]
      rw [hfind] at hresult
      cases Noted.result_pure hresult
      exact .nothing hbase rfl rfl

/-- What is shifted in time stands for the same expression, or for a selector with another text and
another shift. -/
lemma exists_result_of_isShift (h : base.IsShift query s minus ps)
    (hresult : (ofTree query s).result = .ok a) :
    ∃ b, (ofTree query base).result = .ok b ∧
      (a = b ∨ ∃ offset, IsShifted (textOf query s) offset b a) := by
  obtain ⟨d, hd, -, -, hfirst⟩ := h.exists_duration
  rw [ofTree_eq_ofBranches, ofBranches, h.kind] at hresult
  dsimp only at hresult
  rw [ofOffset, toPart_treeBranch, firstOperand_partOf, hfirst] at hresult
  obtain ⟨b, hb, hresult⟩ := Noted.result_bind hresult
  refine ⟨b, hb, ?_⟩
  split at hresult
  · obtain ⟨ms, -, hresult⟩ := Noted.result_bind hresult
    obtain rfl := Noted.result_pure hresult
    cases hshifted : shifted? (textOf query s) _ b with
    | none => exact Or.inl rfl
    | some c => exact Or.inr ⟨_, isShifted_iff.2 hshifted⟩
  · exact Or.inl (Noted.result_pure hresult)

/-- Only ranges and what is under modifiers stand for range selectors. -/
lemma kind_of_matrix (hn : n.kind.isExpression = true) (hwrapper : n.kind ≠ .wrapper)
    (hresult : (ofTree query n).result = .ok (.matrix text name matchers range offset)) :
    n.kind ∈ handingOn := by
  rw [ofTree_eq_ofBranches] at hresult
  rcases isMade_ofBranches hn hwrapper hresult with hmade | ⟨hkind, -⟩
  · cases hmade with
    | compound _ hphrase => cases hphrase
    | matrix hkind => rw [hkind]; decide
    | shifted hkind _ => rw [hkind]; decide
  · exact hkind

/-- A range selector is made by a range, under modifiers or not, and takes its name and its matchers
from what this is a range over. -/
theorem exists_isRangeUnder (hread : ∀ k ∈ top.preorder, k.IsRead query)
    (hexpr : top.kind.isExpression = true)
    (hresult : (ofTree query top).result = .ok (.matrix text name matchers range offset)) :
    ∃ base : Node, base.IsRangeUnder query top ∧ Takes query base name matchers := by
  induction top using Node.inductionOn generalizing text offset with
  | step top ih =>
    have htop := hread top top.mem_preorder_self
    have hbelow : ∀ c ∈ top.children, ∀ k ∈ c.preorder, k.IsRead query := fun c hc k hk =>
      hread k (Node.mem_preorder_iff.2 (Or.inr ⟨c, hc, hk⟩))
    have hkinds := kind_of_matrix hexpr (Node.ne_wrapper_of_isRead htop) hresult
    simp only [handingOn, List.mem_cons, List.not_mem_nil, or_false] at hkinds
    rcases hkinds with hkind | hkind | hkind
    · obtain ⟨base, hrange⟩ := Node.exists_isRange htop hkind
      exact ⟨base, ⟨top, [], hrange, .refl⟩, takes_of_isRange hrange hresult⟩
    · obtain ⟨inner, minus, ps, hshift⟩ := Node.exists_isShift hread hkind
      obtain ⟨b, hb, hsame⟩ := exists_result_of_isShift hshift hresult
      have hmatrix : ∃ text offset, b = .matrix text name matchers range offset := by
        rcases hsame with rfl | ⟨offset, hshifted⟩
        · exact ⟨_, _, rfl⟩
        · cases hshifted
          exact ⟨_, _, rfl⟩
      obtain ⟨text', offset', rfl⟩ := hmatrix
      have hmem := hshift.mem_children
      obtain ⟨base, ⟨ranged, qs, hrange, hcarries⟩, htakes⟩ :=
        ih inner hmem (hbelow inner hmem) hshift.operand hb
      exact ⟨base, ⟨ranged, _, hrange, hcarries.shift hshift⟩, htakes⟩
    · obtain ⟨inner, hpin⟩ := Node.exists_isPin htop hkind
      have hmem := hpin.mem_children
      obtain ⟨base, ⟨ranged, qs, hrange, hcarries⟩, htakes⟩ :=
        ih inner hmem (hbelow inner hmem) hpin.operand (hpin.result ▸ hresult)
      exact ⟨base, ⟨ranged, _, hrange, hcarries.pin hpin⟩, htakes⟩

end Expr

end PromqlGuide
