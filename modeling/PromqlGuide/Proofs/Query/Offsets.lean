import PromqlGuide.Proofs.Expr.Postfixes
import PromqlGuide.Proofs.Query.Grouping

/-!
# Recorded offsets

The offset that is recorded for a selector is the one that is written: the sum of the parts of its
duration, below zero if a minus stands in front.  A duration that sums up to nothing counts as five
minutes.  Of several offsets the outermost is recorded, and times that the selector is pinned to
change nothing.

Main statement: what an offset in an accepted query records (`Query.offset_of_ofQuery`).
-/
namespace PromqlGuide.Query

open Text

variable {limits : Limits} {query : List Char}

/-- An offset in an accepted query applies to an expression and has a duration that is written as
parts.  If the expression is a selector, under further offsets and times or not, then pinned or not
the offset stands for this selector with the text of the whole and the shift that is written, unless
the digits of a part are too many to be read. -/
theorem offset_of_ofQuery {root s : Node} (h : Node.ofQuery? limits query = some root)
    (haccepted : ∀ n ∈ root.preorder, n.isError = false) (hs : s ∈ root.preorder)
    (hkind : s.kind = .phrase .offset) :
    ∃ (base : Node) (minus : Bool) (ps : List DurationPart), base.IsShift query s minus ps ∧
      ∀ (core top : Node) (qs : List DurationPart) (a : Expr), core.Carries query base qs →
        (Expr.ofTree query core).result = .ok a → a.IsSelector →
        Relation.ReflTransGen Node.IsPin s top →
        top.Yields query (ps ++ qs) fun b =>
          Expr.IsShifted (Expr.textOf query s) (Duration.shift minus ps) a b := by
  have hread := isRead_of_ofQuery h haccepted hs (by simp [hkind])
  obtain ⟨base, minus, ps, hshift⟩ := Node.exists_isShift hread hkind
  refine ⟨base, minus, ps, hshift, fun core top qs a hcarries ha hselector hpinned => ?_⟩
  have hshifted := hshift.yields_shifted hselector (hcarries.yields ha hselector)
  exact hshifted.congr (Node.result_of_pinned hpinned)

/-- The text of `x offset 5m @ 0 offset -1h30m`. -/
def shiftedTwice : List Char :=
  ['x', ' ', 'o', 'f', 'f', 's', 'e', 't', ' ', '5', 'm', ' ', '@', ' ', '0', ' ', 'o', 'f', 'f',
   's', 'e', 't', ' ', '-', '1', 'h', '3', '0', 'm']

/-- The tree of `x`. -/
def plainSelector : Node := ⟨.phrase .vectorSelector, 0, 1, [⟨.leaf .metricName, 0, 1, []⟩]⟩

/-- The tree of `x offset 5m`. -/
def shiftedOnceTree : Node :=
  ⟨.phrase .offset, 0, 11,
    [plainSelector, ⟨.leaf (.keyword .offset), 2, 8, []⟩, ⟨.leaf .duration, 9, 11, []⟩]⟩

/-- The tree of `x offset 5m @ 0`. -/
def pinnedTree : Node :=
  ⟨.phrase .pinned, 0, 15,
    [shiftedOnceTree, ⟨.leaf (.symbol .atSign), 12, 13, []⟩, ⟨.leaf .timestamp, 14, 15, []⟩]⟩

/-- The tree of `x offset 5m @ 0 offset -1h30m`. -/
def shiftedTwiceTree : Node :=
  ⟨.phrase .offset, 0, 29,
    [pinnedTree, ⟨.leaf (.keyword .offset), 16, 22, []⟩, ⟨.leaf (.symbol .sub), 23, 24, []⟩,
      ⟨.leaf .duration, 24, 29, []⟩]⟩

/-- The selector is shifted by five minutes. -/
lemma isShift_shiftedOnce :
    plainSelector.IsShift shiftedTwice shiftedOnceTree false [⟨['5'], .minute⟩] :=
  ⟨rfl, rfl, _, [], _, rfl, rfl, rfl, rfl, by decide, rfl⟩

/-- What is pinned is shifted by an hour and a half towards the future. -/
lemma isShift_shiftedTwice :
    pinnedTree.IsShift shiftedTwice shiftedTwiceTree true [⟨['1'], .hour⟩, ⟨['3', '0'], .minute⟩] :=
  ⟨rfl, rfl, _, [⟨.leaf (.symbol .sub), 23, 24, []⟩], _, rfl, rfl, rfl, rfl, by decide, rfl⟩

/-- What is pinned is the selector under a shift of five minutes. -/
lemma carries_pinned :
    plainSelector.Carries shiftedTwice pinnedTree ([⟨['5'], .minute⟩] ++ []) :=
  .pin (.shift .refl isShift_shiftedOnce) ⟨rfl, rfl, _, _, rfl, rfl, by decide⟩

/-- Of the offsets in `x offset 5m @ 0 offset -1h30m` the second is recorded. -/
theorem offset_shiftedTwice :
    Node.ofQuery? .usual shiftedTwice = some ⟨.root, 0, 29, [shiftedTwiceTree]⟩ ∧
      (∀ n ∈ (Node.mk .root 0 29 [shiftedTwiceTree]).preorder, n.isError = false) ∧
      shiftedTwiceTree ∈ (Node.mk .root 0 29 [shiftedTwiceTree]).preorder ∧
      shiftedTwiceTree.kind = .phrase .offset ∧
      (Expr.ofTree shiftedTwice plainSelector).result = .ok (.vector "x" "x" [] none) ∧
      (Expr.ofTree shiftedTwice shiftedTwiceTree).result =
        .ok (.vector "x offset 5m @ 0 offset -1h30m" "x" [] (some (-5400000))) := by
  have hread : Node.ofQuery? .usual shiftedTwice = some ⟨.root, 0, 29, [shiftedTwiceTree]⟩ := rfl
  have haccepted : ∀ n ∈ (Node.mk .root 0 29 [shiftedTwiceTree]).preorder, n.isError = false := by
    decide
  have hin : shiftedTwiceTree ∈ (Node.mk .root 0 29 [shiftedTwiceTree]).preorder :=
    Node.mem_preorder_of_mem_children List.mem_cons_self
  have hselector : (Expr.ofTree shiftedTwice plainSelector).result =
    .ok (.vector "x" "x" [] none) := rfl
  refine ⟨hread, haccepted, hin, rfl, hselector, ?_⟩
  obtain ⟨base, minus, ps, hshift, hall⟩ := offset_of_ofQuery hread haccepted hin rfl
  obtain ⟨rfl, rfl, rfl⟩ := hshift.unique isShift_shiftedTwice
  obtain ⟨b, hb, hresult⟩ :=
    (hall plainSelector shiftedTwiceTree _ _ carries_pinned hselector trivial
    .refl).1 (by decide)
  have htext : Expr.textOf shiftedTwice shiftedTwiceTree = "x offset 5m @ 0 offset -1h30m" := by
    decide +kernel
  have hsum : Duration.shift true [⟨['1'], .hour⟩, ⟨['3', '0'], .minute⟩] = -5400000 := by
    decide +kernel
  rw [htext, hsum] at hb
  cases hb
  exact hresult

/-- An offset that is written as `0s` is recorded as five minutes. -/
theorem not_offset_eq_sum :
    ¬ ∀ (query : List Char) (root base s : Node) (minus : Bool) (ps : List DurationPart) (a : Expr),
      Node.ofQuery? .usual query = some root → (∀ n ∈ root.preorder, n.isError = false) →
      s ∈ root.preorder → base.IsShift query s minus ps → (Expr.ofTree query base).result = .ok a →
      a.IsSelector →
      ∃ b, Expr.IsShifted (Expr.textOf query s)
        (if minus then -(Duration.sum ps : Int) else Duration.sum ps) a b ∧
        (Expr.ofTree query s).result = .ok b := by
  intro h
  have hshift : plainSelector.IsShift ['x', ' ', 'o', 'f', 'f', 's', 'e', 't', ' ', '0', 's']
      shiftedOnceTree false [⟨['0'], .second⟩] :=
    ⟨rfl, rfl, _, [], _, rfl, rfl, rfl, rfl, by decide, rfl⟩
  obtain ⟨b, hb, hresult⟩ := h _ ⟨.root, 0, 11, [shiftedOnceTree]⟩ plainSelector shiftedOnceTree
    false
    [⟨['0'], .second⟩] (.vector "x" "x" [] none) rfl (by decide)
    (Node.mem_preorder_of_mem_children List.mem_cons_self) hshift rfl trivial
  have hyields := hshift.yields_shifted (a := .vector "x" "x" [] none) trivial
    (Node.Carries.refl.yields rfl trivial)
  obtain ⟨b', hb', hresult'⟩ := hyields.1 (by decide)
  obtain rfl := Except.ok.inj (hresult.symm.trans hresult')
  have hsame := (Expr.isShifted_iff.1 hb).trans (Expr.isShifted_iff.1 hb').symm
  have hoffset := (Expr.vector.inj (Option.some.inj hsame)).2.2.2
  exact absurd hoffset (by decide +kernel)

end PromqlGuide.Query
