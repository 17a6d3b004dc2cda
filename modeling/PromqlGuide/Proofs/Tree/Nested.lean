import PromqlGuide.Proofs.Expr.Source
import PromqlGuide.Proofs.Grammar.Bounds
import PromqlGuide.Proofs.Query.Expression
import PromqlGuide.Proofs.Written.Fragment

/-!
# Ranges of nodes

The ranges of the nodes of a syntax tree are nested: the root covers the query, every node holds its
children, and these follow one another (`Node.rangesFit_of_ofQuery`).  Nodes of an accepted query
are never empty, and the error node of a rejected query reaches from the reported position to the
end.

What a written tree stands for starts behind its first gap and stops where its text does, so the
trees that a phrase is made of give the ranges of its children, one after the other.
-/
namespace PromqlGuide

open Written

namespace Node

/-- Whether a node holds its children, and these follow one another. -/
structure IsNested (n : Node) : Prop where
  start_le_stop : n.start ≤ n.stop
  inside : ∀ c ∈ n.children, n.start ≤ c.start ∧ c.stop ≤ n.stop
  ordered : n.children.Pairwise fun c d => c.stop ≤ d.start

/-- A node without children is nested. -/
lemma isNested_of_nil {n : Node} (h : n.start ≤ n.stop) (hchildren : n.children = []) :
    n.IsNested := by
  refine ⟨h, ?_, ?_⟩ <;> simp [hchildren]

/-- A node around its only child is nested. -/
lemma isNested_of_singleton {n c : Node} (hchildren : n.children = [c]) (hstart : n.start ≤ c.start)
    (hrange : c.start ≤ c.stop) (hstop : c.stop ≤ n.stop) : n.IsNested := by
  refine ⟨by omega, ?_, ?_⟩
  · simpa [hchildren] using ⟨hstart, hstop⟩
  · simp [hchildren]

end Node

namespace Written

variable {clear : List Written → List Word → Prop} {query : List Char} {w e : Written}
  {ws : List Written} {position : Nat} {n : Node} {i : Item}

/-! ### Items one after the other -/

/-- The gap in front of a tree is part of its text. -/
lemma firstGap_length_le (w : Written) : w.firstGap.length ≤ w.text.length := by
  rw [text_eq_append_bare, List.length_append]
  exact Nat.le_add_right _ _

/-- What a tree stands for ends no earlier than it starts. -/
lemma start_le_stop_item (w : Written) (position : Nat) :
    (w.item position).start ≤ (w.item position).stop := by
  rw [start_item, stop_item]
  exact Nat.add_le_add_left (firstGap_length_le w) position

/-- The items of trees lie where the trees are written. -/
lemma range_of_mem_items (hi : i ∈ items position ws) :
    position ≤ i.start ∧ i.stop ≤ position + (textAll ws).length := by
  induction ws generalizing position with
  | nil => cases hi
  | cons w ws ih =>
    simp only [items, List.mem_cons] at hi
    simp only [textAll_cons, List.length_append]
    rcases hi with rfl | hi
    · rw [start_item, stop_item]
      omega
    · have hmore := ih hi
      omega

/-- The items of trees follow one another. -/
lemma pairwise_items (position : Nat) (ws : List Written) :
    (items position ws).Pairwise fun i j => i.stop ≤ j.start := by
  induction ws generalizing position with
  | nil => exact .nil
  | cons w ws ih =>
    refine .cons (fun j hj => ?_) (ih _)
    rw [stop_item]
    exact (range_of_mem_items hj).1

/-- The nodes of trees follow one another. -/
lemma pairwise_nodes (position : Nat) (ws : List Written) :
    (nodes position ws).Pairwise fun n m => n.stop ≤ m.start := by
  refine List.Pairwise.filterMap Item.node? ?_ (pairwise_items position ws)
  rintro (_ | _) (_ | _) hle n hn m hm <;> cases hn <;> cases hm
  exact hle

/-- No item of a phrase starts before the phrase does. -/
lemma firstGap_le_of_mem_items {p : Phrase} (hi : i ∈ items position ws) :
    position + (phrase p ws).firstGap.length ≤ i.start := by
  cases ws with
  | nil => cases hi
  | cons w ws =>
    simp only [firstGap]
    rcases List.mem_cons.1 hi with rfl | hi
    · rw [start_item]
    · have hgap := firstGap_length_le w
      have hmore := (range_of_mem_items hi).1
      omega

/-- The node that a tree stands for is nested. -/
lemma isNested_of_item (h : w.item position = .node n) : n.IsNested := by
  have hrange := start_le_stop_item w position
  rw [h] at hrange
  cases w with
  | lexeme l => exact Node.isNested_of_nil hrange (children_of_lexeme h)
  | phrase p parts =>
    have hstart := start_item (phrase p parts) position
    have hstop := stop_item (phrase p parts) position
    rw [h] at hstart hstop
    cases h
    refine ⟨hrange, fun c hc => ?_, pairwise_nodes position parts⟩
    obtain ⟨i, hi, hic⟩ := List.mem_filterMap.1 hc
    cases i with
    | mark => cases hic
    | node c =>
      cases hic
      have hfirst := firstGap_le_of_mem_items (p := p) hi
      have hlast := (range_of_mem_items hi).2
      exact ⟨Nat.le_trans (Nat.le_of_eq hstart) hfirst,
        Nat.le_trans hlast (Nat.le_of_eq hstop.symm)⟩

/-! ### Nodes of a query -/

/-- What stands in a query stops inside it. -/
lemma stop_le_length (h : Stands query position [w]) (hn : w.item position = .node n) :
    n.stop ≤ query.length := by
  have hstop := stop_item w position
  obtain ⟨before, rest, rfl, rfl, -⟩ := h
  rw [hn] at hstop
  simp only [Item.stop] at hstop
  simp only [textAll_cons, textAll_nil, List.append_nil, List.length_append]
  omega

/-- What is inside an expression is not empty. -/
lemma start_lt_stop_of_within (he : Grammatical clear e) (hw : Within w e)
    (h : Stands query position [w]) (hn : w.item position = .node n) : n.start < n.stop := by
  obtain ⟨before, rest, -, -, hlaid⟩ := h
  have hne := (fragment_of_within he hw).bare_ne_nil hlaid
  have hlength := congrArg List.length (text_eq_append_bare w)
  have hstart := start_item w position
  have hstop := stop_item w position
  rw [hn] at hstart hstop
  simp only [Item.start, Item.stop] at hstart hstop
  have hpos := List.length_pos_of_ne_nil hne
  rw [List.length_append] at hlength
  omega

end Written

namespace Node

variable {limits : Limits} {query : List Char} {root : Node}

/-- How the nodes of a tree lie in a query.  Without error nodes, no node below the root is empty.
With one, the query is rejected at a position, and the tree is nothing but an error node from there
to the end. -/
structure RangesFit (limits : Limits) (query : List Char) (root : Node) : Prop where
  start_eq : root.start = 0
  stop_eq : root.stop = query.length
  nested : ∀ m ∈ root.preorder, m.IsNested
  stop_le : ∀ m ∈ root.preorder, m.stop ≤ query.length
  start_lt_stop : (∀ m ∈ root.preorder, m.isError = false) →
    ∀ c ∈ root.children, ∀ m ∈ c.preorder, m.start < m.stop
  rejected : (∃ m ∈ root.preorder, m.isError = true) →
    ∃ stuck : Stuck, Query.parseChars limits query =
        ⟨.error (.rejected stuck.position), [stuck.record query]⟩ ∧
      root.children = [⟨.error, stuck.position, query.length, []⟩]

/-- A node without children is its whole pre-order. -/
lemma preorder_of_nil {n : Node} (h : n.children = []) : n.preorder = [n] := by
  simp [preorder_eq, h]

/-- The ranges of the tree of an empty query fit it. -/
lemma rangesFit_of_empty (limits : Limits) (query : List Char) :
    RangesFit limits query ⟨.root, 0, query.length, []⟩ := by
  have hself : Node.preorder ⟨.root, 0, query.length, []⟩ = [⟨.root, 0, query.length, []⟩] :=
    preorder_of_nil rfl
  refine ⟨rfl, rfl, ?_, ?_, fun _ => by simp, ?_⟩ <;> rw [hself]
  · simpa using isNested_of_nil (Nat.zero_le _) rfl
  · simp
  · simp [isError]

/-- The ranges of the tree of a rejected query fit it. -/
lemma rangesFit_of_rejected {stuck : Stuck} (h : Reading.ofQuery limits query = .rejected stuck) :
    RangesFit limits query
      ⟨.root, 0, query.length, [⟨.error, stuck.position, query.length, []⟩]⟩ := by
  have hposition := Reading.position_le_of_rejected h
  have hboth :
    Node.preorder ⟨.root, 0, query.length, [⟨.error, stuck.position, query.length, []⟩]⟩ =
      [⟨.root, 0, query.length, [⟨.error, stuck.position, query.length, []⟩]⟩,
        ⟨.error, stuck.position, query.length, []⟩] := by
    simp [preorder_eq]
  refine ⟨rfl, rfl, ?_, ?_, fun haccepted => ?_, fun _ => ⟨stuck, ?_, rfl⟩⟩
  · rw [hboth, List.forall_mem_cons, List.forall_mem_singleton]
    exact ⟨isNested_of_singleton rfl (Nat.zero_le _) hposition (Nat.le_refl _),
      isNested_of_nil hposition rfl⟩
  · rw [hboth]
    simp
  · have herror := haccepted ⟨.error, stuck.position, query.length, []⟩ (by simp [hboth])
    cases herror
  · unfold Query.parseChars
    rw [h]

/-- The ranges of the tree of an accepted query fit it. -/
lemma rangesFit_of_writes {e : Written} {n : Node} (he : e.Writes limits.rules query)
    (hn : e.item 0 = .node n) : RangesFit limits query ⟨.root, 0, query.length, [n]⟩ := by
  have hstands := Query.stands_of_writes he
  have hbelow : ∀ m ∈ n.preorder, m.IsNested ∧ m.stop ≤ query.length ∧ m.start < m.stop ∧
      m.isError = false := by
    intro m hm
    obtain ⟨w, place, hwithin, hwstands, hitem⟩ := exists_within_of_mem_preorder hstands hn hm
    exact ⟨isNested_of_item hitem, stop_le_length hwstands hitem,
      start_lt_stop_of_within he.grammatical hwithin hwstands hitem,
      isError_of_mem_preorder hstands hn hm⟩
  have hself := hbelow n n.mem_preorder_self
  have hpreorder : Node.preorder ⟨.root, 0, query.length, [n]⟩ =
      ⟨.root, 0, query.length, [n]⟩ :: n.preorder := by
    simp [preorder_eq]
  refine ⟨rfl, rfl, ?_, ?_, fun _ => ?_, ?_⟩
  · rw [hpreorder, List.forall_mem_cons]
    refine ⟨isNested_of_singleton rfl (Nat.zero_le _) ?_ hself.2.1, fun m hm => (hbelow m hm).1⟩
    exact Nat.le_of_lt hself.2.2.1
  · rw [hpreorder, List.forall_mem_cons]
    exact ⟨Nat.le_refl _, fun m hm => (hbelow m hm).2.1⟩
  · simpa using fun m hm => (hbelow m hm).2.2.1
  · rintro ⟨m, hm, herror⟩
    rw [hpreorder] at hm
    rcases List.mem_cons.1 hm with rfl | hm
    · cases herror
    · rw [(hbelow m hm).2.2.2] at herror
      cases herror

/-- The ranges of a tree fit the query that it is read from, and the reader, which makes each phrase
from the first to the last item read for it, always has one to make it from. -/
theorem rangesFit_of_ofQuery (h : Node.ofQuery? limits query = some root) :
    RangesFit limits query root ∧ ∀ r : Rule, r.FillsPhrases := by
  refine ⟨?_, Rule.fillsPhrases⟩
  unfold Node.ofQuery? at h
  cases hread : Reading.ofQuery limits query with
  | tooDeep =>
    rw [hread] at h
    cases h
  | rejected stuck =>
    rw [hread] at h
    cases h
    exact rangesFit_of_rejected hread
  | accepted expression? =>
    rw [hread] at h
    cases h
    cases expression? with
    | none => exact rangesFit_of_empty limits query
    | some n =>
      obtain ⟨e, he, hn⟩ := Reading.within_eq_accepted_iff.1 hread
      exact rangesFit_of_writes he hn

/-- The tree of `- a[5m]`. -/
def negatedRange : Node :=
  ⟨.root, 0, 7, [⟨.phrase .unary, 0, 7, [⟨.leaf (.symbol .sub), 0, 1, []⟩,
    ⟨.phrase .matrixSelector, 2, 7,
      [⟨.phrase .vectorSelector, 2, 3, [⟨.leaf .metricName, 2, 3, []⟩]⟩,
        ⟨.leaf .duration, 4, 6, []⟩]⟩]⟩]⟩

/-- The ranges in the tree of `- a[5m]` fit it. -/
theorem rangesFit_negatedRange :
    Node.ofQuery? .usual ['-', ' ', 'a', '[', '5', 'm', ']'] = some negatedRange ∧
      RangesFit .usual ['-', ' ', 'a', '[', '5', 'm', ']'] negatedRange ∧
      ∀ r : Rule, r.FillsPhrases := by
  have hread : Node.ofQuery? .usual ['-', ' ', 'a', '[', '5', 'm', ']'] = some negatedRange := rfl
  exact ⟨hread, rangesFit_of_ofQuery hread⟩

end Node

end PromqlGuide
