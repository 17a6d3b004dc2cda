import Mathlib.Order.Bounds.Basic
import PromqlGuide.Proofs.Expr.Postfixes
import PromqlGuide.Proofs.Query.Boundaries
import PromqlGuide.Proofs.Query.Composition
import PromqlGuide.Proofs.Query.WellFormed
import PromqlGuide.Proofs.Tree.Nested
import PromqlGuide.Proofs.Tree.Separators

/-!
# Where expressions lie in a query

Every expression inside that of an accepted query can be given a range of the query which has its
text, inside the range of the expression around it and behind those of the expressions in front of
it (`Expr.LiesAt`).  The outermost range is the query without the blank text around it, but for
nodes that hand on the expression of their operand (`Node.HandsOn`): then it ends before the query
does.

A node either makes an expression with its own text, of those of nodes that lie in it side by side,
or it hands on that of its first child.  So ranges are found by induction on the tree.

Main statement: `Query.parse_located`.
-/
namespace PromqlGuide

open Text Written

/-! ### Ranges -/

/-- A range of a query: the characters from `start` up to but not including `stop`. -/
structure Text.Extent where
  start : Nat
  stop : Nat
  deriving Repr, DecidableEq

namespace Text.Extent

/-- Whether a range is inside another one. -/
def Inside (s t : Extent) : Prop := t.start ≤ s.start ∧ s.stop ≤ t.stop

/-- A range inside a range that is inside a third one is inside this one. -/
lemma Inside.trans {s t u : Extent} (h : s.Inside t) (h' : t.Inside u) : s.Inside u :=
  ⟨Nat.le_trans h'.1 h.1, Nat.le_trans h.2 h'.2⟩

/-- Whether a range is in front of another one. -/
def Before (s t : Extent) : Prop := s.stop ≤ t.start

/-- Whether a range is what is left of a query without the blank text at its two ends.  The blank
text in front is as long as possible, and so is that behind it, of which no part belongs to a string
or to a comment that starts earlier. -/
structure IsTrimmed (query : List Char) (s : Extent) : Prop where
  start : IsGreatest {p | IsBlank false (query.take p)} s.start
  stop : IsLeast {p | ScanState.outside.scan (query.take p) = .outside ∧
    IsBlank true (query.drop p)}
    s.stop

end Text.Extent

/-- The range of a node. -/
def Node.extent (n : Node) : Extent := ⟨n.start, n.stop⟩

/-- Whether an expression lies at a range of a query: the range has its text, and the expressions
inside it lie there one behind the other. -/
inductive Expr.LiesAt (query : List Char) : Expr → Extent → Prop where
  | intro {a : Expr} {s : Extent} {below : List Extent} (nonempty : s.start < s.stop)
      (stop_le : s.stop ≤ query.length)
      (text : a.text = String.ofList (slice query s.start s.stop))
      (children : List.Forall₂ (LiesAt query) a.children below) (inside : ∀ t ∈ below, t.Inside s)
      (ordered : below.Pairwise Extent.Before) : LiesAt query a s

/-! ### Makers -/

namespace Node

open PromqlGuide.Expr

variable {query : List Char} {n : Node} {a : Expr}

/-- Whether an expression is that of a node itself: it has the node's text, and its children are the
expressions of nodes that are side by side right below the node, or below one of its children. -/
def Makes (query : List Char) (n : Node) (a : Expr) : Prop :=
  a.text = textOf query n ∧ ∃ k ∈ n :: n.children, ∃ cs, cs.Sublist k.children ∧
    List.Forall₂ (StandsFor query) cs a.children

/-- Whether a node hands on the expression of its operand: what is pinned to a time, what is shifted
in time and no selector, and a call with a range behind it. -/
inductive HandsOn (query : List Char) (n : Node) : Prop where
  | pinned (kind : n.kind = .phrase .pinned)
  | offset (kind : n.kind = .phrase .offset)
      (operand : ∃ c ∈ n.children, ∃ e, StandsFor query c e ∧ ¬ e.IsSelector)
  | range (kind : n.kind = .phrase .matrixSelector)
      (operand : ∃ c ∈ n.children, c.kind = .phrase .call)

end Node

/-- Values of computations are those of each of them, one by one. -/
lemma Noted.forall₂_of_result_all {α : Type} {ms : List (Noted α)} {as : List α}
    (h : (Noted.all ms).result = .ok as) : List.Forall₂ (fun m a => m.result = .ok a) ms as := by
  induction ms generalizing as with
  | nil =>
    obtain rfl := result_pure h
    exact .nil
  | cons m ms ih =>
    obtain ⟨a, ha, h⟩ := result_bind h
    obtain ⟨more, hmore, h⟩ := result_bind h
    obtain rfl := result_pure h
    exact .cons ha (ih hmore)

namespace Expr

variable {query : List Char} {n : Node} {cs : List Node} {es : List Expr} {a : Expr}

/-- The operands are what the children stand for, one by one. -/
lemma standsFor_operands (h : (operands (cs.map (partOf query))).result = .ok es) :
    List.Forall₂ (StandsFor query) (cs.filter fun c => c.kind.isExpression) es := by
  rw [operands_partOf] at h
  have hall := List.forall₂_map_left_iff.1 (Noted.forall₂_of_result_all h)
  exact forall₂_of_mem hall fun c hc e he => ⟨by simpa using (List.mem_filter.1 hc).2, he⟩

/-- The expressions of all operands are those of nodes side by side. -/
lemma exists_operands (h : (operands (cs.map (partOf query))).result = .ok es) :
    ∃ ds, ds.Sublist cs ∧ List.Forall₂ (StandsFor query) ds es :=
  ⟨_, List.filter_sublist, standsFor_operands h⟩

/-- The operand, if there is one, is what a child stands for. -/
lemma exists_atMostOne {o : Option Node} (ho : ∀ c ∈ o, c ∈ cs ∧ c.kind.isExpression = true)
    (h : (atMostOne (o.map (partOf query))).result = .ok es) :
    ∃ ds, ds.Sublist cs ∧ List.Forall₂ (StandsFor query) ds es := by
  cases o with
  | none =>
    obtain rfl := Noted.result_pure h
    exact ⟨[], List.nil_sublist cs, .nil⟩
  | some c =>
    obtain ⟨e, he, h⟩ := Noted.result_bind h
    obtain rfl := Noted.result_pure h
    obtain ⟨hc, hexpr⟩ := ho c rfl
    exact ⟨[c], List.singleton_sublist.2 hc, .cons ⟨hexpr, he⟩ .nil⟩

/-- The first operand is what a child stands for. -/
lemma exists_firstOperand
    (h : (atMostOne (firstOperand? (cs.map (partOf query)))).result = .ok es) :
    ∃ ds, ds.Sublist cs ∧ List.Forall₂ (StandsFor query) ds es := by
  rw [firstOperand_partOf] at h
  exact exists_atMostOne (fun c hc => ⟨List.mem_of_find?_eq_some hc,
    by simpa using List.find?_some hc⟩) h

/-- An expression without children is that of the node whose text it has. -/
lemma makes_of_leaf (htext : a.text = textOf query n) (hchildren : a.children = []) :
    n.Makes query a :=
  ⟨htext, n, List.mem_cons_self, [], List.nil_sublist _, by rw [hchildren]; exact .nil⟩

/-- What a node makes of its children. -/
lemma makes_of_children (htext : a.text = textOf query n)
    (h : ∃ ds, ds.Sublist n.children ∧ List.Forall₂ (StandsFor query) ds a.children) :
    n.Makes query a := ⟨htext, n, List.mem_cons_self, h⟩

/-- What a node makes of the children of a child. -/
lemma makes_of_grandchildren {body : Node} (hbody : body ∈ n.children)
    (htext : a.text = textOf query n)
    (h : ∃ ds, ds.Sublist body.children ∧ List.Forall₂ (StandsFor query) ds a.children) :
    n.Makes query a := ⟨htext, body, List.mem_cons_of_mem n hbody, h⟩

/-! ### What a node makes itself -/

/-- An aggregation is that of its node. -/
lemma makes_ofAggregation (h : (ofAggregation query n (n.children.map (treeBranch query))).result =
    .ok a) :
    n.Makes query a := by
  obtain ⟨es, hes, h⟩ := Noted.result_bind h
  obtain rfl := Noted.result_pure h
  rw [branch_treeBranch] at hes
  cases hbody : n.children.find? fun c => decide (c.kind ∈ [Kind.phrase .callBody]) with
  | none =>
    rw [hbody] at hes
    obtain rfl := Noted.result_pure hes
    exact makes_of_leaf rfl rfl
  | some body =>
    have hfirst : ((some body).map (treeBranch query)).bind (fun b => b.parts.head?) =
        body.children.head?.map (partOf query) := List.head?_map
    rw [hbody, hfirst, Option.filter_map] at hes
    refine makes_of_grandchildren (List.mem_of_find?_eq_some hbody) rfl (exists_atMostOne ?_ hes)
    intro c hc
    obtain ⟨hc, hexpr⟩ := Option.mem_filter_iff.1 hc
    exact ⟨List.mem_of_mem_head? hc, hexpr⟩

/-- A call is that of its node. -/
lemma makes_ofCall (h : (ofCall query n (n.children.map (treeBranch query))).result = .ok a) :
    n.Makes query a := by
  unfold ofCall at h
  rw [branch_treeBranch] at h
  cases hbody : n.children.find? fun c => decide (c.kind ∈ [Kind.phrase .callBody]) with
  | none =>
    rw [hbody] at h
    obtain ⟨es, hes, h⟩ := Noted.result_bind h
    obtain rfl := Noted.result_pure h
    obtain rfl := Noted.result_pure hes
    exact makes_of_leaf rfl rfl
  | some body =>
    rw [hbody] at h
    obtain ⟨es, hes, h⟩ := Noted.result_bind h
    obtain rfl := Noted.result_pure h
    exact makes_of_grandchildren (List.mem_of_find?_eq_some hbody) rfl (exists_operands hes)

/-- A binary expression is that of its node. -/
lemma makes_ofBinary (h : (ofBinary query n (n.children.map (treeBranch query))).result = .ok a) :
    n.Makes query a := by
  obtain ⟨es, hes, h⟩ := Noted.result_bind h
  rw [toPart_treeBranch] at hes
  simp only at h
  split at h
  · obtain ⟨-, -, h⟩ := Noted.result_bind h
    obtain rfl := Noted.result_pure h
    exact makes_of_children rfl (exists_operands hes)
  · obtain rfl := Noted.result_pure h
    exact makes_of_children rfl (exists_operands hes)

/-- A selector is that of its node. -/
lemma makes_ofVector (h : (ofVector query n).result = .ok a) : n.Makes query a := by
  obtain ⟨matchers, -, h⟩ := Noted.result_bind h
  obtain rfl := Noted.result_pure h
  exact makes_of_leaf rfl rfl

/-- A subquery is that of its node. -/
lemma makes_ofSubquery (h : (ofSubquery query n (n.children.map (treeBranch query))).result =
    .ok a) :
    n.Makes query a := by
  obtain ⟨es, hes, h⟩ := Noted.result_bind h
  obtain ⟨range, -, h⟩ := Noted.result_bind h
  obtain ⟨step, -, h⟩ := Noted.result_bind h
  obtain rfl := Noted.result_pure h
  rw [toPart_treeBranch] at hes
  exact makes_of_children rfl (exists_firstOperand hes)

/-- Parentheses are those of their node. -/
lemma makes_ofParen (h : (ofParen query n (n.children.map (treeBranch query))).result = .ok a) :
    n.Makes query a := by
  obtain ⟨es, hes, h⟩ := Noted.result_bind h
  obtain rfl := Noted.result_pure h
  rw [toPart_treeBranch] at hes
  exact makes_of_children rfl (exists_firstOperand hes)

/-- A unary expression is that of its node. -/
lemma makes_ofUnary (h : (ofUnary query n (n.children.map (treeBranch query))).result = .ok a) :
    n.Makes query a := by
  obtain ⟨es, hes, h⟩ := Noted.result_bind h
  obtain rfl := Noted.result_pure h
  rw [toPart_treeBranch] at hes
  exact makes_of_children rfl (exists_operands hes)

/-- A range makes an expression of its own, unless it is behind a call. -/
lemma makes_ofMatrix (hcall : ∀ c ∈ n.children, c.kind ≠ .phrase .call)
    (h : (ofMatrix query n (n.children.map (treeBranch query))).result = .ok a) :
    n.Makes query a := by
  rcases ofMatrix_cases h with ⟨name, matchers, range, rfl⟩ | ⟨b, hb, hkind, -⟩
  · exact makes_of_leaf rfl rfl
  · obtain ⟨c, hc, rfl⟩ := List.mem_map.1 hb
    exact absurd hkind (hcall c hc)

/-- A shift in time makes an expression of its own if it shifts a selector. -/
lemma makes_ofOffset {base : Node} {minus : Bool} {ps : List DurationPart}
    (hshift : base.IsShift query n minus ps)
    (hselector : ∀ e, StandsFor query base e → e.IsSelector)
    (h : (ofTree query n).result = .ok a) : n.Makes query a := by
  cases hbase : (ofTree query base).result with
  | error cause =>
    rw [hshift.result_eq_error hbase] at h
    cases h
  | ok e =>
    have he := hselector e ⟨hshift.operand, hbase⟩
    obtain ⟨d, hd, -⟩ := hshift.exists_duration
    rw [hshift.result_eq hd hbase he] at h
    obtain ⟨ms, -, h⟩ := Noted.result_bind h
    obtain rfl := Noted.result_pure h
    obtain ⟨b, hb⟩ := exists_isShifted he (textOf query n) (if minus then -(ms : Int) else ms)
    obtain ⟨htext, hchildren⟩ := children_shifted (isShifted_iff.1 hb)
    rw [isShifted_iff.1 hb]
    exact makes_of_leaf htext hchildren

/-- What a node does not hand on it makes. -/
lemma makes_of_not_handsOn (hread : ∀ k ∈ n.preorder, k.IsRead query) (hwrapper : n.kind ≠ .wrapper)
    (hnot : ¬ n.HandsOn query) (h : StandsFor query n a) : n.Makes query a := by
  obtain ⟨hn, htree⟩ := h
  have hleaf : ∀ e : Expr, e.text = textOf query n → e.children = [] →
      (pure e : Noted Expr).result = .ok a → n.Makes query a := by
    intro e htext hchildren h
    obtain rfl := Noted.result_pure h
    exact makes_of_leaf htext hchildren
  have h := htree
  rw [ofTree_eq_ofBranches, ofBranches] at h
  cases hkind : n.kind with
  | wrapper => exact absurd hkind hwrapper
  | durationNumber =>
    rw [hkind] at h
    exact hleaf _ rfl rfl h
  | leaf t =>
    rw [hkind] at h hn
    cases t with
    | number | string => exact hleaf _ rfl rfl h
    | _ => cases hn
  | phrase p =>
    rw [hkind] at h hn
    cases p with
    | aggregation => exact makes_ofAggregation h
    | call => exact makes_ofCall h
    | binary => exact makes_ofBinary h
    | vectorSelector => exact makes_ofVector h
    | matrixSelector =>
      exact makes_ofMatrix (fun c hc hcall => hnot (.range hkind ⟨c, hc, hcall⟩)) h
    | subquery => exact makes_ofSubquery h
    | offset =>
      obtain ⟨base, minus, ps, hshift⟩ := Node.exists_isShift hread hkind
      have hbase : base ∈ n.children := by
        obtain ⟨word, sign, d, hchildren, -⟩ := hshift.parts
        simp [hchildren]
      refine makes_ofOffset hshift (fun e he => ?_) htree
      by_contra hselector
      exact hnot (.offset hkind ⟨base, hbase, e, he, hselector⟩)
    | paren => exact makes_ofParen h
    | unary => exact makes_ofUnary h
    | pinned => exact absurd (.pinned hkind) hnot
    | _ => cases hn
  | _ =>
    rw [hkind] at hn
    cases hn

/-! ### What a node hands on -/

/-- Behind the base of a postfix there is something, and no other expression. -/
lemma exists_first_child (hread : n.IsRead query) (hhands : n.HandsOn query) :
    ∃ base d more, n.children = base :: d :: more ∧ base.kind.isExpression = true ∧
      ∀ c ∈ d :: more, c.kind.isExpression = false := by
  have hbase : ∀ {after : List (List Kind)}, Node.HasBase after n.children →
      (∀ kinds ∈ after, kinds ≠ [] ∧ ∀ k ∈ kinds, k.isExpression = false) →
      ∃ base d more, n.children = base :: d :: more ∧ base.kind.isExpression = true ∧
        ∀ c ∈ d :: more, c.kind.isExpression = false := by
    rintro after ⟨base, more, hchildren, hexpr, -, hkinds⟩ hafter
    obtain ⟨hne, hnone⟩ := hafter _ hkinds
    cases more with
    | nil => exact absurd rfl hne
    | cons d more => exact ⟨base, d, more, hchildren, hexpr, List.forall_mem_map.1 hnone⟩
  cases hhands with
  | pinned kind => exact hbase (hread.areParts kind) (by decide)
  | offset kind => exact hbase (hread.areParts kind) (by decide)
  | range kind => exact hbase (hread.areParts kind) (by decide)

/-- A call with a range behind it stands for what the call stands for. -/
lemma result_of_range {base d : Node} {more : List Node} (hkind : n.kind = .phrase .matrixSelector)
    (hchildren : n.children = base :: d :: more) (hbase : base.kind = .phrase .call)
    (hmore : ∀ c ∈ d :: more, c.kind.isExpression = false) (h : (ofTree query n).result = .ok a) :
    (ofTree query base).result = .ok a := by
  have hnone : n.child? [.phrase .vectorSelector] = none := by
    rw [Node.child?, hchildren, List.find?_eq_none]
    refine List.forall_mem_cons.2 ⟨by simp [hbase], fun c hc hselector => ?_⟩
    have hexpr := hmore c hc
    rw [List.mem_singleton.1 (of_decide_eq_true hselector)] at hexpr
    cases hexpr
  have hcall : branch? (n.children.map (treeBranch query)) [.phrase .call] =
      some (treeBranch query base) := by
    rw [branch_treeBranch, hchildren]
    simp [hbase]
  rw [ofTree_eq_ofBranches, ofBranches, hkind] at h
  change (ofMatrix query n _).result = _ at h
  unfold ofMatrix at h
  rw [hnone, hcall] at h
  cases hrange : n.child? [.leaf .duration, .durationOperand] <;> rw [hrange] at h
  all_goals
    obtain ⟨range, -, h⟩ := Noted.result_bind h
    exact h

/-- What is shifted in time and no selector stands for the same expression. -/
lemma result_of_offset {base : Node} {minus : Bool} {ps : List DurationPart} {e : Expr}
    (hshift : base.IsShift query n minus ps) (he : (ofTree query base).result = .ok e)
    (hselector : ¬ e.IsSelector) : (ofTree query n).result = .ok e := by
  obtain ⟨d, hd, -, -, hfirst⟩ := hshift.exists_duration
  have hshifted : shifted? (textOf query n) 0 e = none := by
    cases e <;> first | rfl | exact absurd trivial hselector
  rw [ofTree_eq_ofBranches, ofBranches, hshift.kind]
  dsimp only
  rw [ofOffset, toPart_treeBranch, firstOperand_partOf, hfirst]
  dsimp only [Option.map_some, partOf]
  rw [Noted.result_bind_eq he, hd, hshifted]
  rfl

/-- What a node hands on is the expression of its first child, and there is another child behind
it. -/
lemma exists_handed (hread : ∀ k ∈ n.preorder, k.IsRead query) (hhands : n.HandsOn query)
    (h : (ofTree query n).result = .ok a) :
    ∃ base d more, n.children = base :: d :: more ∧ StandsFor query base a := by
  obtain ⟨base, d, more, hchildren, hbase, hmore⟩ :=
    exists_first_child (hread n n.mem_preorder_self)
    hhands
  refine ⟨base, d, more, hchildren, hbase, ?_⟩
  have honly : ∀ c ∈ n.children, c.kind.isExpression = true → c = base := by
    intro c hc hexpr
    rw [hchildren] at hc
    rcases List.mem_cons.1 hc with rfl | hc
    · rfl
    · rw [hmore c hc] at hexpr
      cases hexpr
  cases hhands with
  | pinned kind =>
    obtain ⟨base', hpin⟩ := Node.exists_isPin (hread n n.mem_preorder_self) kind
    obtain ⟨mark, time, hparts, -⟩ := hpin.parts
    rw [← honly base' (by simp [hparts]) hpin.operand, ← hpin.result]
    exact h
  | offset kind operand =>
    obtain ⟨base', minus, ps, hshift⟩ := Node.exists_isShift hread kind
    obtain ⟨word, sign, d', hparts, -⟩ := hshift.parts
    obtain ⟨c, hc, e, ⟨hexpr, he⟩, hselector⟩ := operand
    obtain rfl := honly c hc hexpr
    obtain rfl := honly base' (by simp [hparts]) hshift.operand
    have hn := result_of_offset hshift he hselector
    rw [h] at hn
    rw [he, hn]
  | range kind operand =>
    obtain ⟨c, hc, hcall⟩ := operand
    obtain rfl := honly c hc (by rw [hcall]; rfl)
    exact result_of_range kind hchildren hcall hmore h

end Expr

/-! ### Places -/

namespace Node

/-- What is known of every node of an accepted query: it covers some of the query and holds its
children, and it is as the reader leaves it. -/
structure Lies (query : List Char) (n : Node) : Prop where
  nested : n.IsNested
  start_lt_stop : n.start < n.stop
  stop_le : n.stop ≤ query.length
  read : n.IsRead query
  ne_wrapper : n.kind ≠ .wrapper

/-- Every node of an accepted query lies in it. -/
lemma lies_of_writes {query : List Char} {depth : Nat} {e : Written} {n : Node}
    (he : e.Writes depth query) (hn : e.item 0 = .node n) : ∀ m ∈ n.preorder, m.Lies query := by
  intro m hm
  have hstands := Query.stands_of_writes he
  obtain ⟨w, place, hwithin, hwstands, hitem⟩ := exists_within_of_mem_preorder hstands hn hm
  exact ⟨isNested_of_item hitem, start_lt_stop_of_within he.grammatical hwithin hwstands hitem,
    stop_le_length hwstands hitem, isRead_of_within he.grammatical hwithin hwstands hitem,
    Query.ne_wrapper_of_writes he hn m hm⟩

/-- The children of a node, and those of its children, lie in it one behind the other. -/
lemma inside_of_mem {n k : Node} (hlies : ∀ m ∈ n.preorder, IsNested m) (hk : k ∈ n :: n.children) :
    (∀ c ∈ k.children, c.extent.Inside n.extent) ∧
      k.children.Pairwise fun c d => c.extent.Before d.extent := by
  rcases List.mem_cons.1 hk with rfl | hk
  · exact ⟨(hlies k k.mem_preorder_self).inside, (hlies k k.mem_preorder_self).ordered⟩
  · have hnested := hlies k (mem_preorder_of_mem_children hk)
    have hinside := (hlies n n.mem_preorder_self).inside k hk
    have hin : ∀ c ∈ k.children, c.extent.Inside k.extent := hnested.inside
    exact ⟨fun c hc => (hin c hc).trans hinside, hnested.ordered⟩

end Node

namespace Expr

variable {query : List Char} {n : Node} {cs : List Node} {es : List Expr} {a : Expr}

/-- Whether an expression lies in a node: at the range of the node, unless the node has handed it
on. -/
def LiesIn (query : List Char) (n : Node) (a : Expr) : Prop :=
  ∃ s, a.LiesAt query s ∧ s.Inside n.extent ∧ (¬ n.HandsOn query → s = n.extent) ∧
    (n.HandsOn query → s.stop < n.stop)

/-- Expressions that lie in nodes side by side lie side by side. -/
lemma exists_extents (h : List.Forall₂ (LiesIn query) cs es)
    (hcs : cs.Pairwise fun c d => c.extent.Before d.extent) :
    ∃ below, List.Forall₂ (LiesAt query) es below ∧
      List.Forall₂ (fun c s => Extent.Inside s c.extent) cs below ∧
      below.Pairwise Extent.Before := by
  induction h with
  | nil => exact ⟨[], .nil, .nil, .nil⟩
  | @cons c e cs es hc hes ih =>
    obtain ⟨hfirst, hmore⟩ := List.pairwise_cons.1 hcs
    obtain ⟨s, hlies, hinside, -⟩ := hc
    obtain ⟨below, hbelow, hcovered, hordered⟩ := ih hmore
    refine ⟨s :: below, .cons hlies hbelow, .cons hinside hcovered,
      List.pairwise_cons.2 ⟨fun t ht => ?_, hordered⟩⟩
    obtain ⟨d, hd, htd⟩ := exists_mem_of_forall₂ hcovered.flip ht
    have hsd : c.stop ≤ d.start := hfirst d hd
    exact Nat.le_trans hinside.2 (Nat.le_trans hsd htd.1)

/-- What a node makes lies at the range of the node, if what is made of the nodes in it lies in
these. -/
lemma liesAt_of_makes (hlies : ∀ m ∈ n.preorder, m.Lies query)
    (hbelow : ∀ k ∈ n :: n.children, ∀ c ∈ k.children, ∀ e, StandsFor query c e → LiesIn query c e)
    (h : n.Makes query a) : a.LiesAt query n.extent := by
  obtain ⟨htext, k, hk, cs, hsub, hfor⟩ := h
  obtain ⟨hinside, hordered⟩ := Node.inside_of_mem (fun m hm => (hlies m hm).nested) hk
  have hin : List.Forall₂ (LiesIn query) cs a.children :=
    forall₂_of_mem hfor fun c hc e he => hbelow k hk c (hsub.subset hc) e he
  obtain ⟨below, hplaces, hcovered, hapart⟩ := exists_extents hin (hordered.sublist hsub)
  have hself := hlies n n.mem_preorder_self
  refine .intro hself.start_lt_stop hself.stop_le htext hplaces (fun s hs => ?_) hapart
  obtain ⟨c, hc, hsc⟩ := exists_mem_of_forall₂ hcovered.flip hs
  have hsc : s.Inside c.extent := hsc
  exact hsc.trans (hinside c (hsub.subset hc))

/-- What a node hands on lies in its first child, in front of what is behind that. -/
lemma liesIn_of_handed {base d : Node} {more : List Node} (hlies : ∀ m ∈ n.preorder, m.Lies query)
    (hhands : n.HandsOn query) (hchildren : n.children = base :: d :: more)
    (h : LiesIn query base a) : LiesIn query n a := by
  obtain ⟨s, hs, hinside, -⟩ := h
  have hnested := (hlies n n.mem_preorder_self).nested
  have hd : d ∈ n.children := by simp [hchildren]
  have hbase : base.extent.Inside n.extent := hnested.inside base (by simp [hchildren])
  have hbehind : base.stop ≤ d.start := by
    have hordered := hnested.ordered
    rw [hchildren, List.pairwise_cons] at hordered
    exact hordered.1 d List.mem_cons_self
  have hnonempty := (hlies d (Node.mem_preorder_of_mem_children hd)).start_lt_stop
  have hstop := (hnested.inside d hd).2
  refine ⟨s, hs, hinside.trans hbase, fun hnot => absurd hhands hnot, fun _ => ?_⟩
  exact Nat.lt_of_le_of_lt hinside.2
    (Nat.lt_of_le_of_lt hbehind (Nat.lt_of_lt_of_le hnonempty hstop))

/-- The expressions of all nodes of an accepted query lie in them. -/
lemma liesIn_of_standsFor (hlies : ∀ m ∈ n.preorder, m.Lies query) :
    ∀ m ∈ n.preorder, ∀ a, StandsFor query m a → LiesIn query m a := by
  -- A node reaches down to its children's children, so the induction is for all nodes of a tree.
  induction n using Node.inductionOn with
  | step n ih =>
    intro m hm a ha
    have below : ∀ c ∈ n.children, ∀ m ∈ c.preorder, ∀ a, StandsFor query m a → LiesIn query m a :=
      fun c hc => ih c hc fun m hm => hlies m (Node.mem_preorder_iff.2 (Or.inr ⟨c, hc, hm⟩))
    rcases Node.mem_preorder_iff.1 hm with rfl | ⟨c, hc, hm⟩
    · have hread : ∀ k ∈ m.preorder, k.IsRead query := fun k hk => (hlies k hk).read
      by_cases hhands : m.HandsOn query
      · obtain ⟨base, d, more, hchildren, hbase⟩ := exists_handed hread hhands ha.2
        have hmem : base ∈ m.children := by simp [hchildren]
        exact liesIn_of_handed hlies hhands hchildren
          (below base hmem base base.mem_preorder_self a hbase)
      · have hmakes := makes_of_not_handsOn hread (hlies m m.mem_preorder_self).ne_wrapper hhands ha
        refine ⟨m.extent, liesAt_of_makes hlies ?_ hmakes, ⟨Nat.le_refl _, Nat.le_refl _⟩, fun _ =>
          rfl, fun hnot => absurd hnot hhands⟩
        intro k hk c hc e he
        rcases List.mem_cons.1 hk with rfl | hk
        · exact below c hc c c.mem_preorder_self e he
        · exact below k hk c (Node.mem_preorder_of_mem_children hc) e he
    · exact below c hc m hm a ha

end Expr

/-! ### The whole query -/

namespace Query

variable {limits : Limits} {query : List Char} {a : Expr}

/-- What is written ends with something visible. -/
lemma not_isSpace_getLast {w : Written} {rest : List Char} (h : Laid [w] rest) :
    ∀ c ∈ w.text.getLast?, isSpace c = false := by
  have hmarks : ∀ d ∈ Lexical.marks, isSpace d = false := by decide
  have hlaid : Lexeme.LaidOut w.lexemes rest := by simpa [Laid, lexemesAll] using h
  intro c hc
  obtain ⟨l, hl, hlast⟩ := Lexeme.mem_getLast_of_laidOut hlaid c hc
  have hproper := hlaid.proper l hl
  cases hkind : l.kind with
  | token t =>
    have hspells := hproper.2.2
    rw [hkind] at hspells
    exact (Terminal.isTokenText_of_spells hspells).not_isSpace_getLast c hlast
  | mark d =>
    obtain ⟨hmem, htext⟩ := hproper.mark hkind
    rw [htext] at hlast
    cases hlast
    exact hmarks _ hmem

/-- In front of what is written, the blank text is as long as possible. -/
lemma isGreatest_start {e : Written} {tail : List Char} (hlaid : Laid [e] tail)
    (hvisible : startsVisible (e.bare.text ++ tail) = true) (hne : e.bare.text ≠ []) :
    IsGreatest {p | IsBlank false ((e.text ++ tail).take p)} e.firstGap.length := by
  have hgap := isGap_firstGap hlaid
  have hquery : e.text ++ tail = e.firstGap ++ (e.bare.text ++ tail) := by
    rw [text_eq_append_bare e, List.append_assoc]
  rw [hquery]
  constructor
  · rw [Set.mem_ofPred_eq, List.take_left]
    exact isGap_iff_isBlank.1 hgap
  · intro p hp
    have hlength := blankLength_append_of_isGap (isGap_iff_isBlank.2 hp)
      ((e.firstGap ++ (e.bare.text ++ tail)).drop p)
    rw [List.take_append_drop, blankLength_append hgap hvisible, List.length_take,
      List.length_append, List.length_append] at hlength
    have hpos := List.length_pos_iff.2 hne
    omega

/-- Behind what is written, the blank text is as long as possible. -/
lemma isLeast_stop {e : Written} {tail : List Char} (htail : isTail tail = true)
    (hlaid : Laid [e] tail) :
    IsLeast {p | ScanState.outside.scan ((e.text ++ tail).take p) = .outside ∧
      IsBlank true ((e.text ++ tail).drop p)} e.text.length := by
  have hscan : ScanState.outside.scan e.text = .outside := by
    have hscanned := Lexeme.scan_writtenAll (Lexeme.LaidOut.proper hlaid)
    simpa [text, lexemesAll] using hscanned
  constructor
  · rw [Set.mem_ofPred_eq, List.take_left, List.drop_left]
    exact ⟨hscan, isTail_iff_isBlank.1 htail⟩
  · rintro p ⟨houtside, hblank⟩
    by_contra hlt
    have hle : p ≤ e.text.length := Nat.le_of_lt (Nat.lt_of_not_le hlt)
    rw [List.take_append_of_le_length hle] at houtside
    rw [List.drop_append_of_le_length hle] at hblank
    -- the rest of what is written would be a gap, and these end with whitespace
    have hrest : ScanState.outside.scan (e.text.drop p) = .outside := by
      rwa [← List.take_append_drop p e.text, ScanState.scan_append, houtside] at hscan
    have hgap := isGap_of_isTail (isTail_iff_isBlank.2 hblank) hrest
    have hne : e.text.drop p ≠ [] := by
      rw [ne_eq, List.drop_eq_nil_iff]
      exact hlt
    obtain ⟨c, hc⟩ := Option.ne_none_iff_exists'.1 (mt List.getLast?_eq_none_iff.1 hne)
    have hspace := isSpace_getLast_of_closesBlank hgap c hc
    rw [List.getLast?_drop, if_neg hlt] at hc
    have hvisible := not_isSpace_getLast hlaid c hc
    rw [hspace] at hvisible
    cases hvisible

/-- The node of a query covers it without the blank text at its two ends. -/
lemma isTrimmed_of_writes {depth : Nat} {e : Written} {n : Node} (he : e.Writes depth query)
    (hn : e.item 0 = .node n) : Extent.IsTrimmed query n.extent := by
  obtain ⟨tail, htail, hlaid, rfl⟩ := he.laidOut
  have hstart := start_item e 0
  have hstop := stop_item e 0
  rw [hn, Nat.zero_add] at hstart hstop
  have hfragment := Fragment.expression he.grammatical
  constructor
  · change IsGreatest _ (Item.node n).start
    rw [hstart]
    exact isGreatest_start hlaid (hfragment.startsVisible_bare hlaid) (hfragment.bare_ne_nil hlaid)
  · change IsLeast _ (Item.node n).stop
    rw [hstop]
    exact isLeast_stop htail hlaid

/-- The expression of an accepted query lies in it with all expressions inside it: each has a range
with its text, and the ranges of its children are in it, one behind the other.  The outermost range
is the query without the blank text around it exactly if the outermost node does not hand on the
expression of its operand. -/
theorem parse_located (h : (parseChars limits query).outcome = .ok a) :
    ∃ n s, Node.ofQuery? limits query = some ⟨.root, 0, query.length, [n]⟩ ∧ a.LiesAt query s ∧
      (s.IsTrimmed query ↔ ¬ n.HandsOn query) := by
  obtain ⟨e, n, hmeans⟩ := outcome_eq_ok_iff.1 h
  have hlies := Node.lies_of_writes hmeans.writes hmeans.item
  have hfor : Expr.StandsFor query n a :=
    ⟨isExpression_of_writes hmeans.writes hmeans.item, hmeans.result⟩
  obtain ⟨s, hs, -, hown, hhanded⟩ := Expr.liesIn_of_standsFor hlies n n.mem_preorder_self a hfor
  have htrimmed := isTrimmed_of_writes hmeans.writes hmeans.item
  refine ⟨n, s, (parse_of_writes hmeans.writes hmeans.item).1, hs, fun hs' hhands => ?_, fun hnot =>
    ?_⟩
  · exact absurd (hs'.stop.unique htrimmed.stop) (Nat.ne_of_lt (hhanded hhands))
  · rw [hown hnot]
    exact htrimmed

/-- The expression of `-(a)`. -/
def negatedParen : Expr := .unary "-(a)" "-" [.paren "(a)" [.vector "a" "a" [] none]]

/-- In ` -(a) #` the negation lies between the space in front and the comment behind. -/
theorem parse_located_negatedParen :
    (parseChars .usual [' ', '-', '(', 'a', ')', ' ', '#']).outcome = .ok negatedParen ∧
      ∃ n s, Node.ofQuery? .usual [' ', '-', '(', 'a', ')', ' ', '#'] = some ⟨.root, 0, 7, [n]⟩ ∧
        negatedParen.LiesAt [' ', '-', '(', 'a', ')', ' ', '#'] s ∧
        (s.IsTrimmed [' ', '-', '(', 'a', ')', ' ', '#'] ↔
          ¬ n.HandsOn [' ', '-', '(', 'a', ')', ' ', '#']) := by
  have h : (parseChars .usual [' ', '-', '(', 'a', ')', ' ', '#']).outcome = .ok negatedParen := rfl
  exact ⟨h, parse_located h⟩

end Query

end PromqlGuide
