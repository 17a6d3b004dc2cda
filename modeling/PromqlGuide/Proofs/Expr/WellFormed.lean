import PromqlGuide.Proofs.Expr.Source
import PromqlGuide.Proofs.Token.Scan
import PromqlGuide.Proofs.Tree.Read

/-!
# Well-formed expressions

The expression of a tree that is read from an accepted query is well formed all the way down, and
nothing is noted while it is made (`Expr.quiet_ofTree`): every part that the makers of expressions
look for is there.

Makers are followed step by step with `Noted.Quiet`, which passes from the parts of a maker to the
whole; for each kind of node there is one lemma, which takes the parts from the shape of the node.
-/
namespace PromqlGuide

open Text

namespace Noted

variable {α β : Type} {P : α → Prop} {Q : β → Prop} {m : Noted α}

/-- Whether nothing is noted, and a property holds of the value if there is one. -/
structure Quiet (P : α → Prop) (m : Noted α) : Prop where
  notes : m.notes = []
  value : ∀ a, m.result = .ok a → P a

/-- A value by itself notes nothing. -/
lemma quiet_pure {a : α} (h : P a) : Quiet P (pure a) := by
  refine ⟨rfl, ?_⟩
  rintro b ⟨⟩
  exact h

/-- A result notes nothing. -/
lemma quiet_of {result : Except NumeralTooLong α} (h : ∀ a, result = .ok a → P a) :
    Quiet P (of result) := ⟨rfl, h⟩

/-- Two computations note nothing if neither does. -/
lemma Quiet.bind {g : α → Noted β} (hm : Quiet P m) (hg : ∀ a, P a → Quiet Q (g a)) :
    Quiet Q (m >>= g) := by
  cases hresult : m.result with
  | error cause =>
    refine ⟨?_, fun b hb => ?_⟩
    · simp only [Bind.bind, hresult, hm.notes]
    · simp [Bind.bind, hresult] at hb
  | ok a =>
    have ha := hg a (hm.value a hresult)
    refine ⟨?_, fun b hb => ha.value b ?_⟩
    · simp only [Bind.bind, hresult, hm.notes, ha.notes, List.append_nil]
    · simpa [Bind.bind, hresult] using hb

/-- The value may be known to have a weaker property. -/
lemma Quiet.mono {P' : α → Prop} (hm : Quiet P m) (h : ∀ a, P a → P' a) : Quiet P' m :=
  ⟨hm.notes, fun a ha => h a (hm.value a ha)⟩

/-- Going through a list is quiet if each step is, and gives one value for each. -/
lemma quiet_all {ms : List (Noted α)} (h : ∀ m ∈ ms, Quiet P m) :
    Quiet (fun as => as.length = ms.length ∧ ∀ a ∈ as, P a) (all ms) := by
  induction ms with
  | nil => exact quiet_pure ⟨rfl, by simp⟩
  | cons m ms ih =>
    rw [List.forall_mem_cons] at h
    refine h.1.bind fun a ha => (ih h.2).bind fun as has => quiet_pure ?_
    exact ⟨by simp [has.1], List.forall_mem_cons.2 ⟨ha, has.2⟩⟩

end Noted

namespace Expr

open Noted

/-- Whether an expression is well formed, whatever those inside it are.  Only aggregations whose
text has nothing between the parentheses may be without an argument. -/
def IsWellFormed (emptied : String → Prop) : Expr → Prop
  | aggregation text _ _ _ children => children.length ≤ 1 ∧ (children = [] → emptied text)
  | binary _ operator operands => operands.length = 2 ∧ operator ≠ ""
  | vector _ _ _ offset => ∀ ms ∈ offset, ms ≠ 0
  | matrix _ _ _ range offset => 1 ≤ range ∧ ∀ ms ∈ offset, ms ≠ 0
  | subquery _ children range step =>
    children.length = 1 ∧ (∃ ms, range = some ms ∧ 1 ≤ ms) ∧ ∀ ms ∈ step, 1 ≤ ms
  | string text value =>
    ∃ quote ∈ ["\"", "'", "\x60"], text = quote ++ value ++ quote
  | paren _ children => children.length = 1
  | unary _ operator children => children.length = 1 ∧ (operator = "+" ∨ operator = "-")
  | call .. | number .. => True
  | unknown .. | bare .. => False

/-- Whether a property holds of an expression and all expressions inside it. -/
def Throughout (P : Expr → Prop) (a : Expr) : Prop :=
  ∀ depth place m, (place, m) ∈ a.preorder depth → P m

section

variable {P : Expr → Prop} {a : Expr}

/-- What holds throughout an expression holds of it. -/
lemma Throughout.self (h : Throughout P a) : P a := by
  refine h 0 0 a ?_
  rw [preorder_eq]
  exact List.mem_cons_self

/-- What holds of an expression and throughout its children holds throughout it. -/
lemma throughout (ha : P a) (hchildren : ∀ c ∈ a.children, Throughout P c) : Throughout P a := by
  intro depth place m hm
  rw [preorder_eq] at hm
  rcases List.mem_cons.1 hm with heq | hm
  · cases heq
    exact ha
  · obtain ⟨c, hc, hm⟩ := List.mem_flatMap.1 hm
    exact hchildren c hc _ _ _ hm

/-- What holds of an expression without children holds throughout it. -/
lemma throughout_leaf (ha : P a) (hchildren : a.children = []) : Throughout P a :=
  throughout ha (by simp [hchildren])

end

variable {query : List Char} {n : Node} {P : Expr → Prop}

/-! ### Parts -/

/-- A node with its expression. -/
def partOf (query : List Char) (n : Node) : Part := ⟨n, ofTree query n⟩

/-- Branches are the parts of the children. -/
lemma toPart_treeBranch (cs : List Node) :
    (cs.map (treeBranch query)).map Branch.toPart = cs.map (partOf query) := by
  rw [List.map_map]
  rfl

/-- The first branch of given kinds is that of the first child of these kinds. -/
lemma branch_treeBranch (cs : List Node) (kinds : List Kind) :
    branch? (cs.map (treeBranch query)) kinds =
      (cs.find? fun c => decide (c.kind ∈ kinds)).map (treeBranch query) := by
  rw [branch?, List.find?_map]
  rfl

/-- The first operand is the expression of the first child that stands for one. -/
lemma firstOperand_partOf (cs : List Node) :
    firstOperand? (cs.map (partOf query)) =
      (cs.find? fun c => c.kind.isExpression).map (partOf query) := by
  rw [firstOperand?, List.find?_map]
  rfl

/-- The operands are the expressions of the children that stand for one. -/
lemma operands_partOf (cs : List Node) :
    operands (cs.map (partOf query)) =
      Noted.all ((cs.filter fun c => c.kind.isExpression).map (ofTree query)) := by
  rw [operands, List.filter_map, List.map_map]
  rfl

/-- If the expressions of the children note nothing, neither do the operands. -/
lemma quiet_operands {cs : List Node}
    (h : ∀ c ∈ cs, c.kind.isExpression = true → Quiet (Throughout P) (ofTree query c)) :
    Quiet (fun es => es.length = (cs.filter fun c => c.kind.isExpression).length ∧
      ∀ e ∈ es, Throughout P e) (operands (cs.map (partOf query))) := by
  rw [operands_partOf]
  refine (quiet_all (P := Throughout P) ?_).mono fun es hes => ⟨by simpa using hes.1, hes.2⟩
  rw [List.forall_mem_map]
  intro c hc
  obtain ⟨hmem, hexpr⟩ := List.mem_filter.1 hc
  exact h c hmem hexpr

/-- If the expression of a child notes nothing, neither does the operand, if there is one. -/
lemma quiet_atMostOne {o : Option Node} (h : ∀ c ∈ o, Quiet (Throughout P) (ofTree query c)) :
    Quiet (fun es => es.length = o.toList.length ∧ ∀ e ∈ es, Throughout P e)
      (atMostOne (o.map (partOf query))) := by
  cases o with
  | none => exact quiet_pure ⟨rfl, by simp⟩
  | some c =>
    refine (h c rfl).bind fun e he => quiet_pure ⟨rfl, ?_⟩
    simpa using he

/-- A duration notes nothing and is at least one millisecond. -/
lemma quiet_duration (c : Node) : Quiet (fun ms => 1 ≤ ms) (duration query c) :=
  quiet_of fun _ => Duration.one_le_of_read

/-- A duration, if there is one, notes nothing and is at least one millisecond. -/
lemma quiet_duration? (o : Option Node) :
    Quiet (fun ms? => (o.isSome = true → ms?.isSome = true) ∧ ∀ ms ∈ ms?, 1 ≤ ms)
      (duration? query o) := by
  cases o with
  | none => exact quiet_pure ⟨nofun, by simp⟩
  | some c =>
    refine (quiet_duration c).bind fun ms hms => quiet_pure ⟨fun _ => rfl, ?_⟩
    rintro _ ⟨⟩
    exact_mod_cast hms

/-! ### Label matchers -/

/-- No label matcher that is read is incomplete. -/
lemma isSome_matcher {c : Node} (hread : c.IsRead query)
    (hkind : c.kind = .phrase .unquotedMatcher ∨ c.kind = .phrase .quotedMatcher) :
    (c.matcher? query).isSome = true := by
  have hparts : (∃ name, c.matcherName? query = some name) ∧
      ∃ value, c.child? [.leaf .string] = some value := by
    rcases hkind with hkind | hkind
    · have hkinds : c.children.map Node.kind = _ := hread.areParts hkind
      obtain ⟨name, hname⟩ := Node.exists_child (n := c) (.leaf .labelName) [.leaf .labelName]
        (by simp [hkinds]) (by simp)
      refine ⟨⟨name.text query, by rw [Node.matcherName?, hname]⟩, ?_⟩
      exact Node.exists_child (.leaf .string) [.leaf .string] (by simp [hkinds]) (by simp)
    · have hkinds : c.children.map Node.kind = _ := hread.areParts hkind
      obtain ⟨name, hname⟩ := Node.exists_child (n := c) (.phrase .quotedName) [.phrase .quotedName]
        (by simp [hkinds]) (by simp)
      constructor
      · rw [Node.matcherName?]
        cases c.child? [.leaf .labelName] with
        | some label => exact ⟨_, rfl⟩
        | none => exact ⟨Text.inner (name.text query), by rw [hname]; rfl⟩
      · exact Node.exists_child (.leaf .string) [.leaf .string] (by simp [hkinds]) (by simp)
  obtain ⟨⟨name, hname⟩, value, hvalue⟩ := hparts
  simp [Node.matcher?, hname, hvalue]

/-- The matchers of a selector that is read note nothing. -/
lemma quiet_selectorMatchers {v : Node} (hread : ∀ s ∈ v.preorder, s.IsRead query) :
    Quiet (fun _ => True) (selectorMatchers query v) := by
  unfold selectorMatchers
  split
  · exact quiet_pure trivial
  · next block hblock =>
    obtain ⟨hmem, hkind⟩ := Node.mem_of_child hblock
    rw [List.mem_singleton] at hkind
    have hinside : ∀ s ∈ block.preorder, s.IsRead query := fun s hs =>
      hread s (Node.mem_preorder_iff.2 (Or.inr ⟨block, hmem, hs⟩))
    refine ⟨?_, fun _ _ => trivial⟩
    -- Nothing is noted, since the matchers in a block are complete.
    rw [Node.matchers, List.map_eq_nil_iff, List.filter_eq_nil_iff]
    intro c hc
    obtain ⟨hchild, hmatcher⟩ := List.mem_filter.1 hc
    have hkinds := (hinside block block.mem_preorder_self).areParts hkind c hchild
    simp only [List.mem_cons, List.not_mem_nil, or_false] at hkinds
    have hread : c.IsRead query :=
      hinside c (Node.mem_preorder_iff.2 (Or.inr ⟨c, hchild, c.mem_preorder_self⟩))
    have hsome : (c.matcher? query).isSome = true := by
      rcases hkinds with hkind | hkind | hkind
      · exact isSome_matcher hread (Or.inl hkind)
      · exact isSome_matcher hread (Or.inr hkind)
      · rw [hkind] at hmatcher
        cases hmatcher
    simp [Option.isNone_iff_eq_none, Option.isSome_iff_ne_none.1 hsome]

/-! ### Kinds of nodes -/

section

variable {emptied : String → Prop}

/-- Whether an expression is well formed all the way down. -/
def WellFormed (emptied : String → Prop) : Expr → Prop := Throughout (IsWellFormed emptied)

/-- What is known of a node when its expression is made: the nodes of its tree are as the reader
leaves them, and the expressions of those below it are made already. -/
structure Ready (query : List Char) (emptied : String → Prop) (n : Node) : Prop where
  read : ∀ s ∈ n.preorder, s.IsRead query
  below : ∀ c ∈ n.children, ∀ k ∈ c.preorder, k.kind.isExpression = true →
    Quiet (WellFormed emptied) (ofTree query k)

/-- The node itself is as the reader leaves it. -/
lemma Ready.self (h : Ready query emptied n) : n.IsRead query := h.read n n.mem_preorder_self

/-- The trees of its children are as the reader leaves them. -/
lemma Ready.child (h : Ready query emptied n) {c : Node} (hc : c ∈ n.children) :
    ∀ s ∈ c.preorder, s.IsRead query := fun s hs =>
  h.read s (Node.mem_preorder_iff.2 (Or.inr ⟨c, hc, hs⟩))

/-- The expression of a child is made already. -/
lemma Ready.operand (h : Ready query emptied n) {c : Node} (hc : c ∈ n.children)
    (hexpr : c.kind.isExpression = true) : Quiet (WellFormed emptied) (ofTree query c) :=
  h.below c hc c c.mem_preorder_self hexpr

/-- The expression of an argument is made already. -/
lemma Ready.argument (h : Ready query emptied n) {c g : Node} (hc : c ∈ n.children)
    (hg : g ∈ c.children) (hexpr : g.kind.isExpression = true) :
    Quiet (WellFormed emptied) (ofTree query g) :=
  h.below c hc g (Node.mem_preorder_iff.2 (Or.inr ⟨g, hg, g.mem_preorder_self⟩)) hexpr

/-- The list of arguments of a call or an aggregation is found, and holds only expressions. -/
lemma exists_body (h : Ready query emptied n)
    (hbody : Kind.phrase .callBody ∈ n.children.map Node.kind) :
    ∃ body ∈ n.children, body.kind = .phrase .callBody ∧
      branch? (n.children.map (treeBranch query)) [.phrase .callBody] =
        some (treeBranch query body) ∧ ∀ g ∈ body.children, g.kind.isExpression = true := by
  obtain ⟨body, hfound⟩ := Node.exists_child _ [.phrase .callBody] hbody (by simp)
  obtain ⟨hmem, hkind⟩ := Node.mem_of_child hfound
  rw [List.mem_singleton] at hkind
  refine ⟨body, hmem, hkind, ?_, (h.child hmem body body.mem_preorder_self).areParts hkind⟩
  rw [branch_treeBranch]
  exact congrArg (Option.map (treeBranch query)) hfound

/-- Making an aggregation notes nothing, and only one whose parentheses are empty lacks an
argument. -/
lemma quiet_ofAggregation (h : Ready query emptied n) (hkind : n.kind = .phrase .aggregation)
    (hemptied : ∀ body ∈ n.children, body.kind = .phrase .callBody →
      body.HasEmptyParentheses query → emptied (textOf query n)) :
    Quiet (WellFormed emptied) (ofAggregation query n (n.children.map (treeBranch query))) := by
  have hparts := h.self.areParts hkind
  simp only [Node.AreParts, List.mem_cons, List.not_mem_nil, or_false] at hparts
  obtain ⟨body, hmem, hbody, hbranch, hexpr⟩ :=
    exists_body h (by rcases hparts with h | h | h <;> simp [h])
  unfold ofAggregation
  rw [hbranch]
  cases hchildren : body.children with
  | nil =>
    have hempty := (h.child hmem body body.mem_preorder_self).empty hbody hchildren
    have hfirst : ((some (treeBranch query body)).bind fun b => b.parts.head?) = none := by
      simp [treeBranch, hchildren]
    rw [hfirst]
    exact quiet_pure
      (throughout ⟨Nat.zero_le _, fun _ => hemptied body hmem hbody hempty⟩ (by simp [children]))
  | cons g gs =>
    have hg : g ∈ body.children := by simp [hchildren]
    have hfirst : ((some (treeBranch query body)).bind fun b => b.parts.head?).filter
        (fun p => p.node.kind.isExpression) = (some g).map (partOf query) := by
      simp [treeBranch, hchildren, partOf, hexpr g hg]
    simp only [hfirst]
    refine (quiet_atMostOne (P := IsWellFormed emptied) ?_).bind fun es hes =>
      quiet_pure (throughout ?_ hes.2)
    · rintro _ ⟨⟩
      exact h.argument hmem hg (hexpr g hg)
    · exact ⟨Nat.le_of_eq hes.1, fun hnil => by simp [hnil] at hes⟩

/-- Making a call notes nothing. -/
lemma quiet_ofCall (h : Ready query emptied n) (hkind : n.kind = .phrase .call) :
    Quiet (WellFormed emptied) (ofCall query n (n.children.map (treeBranch query))) := by
  have hkinds : n.children.map Node.kind = _ := h.self.areParts hkind
  obtain ⟨body, hmem, -, hbranch, -⟩ := exists_body h (by simp [hkinds])
  unfold ofCall
  rw [hbranch]
  refine (quiet_operands fun g hg hexpr => h.argument hmem hg hexpr).bind fun es hes => ?_
  exact quiet_pure (throughout trivial hes.2)

/-- An operator with a level is a leaf and stands for no expression. -/
lemma isOperator_of_level {o : Node} {k : Nat} (h : o.operatorLevel? = some k) :
    o.kind.isOperator = true ∧ o.kind.isExpression = false ∧ ∃ t, o.kind = .leaf t := by
  unfold Node.operatorLevel? at h
  split at h
  · next t hkind =>
    rw [hkind]
    refine ⟨?_, ?_, t, rfl⟩
    · unfold Written.operatorLevel? at h
      split at h <;> simp_all [Kind.isOperator]
    · unfold Written.operatorLevel? at h
      split at h <;> simp_all [Kind.isExpression]
  · cases h

/-- Between the operands of an operation there is one operator, and its modifiers count for
nothing. -/
lemma exists_operator {ns : List Node} (h : Node.IsOperation ns) :
    ∃ operator ∈ ns, (∃ k, operator.operatorLevel? = some k) ∧
      (ns.filter fun c => !c.kind.isExpression && c.kind.isOperator) = [operator] ∧
      (ns.filter fun c => c.kind.isExpression).length = 2 := by
  obtain ⟨left, operator, modifiers, right, k, rfl, hleft, hright, hlevel, -, hmodifiers⟩ := h
  obtain ⟨hoperator, hnone, -⟩ := isOperator_of_level hlevel
  have hkinds : ∀ c ∈ modifiers, c.kind = .leaf (.keyword .bool) ∨ c.kind = .phrase .matching := by
    intro c hc
    have hmem := List.mem_map_of_mem (f := Node.kind) hc
    simp only [List.mem_cons, List.not_mem_nil, or_false] at hmodifiers
    rcases hmodifiers with heq | heq | heq | heq <;> rw [heq] at hmem <;> simp at hmem <;> tauto
  have hidle : ∀ c ∈ modifiers, c.kind.isOperator = false ∧ c.kind.isExpression = false := by
    intro c hc
    rcases hkinds c hc with hkind | hkind <;> rw [hkind] <;> exact ⟨rfl, rfl⟩
  refine ⟨operator, by simp, ⟨k, hlevel⟩, ?_, ?_⟩
  · have hmore : (modifiers.filter fun c => !c.kind.isExpression && c.kind.isOperator) = [] :=
      List.filter_eq_nil_iff.2 fun c hc => by simp [hidle c hc]
    simp [hleft, hright, hoperator, hnone, hmore]
  · have hmore : (modifiers.filter fun c => c.kind.isExpression) = [] :=
      List.filter_eq_nil_iff.2 fun c hc => by simp [hidle c hc]
    simp [hleft, hright, hnone, hmore]

/-- Making a binary expression notes nothing. -/
lemma quiet_ofBinary (h : Ready query emptied n) (hkind : n.kind = .phrase .binary) :
    Quiet (WellFormed emptied) (ofBinary query n (n.children.map (treeBranch query))) := by
  obtain ⟨operator, hmem, ⟨k, hlevel⟩, hoperators, hlength⟩ :=
    exists_operator (h.self.areParts hkind)
  obtain ⟨-, -, t, hleaf⟩ := isOperator_of_level hlevel
  have hspells := (h.child hmem operator operator.mem_preorder_self).spelled t hleaf
  have hne : textOf query operator ≠ "" := by
    intro heq
    exact Terminal.ne_nil_of_spells hspells (by simpa [textOf] using heq)
  unfold ofBinary
  rw [toPart_treeBranch]
  refine (quiet_operands fun c hc hexpr => h.operand hc hexpr).bind fun es hes => ?_
  have htwo : es.length = 2 := hes.1.trans hlength
  simp only [htwo, ne_eq, not_true_eq_false, if_false, hoperators]
  exact quiet_pure (throughout ⟨htwo, hne⟩ hes.2)

/-- Making a selector notes nothing. -/
lemma quiet_ofVector (h : Ready query emptied n) :
    Quiet (WellFormed emptied) (ofVector query n) := by
  refine (quiet_selectorMatchers h.read).bind fun matchers _ => quiet_pure ?_
  exact throughout_leaf (by simp [IsWellFormed]) rfl

/-- A postfix applies to the first of the children, which is the only expression among them. -/
lemma exists_base {after : List (List Kind)} {ns : List Node} (h : Node.HasBase after ns)
    (hafter : ∀ kinds ∈ after, ∀ k ∈ kinds, k.isExpression = false) :
    ∃ base more, ns = base :: more ∧ base.kind.isExpression = true ∧ more.map Node.kind ∈ after ∧
      (ns.find? fun c => c.kind.isExpression) = some base ∧
      (ns.filter fun c => c.kind.isExpression) = [base] := by
  obtain ⟨base, more, rfl, hbase, -, hmore⟩ := h
  have hnone : (more.filter fun c => c.kind.isExpression) = [] := by
    rw [List.filter_eq_nil_iff]
    intro c hc
    simp [hafter _ hmore c.kind (List.mem_map_of_mem hc)]
  exact ⟨base, more, rfl, hbase, hmore, by simp [hbase], by simp [hbase, hnone]⟩

/-- Making a range notes nothing. -/
lemma quiet_ofMatrix (h : Ready query emptied n) (hkind : n.kind = .phrase .matrixSelector) :
    Quiet (WellFormed emptied) (ofMatrix query n (n.children.map (treeBranch query))) := by
  obtain ⟨base, more, hchildren, hbase, hmore, -⟩ := exists_base (h.self.areParts hkind) (by decide)
  have hduration : ∃ d, n.child? [.leaf .duration, .durationOperand] = some d := by
    refine Node.exists_child (.leaf .duration) _ ?_ (by simp)
    simp only [List.mem_singleton] at hmore
    simp [hchildren, hmore]
  obtain ⟨d, hd⟩ := hduration
  unfold ofMatrix
  rw [hd]
  refine (quiet_duration d).bind fun range hrange => ?_
  have hpositive : (1 : Int) ≤ range := by exact_mod_cast hrange
  split
  · next v hv =>
    refine (quiet_selectorMatchers (h.child (Node.mem_of_child hv).1)).bind fun matchers _ => ?_
    exact quiet_pure (throughout_leaf ⟨hpositive, by simp⟩ rfl)
  · split
    · next inner hinner =>
      rw [branch_treeBranch] at hinner
      obtain ⟨c, hc, rfl⟩ := Option.map_eq_some_iff.1 hinner
      have hcall : c.kind = .phrase .call := by simpa using List.find?_some hc
      exact h.operand (List.mem_of_find?_eq_some hc) (by rw [hcall]; rfl)
    · exact quiet_pure (throughout_leaf ⟨hpositive, by simp⟩ rfl)

/-- Making a subquery notes nothing. -/
lemma quiet_ofSubquery (h : Ready query emptied n) (hkind : n.kind = .phrase .subquery) :
    Quiet (WellFormed emptied) (ofSubquery query n (n.children.map (treeBranch query))) := by
  obtain ⟨base, more, hchildren, hbase, hmore, hfirst, -⟩ :=
    exists_base (h.self.areParts hkind) (by decide)
  have hduration : ((n.childrenOf (.leaf .duration))[0]?).isSome = true := by
    have hnone : base.kind ≠ .leaf .duration := fun heq => by rw [heq] at hbase; cases hbase
    simp only [List.mem_cons, List.not_mem_nil, or_false] at hmore
    have hmem : ∃ d ∈ n.children, d.kind = .leaf .duration := by
      have hkinds : Kind.leaf .duration ∈ n.children.map Node.kind := by
        rcases hmore with heq | heq <;> simp [hchildren, heq]
      simpa using hkinds
    obtain ⟨d, hd, hdkind⟩ := hmem
    have hfound : d ∈ n.childrenOf (.leaf .duration) := List.mem_filter.2 ⟨hd, by simp [hdkind]⟩
    simpa using List.length_pos_of_mem hfound
  unfold ofSubquery
  rw [toPart_treeBranch, firstOperand_partOf, hfirst]
  have hoperand : ∀ c ∈ some base, Quiet (WellFormed emptied) (ofTree query c) := by
    rintro _ ⟨⟩
    exact h.operand (by simp [hchildren]) hbase
  refine (quiet_atMostOne hoperand).bind fun es hes => ?_
  refine (quiet_duration? _).bind fun range hrange => ?_
  refine (quiet_duration? _).bind fun step hstep => quiet_pure (throughout ?_ hes.2)
  obtain ⟨ms, hms⟩ := Option.isSome_iff_exists.1 (hrange.1 hduration)
  exact ⟨hes.1, ⟨ms, hms, hrange.2 ms hms⟩, hstep.2⟩

/-- Making parentheses notes nothing. -/
lemma quiet_ofParen (h : Ready query emptied n) (hkind : n.kind = .phrase .paren) :
    Quiet (WellFormed emptied) (ofParen query n (n.children.map (treeBranch query))) := by
  obtain ⟨e, hchildren, hexpr⟩ := h.self.areParts hkind
  have hfirst : (n.children.find? fun c => c.kind.isExpression) =
    some e := by simp [hchildren, hexpr]
  unfold ofParen
  rw [toPart_treeBranch, firstOperand_partOf, hfirst]
  have hoperand : ∀ c ∈ some e, Quiet (WellFormed emptied) (ofTree query c) := by
    rintro _ ⟨⟩
    exact h.operand (by simp [hchildren]) hexpr
  exact (quiet_atMostOne hoperand).bind fun es hes => quiet_pure (throughout hes.1 hes.2)

/-- Making a unary expression notes nothing. -/
lemma quiet_ofUnary (h : Ready query emptied n) (hkind : n.kind = .phrase .unary) :
    Quiet (WellFormed emptied) (ofUnary query n (n.children.map (treeBranch query))) := by
  obtain ⟨sign, operand, hchildren, hsign, hexpr, -⟩ := h.self.areParts hkind
  have hread := h.child (c := sign) (by simp [hchildren]) sign sign.mem_preorder_self
  have hsigned : sign.kind.isExpression = false ∧
      (textOf query sign = "+" ∨ textOf query sign = "-") := by
    simp only [List.mem_cons, List.not_mem_nil, or_false] at hsign
    rcases hsign with hkind | hkind
    · have hspells := beq_iff_eq.1 (hread.spelled _ hkind)
      rw [hkind, textOf, Terminal.literalLength_iff.1 hspells]
      exact ⟨rfl, Or.inr rfl⟩
    · have hspells := beq_iff_eq.1 (hread.spelled _ hkind)
      rw [hkind, textOf, Terminal.literalLength_iff.1 hspells]
      exact ⟨rfl, Or.inl rfl⟩
  have hone : (n.children.filter fun c => c.kind.isExpression).length = 1 := by
    simp [hchildren, hsigned.1, hexpr]
  have hsigns : (n.children.filter fun c =>
      c.kind = .leaf (.symbol .add) || c.kind = .leaf (.symbol .sub)) = [sign] := by
    have hnone : ¬ (operand.kind = .leaf (.symbol .add) ∨ operand.kind = .leaf (.symbol .sub)) := by
      rintro (heq | heq) <;> rw [heq] at hexpr <;> cases hexpr
    simp only [List.mem_cons, List.not_mem_nil, or_false] at hsign
    simp only [hchildren, List.filter_cons, List.filter_nil]
    rcases hsign with hkind | hkind <;> simp [hkind, not_or.1 hnone]
  unfold ofUnary
  rw [toPart_treeBranch]
  refine (quiet_operands fun c hc hexpr => h.operand hc hexpr).bind fun es hes => ?_
  rw [hsigns]
  exact quiet_pure (throughout ⟨hes.1.trans hone, hsigned.2⟩ hes.2)

/-- Making an expression of a node that is pinned to a time notes nothing. -/
lemma quiet_ofOther (h : Ready query emptied n) (hkind : n.kind = .phrase .pinned) :
    Quiet (WellFormed emptied) (ofOther query n (n.children.map (treeBranch query))) := by
  obtain ⟨base, more, -, -, -, -, hfilter⟩ := exists_base (h.self.areParts hkind) (by decide)
  unfold ofOther
  rw [toPart_treeBranch]
  refine (quiet_operands fun c hc hexpr => h.operand hc hexpr).bind fun es hes => ?_
  obtain ⟨e, rfl⟩ := List.length_eq_one_iff.1 (hes.1.trans (congrArg List.length hfilter))
  exact quiet_pure (hes.2 e (by simp))

/-- A selector that is shifted keeps a range, and its shift is not zero. -/
lemma wellFormed_shifted {text : String} {offset : Int} {e e' : Expr} (he : WellFormed emptied e)
    (hoffset : offset ≠ 0) (h : shifted? text offset e = some e') : WellFormed emptied e' := by
  have hself := he.self
  cases e <;> simp only [shifted?, Option.some.injEq, reduceCtorEq] at h
  · subst h
    exact throughout_leaf (by simpa [IsWellFormed] using hoffset) rfl
  · subst h
    exact throughout_leaf ⟨hself.1, by simpa using hoffset⟩ rfl

/-- Making an offset notes nothing. -/
lemma quiet_ofOffset (h : Ready query emptied n) (hkind : n.kind = .phrase .offset) :
    Quiet (WellFormed emptied) (ofOffset query n (n.children.map (treeBranch query))) := by
  obtain ⟨base, more, hchildren, hbase, -, hfirst, -⟩ :=
    exists_base (h.self.areParts hkind) (by decide)
  unfold ofOffset
  rw [toPart_treeBranch, firstOperand_partOf, hfirst]
  refine (h.operand (c := base) (by simp [hchildren]) hbase).bind fun inner hinner => ?_
  split
  · next d _ _ _ =>
    refine (quiet_duration d).bind fun ms hms => quiet_pure ?_
    have hne : (if (n.child? [.leaf (.symbol .sub)]).isSome then -(ms : Int) else ms) ≠ 0 := by
      split <;> omega
    cases hshifted : shifted? (textOf query n)
        (if (n.child? [.leaf (.symbol .sub)]).isSome then -(ms : Int) else ms) inner with
    | none => exact hinner
    | some e => exact wellFormed_shifted hinner hne hshifted
  · exact quiet_pure hinner

/-- A string node stands for the string between its quotes. -/
lemma wellFormed_string (hread : n.IsRead query) (hkind : n.kind = .leaf .string) :
    WellFormed emptied (.string (textOf query n) (String.ofList (Text.inner (n.text query)))) := by
  obtain ⟨quote, hquote, body, htext⟩ :=
    Quoted.exists_quote_of_tokenLength (beq_iff_eq.1 (hread.spelled _ hkind))
  have hinner : Text.inner (n.text query) = body := by
    rw [htext, Text.inner]
    simp
  refine throughout_leaf ⟨String.ofList [quote], ?_, ?_⟩ rfl
  · simp only [List.mem_cons, List.not_mem_nil, or_false] at hquote ⊢
    rcases hquote with rfl | rfl | rfl <;> decide
  · rw [hinner, textOf, htext, ← String.ofList_append, ← String.ofList_append]
    rfl

/-- Whether a text is that of an aggregation in a tree that has nothing between its parentheses. -/
def IsEmptied (query : List Char) (root : Node) (text : String) : Prop :=
  ∃ s ∈ root.preorder, s.kind = .phrase .aggregation ∧ textOf query s = text ∧
    ∃ body ∈ s.children, body.kind = .phrase .callBody ∧ body.HasEmptyParentheses query

/-- The expression of a node that is ready is well formed, and nothing is noted. -/
lemma quiet_of_ready {root : Node} (h : Ready query (IsEmptied query root) n)
    (hroot : n ∈ root.preorder) (hexpr : n.kind.isExpression = true) :
    Quiet (WellFormed (IsEmptied query root)) (ofTree query n) := by
  have hshape := h.self.shape
  rw [ofTree_eq_ofBranches]
  unfold ofBranches
  cases hkind : n.kind with
  | leaf t =>
    rw [hkind] at hexpr
    cases t with
    | number => exact quiet_pure (throughout_leaf trivial rfl)
    | string => exact quiet_pure (wellFormed_string h.self hkind)
    | _ => cases hexpr
  | phrase p =>
    rw [hkind] at hexpr
    cases p with
    | aggregation =>
      exact quiet_ofAggregation h hkind fun body hmem hbody hempty =>
        ⟨n, hroot, hkind, rfl, body, hmem, hbody, hempty⟩
    | call => exact quiet_ofCall h hkind
    | binary => exact quiet_ofBinary h hkind
    | vectorSelector => exact quiet_ofVector h
    | matrixSelector => exact quiet_ofMatrix h hkind
    | subquery => exact quiet_ofSubquery h hkind
    | offset => exact quiet_ofOffset h hkind
    | paren => exact quiet_ofParen h hkind
    | unary => exact quiet_ofUnary h hkind
    | pinned => exact quiet_ofOther h hkind
    | _ => cases hexpr
  | _ => simp [Node.HasShape, Kind.isExpression, hkind] at hshape hexpr

/-- The expression of a tree that is read is well formed all the way down, and nothing is noted
while it is made. -/
theorem quiet_ofTree {root : Node} (hread : ∀ s ∈ root.preorder, s.IsRead query)
    (hexpr : root.kind.isExpression = true) :
    Quiet (WellFormed (IsEmptied query root)) (ofTree query root) := by
  -- Makers reach down to the children's children, so the induction is for all nodes of a tree.
  have all : ∀ n : Node, (∀ s ∈ n.preorder, s ∈ root.preorder) → ∀ k ∈ n.preorder,
      k.kind.isExpression = true → Quiet (WellFormed (IsEmptied query root)) (ofTree query k) := by
    intro n
    induction n using Node.inductionOn with
    | step n ih =>
      intro hin k hk hexpr
      have below : ∀ c ∈ n.children, ∀ k ∈ c.preorder, k.kind.isExpression = true →
          Quiet (WellFormed (IsEmptied query root)) (ofTree query k) := by
        intro c hc
        refine ih c hc fun s hs => hin s ?_
        exact Node.mem_preorder_iff.2 (Or.inr ⟨c, hc, hs⟩)
      rcases Node.mem_preorder_iff.1 hk with rfl | ⟨c, hc, hk⟩
      · exact quiet_of_ready ⟨fun s hs => hread s (hin s hs), below⟩
          (hin k k.mem_preorder_self) hexpr
      · exact below c hc k hk hexpr
  exact all root (fun _ hs => hs) root root.mem_preorder_self hexpr

end

end Expr

end PromqlGuide
