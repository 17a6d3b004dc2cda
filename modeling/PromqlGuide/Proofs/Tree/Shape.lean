import PromqlGuide.Expr.OfTree
import PromqlGuide.Proofs.Grammar.Accepted
import PromqlGuide.Proofs.Written.Subtree

/-!
# The shape of syntax trees

Which children a node of each kind has, with the precedences of operands (`Node.HasShape`).  Every
node of a tree that is read from an accepted query has its shape (`Node.hasShape_of_ofQuery`).
-/
namespace PromqlGuide

open Text Written

namespace Node

/-- The level of the operator that a node is, if it is one. -/
def operatorLevel? (n : Node) : Option Nat :=
  match n.kind with
  | .leaf t => Written.operatorLevel? (.token t)
  | _ => none

/-- The level of a node: how tightly its outermost operator binds.  The levels are those of written
expressions. -/
def level (n : Node) : Nat :=
  match n.kind, n.children with
  | .phrase .binary, _ :: operator :: _ => operator.operatorLevel?.getD 7
  | .phrase .unary, _ => 5
  | _, _ => 7

/-- Whether nodes are an expression that binds as tightly as a postfix needs it, and further nodes
of certain kinds. -/
def HasBase (after : List (List Kind)) (ns : List Node) : Prop :=
  ∃ base more, ns = base :: more ∧ base.kind.isExpression = true ∧ 7 ≤ base.level ∧
    more.map kind ∈ after

/-- Whether nodes are an operator, its modifiers, and operands on both sides that fit. -/
def IsOperation (ns : List Node) : Prop :=
  ∃ left operator modifiers right k, ns = left :: operator :: modifiers ++ [right] ∧
    left.kind.isExpression = true ∧ right.kind.isExpression = true ∧
    operator.operatorLevel? = some k ∧ Fits k left.level right.level ∧
    modifiers.map kind ∈ [[], [.leaf (.keyword .bool)], [.phrase .matching],
      [.leaf (.keyword .bool), .phrase .matching]]

/-- The children that a phrase may have. -/
def AreParts : Phrase → List Node → Prop
  | .binary, ns => IsOperation ns
  | .unary, ns => ∃ sign operand, ns = [sign, operand] ∧
      sign.kind ∈ [.leaf (.symbol .sub), .leaf (.symbol .add)] ∧
      operand.kind.isExpression = true ∧ 5 ≤ operand.level
  | .paren, ns => ∃ e, ns = [e] ∧ e.kind.isExpression = true
  | .matrixSelector, ns => HasBase [[.leaf .duration]] ns
  | .subquery, ns => HasBase [[.leaf .duration], [.leaf .duration, .leaf .duration]] ns
  | .offset, ns => HasBase [[.leaf (.keyword .offset), .leaf .duration],
      [.leaf (.keyword .offset), .leaf (.symbol .sub), .leaf .duration]] ns
  | .pinned, ns => HasBase [[.leaf (.symbol .atSign), .leaf .timestamp],
      [.leaf (.symbol .atSign), .leaf .startOrEnd]] ns
  | .call, ns => ns.map kind = [.leaf .functionName, .phrase .callBody]
  | .callBody, ns => ∀ n ∈ ns, n.kind.isExpression = true
  | .aggregation, ns => ns.map kind ∈ [[.leaf .aggregationOperator, .phrase .callBody],
      [.leaf .aggregationOperator, .phrase .modifier, .phrase .callBody],
      [.leaf .aggregationOperator, .phrase .callBody, .phrase .modifier]]
  | .modifier, ns => ns.map kind ∈ [[.leaf (.keyword .byWord), .phrase .groupingLabels],
      [.leaf (.keyword .without), .phrase .groupingLabels]]
  | .groupingLabels, ns => ∀ n ∈ ns, n.kind = .leaf .labelName
  | .vectorSelector, ns => ns.map kind ∈ [[.leaf .metricName],
      [.leaf .metricName, .phrase .labelMatchers], [.phrase .labelMatchers]]
  | .labelMatchers, ns => ∀ n ∈ ns,
      n.kind ∈ [.phrase .unquotedMatcher, .phrase .quotedMatcher, .phrase .quotedName]
  | .unquotedMatcher, ns => ns.map kind = [.leaf .labelName, .leaf .matchOperator, .leaf .string]
  | .quotedMatcher, ns => ns.map kind = [.phrase .quotedName, .leaf .matchOperator, .leaf .string]
  | .quotedName, ns => ns.map kind = [.leaf .string]
  | .matching, ns => ∃ word ∈ [Keyword.on, .ignoring], ∃ group ∈ [[], [.leaf (.keyword .groupLeft)],
      [.leaf (.keyword .groupRight)], [.leaf (.keyword .groupLeft), .phrase .groupingLabels],
      [.leaf (.keyword .groupRight), .phrase .groupingLabels]],
      ns.map kind = .leaf (.keyword word) :: .phrase .groupingLabels :: group

/-- Whether the children of a node are those that its kind may have. -/
def HasShape (n : Node) : Prop :=
  match n.kind with
  | .root => n.children = [] ∨ ∃ e, n.children = [e] ∧ e.kind.isExpression = true
  | .leaf _ => n.children = []
  | .phrase p => AreParts p n.children
  | _ => False

end Node

/-! ### Nodes of written trees -/

namespace Written

/-- The kind of the node that a tree stands for, unless it is a mark. -/
def kind? : Written → Option Kind
  | lexeme l =>
    match l.kind with
    | .token t => some (.leaf t)
    | .mark _ => none
  | phrase p _ => some (.phrase p)

/-- A lexeme stands for a leaf only if it is a token. -/
lemma exists_token_of_kind {l : Lexeme} {k : Kind} (h : (lexeme l).kind? = some k) :
    ∃ t, l.kind = .token t ∧ k = .leaf t := by
  simp only [kind?] at h
  split at h
  · next t heq => exact ⟨t, heq, (Option.some.inj h).symm⟩
  · cases h

/-- The nodes that trees stand for. -/
def nodes (position : Nat) (ws : List Written) : List Node :=
  (items position ws).filterMap Item.node?

variable {w : Written} {ws : List Written} {position : Nat} {n : Node}

/-- A tree stands for a node of its kind. -/
lemma kind_of_item (h : w.item position = .node n) : w.kind? = some n.kind := by
  cases w with
  | lexeme l =>
    obtain ⟨⟨kind, text⟩, gap⟩ := l
    cases kind <;> cases h
    rfl
  | phrase p parts =>
    cases h
    rfl

/-- A tree without kind stands for no node. -/
lemma node?_item_eq_none (h : w.kind? = none) : (w.item position).node? = none := by
  cases hitem : w.item position with
  | node n => rw [kind_of_item hitem] at h; cases h
  | mark => rfl

/-- A tree with a kind stands for a node of that kind. -/
lemma exists_item_of_kind {k : Kind} (h : w.kind? = some k) (position : Nat) :
    ∃ n, w.item position = .node n ∧ n.kind = k := by
  have hnode : w.isNode = true := by
    cases w with
    | lexeme l =>
      obtain ⟨t, ht, -⟩ := exists_token_of_kind h
      simp [isNode, ht]
    | phrase p parts => rfl
  obtain ⟨n, hn⟩ := exists_node_of_isNode hnode position
  rw [kind_of_item hn] at h
  exact ⟨n, hn, Option.some.inj h⟩

/-- The nodes of a list are that of the first tree, if it has one, and those of the others. -/
lemma nodes_cons (w : Written) (ws : List Written) (position : Nat) :
    nodes position (w :: ws) =
      (w.item position).node?.toList ++ nodes (position + w.text.length) ws := by
  simp only [nodes, items, List.filterMap_cons]
  cases (w.item position).node? <;> rfl

/-- Behind its gap, a token leaves a leaf. -/
lemma nodes_token {l : Lexeme} {t : Terminal} (h : l.kind = .token t) (ws : List Written)
    (position : Nat) :
    nodes position (lexeme l :: ws) =
      ⟨.leaf t, position + l.gap.length, position + l.gap.length + l.text.length, []⟩ ::
        nodes (position + l.gap.length + l.text.length) ws := by
  rw [nodes_cons, text_lexeme, List.length_append, ← Nat.add_assoc]
  simp [item, leaf, h, Item.node?]

/-- A mark leaves no node. -/
lemma nodes_mark {l : Lexeme} {c : Char} (h : l.kind = .mark c) (ws : List Written)
    (position : Nat) :
    nodes position (lexeme l :: ws) = nodes (position + l.gap.length + l.text.length) ws := by
  rw [nodes_cons, text_lexeme, List.length_append, ← Nat.add_assoc]
  simp [item, leaf, h, Item.node?]

/-- The nodes of two lists follow one another. -/
lemma nodes_append (ws vs : List Written) (position : Nat) :
    nodes position (ws ++ vs) =
      nodes position ws ++ nodes (position + (textAll ws).length) vs := by
  simp [nodes, items_append]

/-- The kinds of the nodes do not depend on where the trees stand. -/
lemma kinds_nodes (ws : List Written) (position : Nat) :
    (nodes position ws).map Node.kind = ws.filterMap kind? := by
  induction ws generalizing position with
  | nil => rfl
  | cons w ws ih =>
    rw [nodes_cons, List.map_append, ih, List.filterMap_cons]
    cases hkind : w.kind? with
    | none => simp [node?_item_eq_none hkind]
    | some k =>
      obtain ⟨n, hn, rfl⟩ := exists_item_of_kind hkind position
      simp [hn, Item.node?]

/-- A token stands for a leaf. -/
lemma kind_of_token {t : Terminal} (h : Of (.token t) w) : w.kind? = some (.leaf t) := by
  obtain ⟨l, rfl, hkind⟩ := h
  simp [kind?, hkind]

/-- A mark stands for no node. -/
lemma kind_of_mark {c : Char} (h : Of (.mark c) w) : w.kind? = none := by
  obtain ⟨l, rfl, hkind⟩ := h
  simp [kind?, hkind]

/-- A phrase stands for a node of its own kind. -/
@[simp] lemma kind_phrase (p : Phrase) (parts : List Written) :
    (phrase p parts).kind? = some (.phrase p) := rfl

/-- The node of a phrase is what a phrase stands for. -/
lemma exists_parts_of_kind {p : Phrase} (h : w.item position = .node n)
    (hkind : n.kind = .phrase p) :
    ∃ parts, w = .phrase p parts := by
  have hkinds := kind_of_item h
  rw [hkind] at hkinds
  cases w with
  | lexeme l =>
    obtain ⟨t, -, hleaf⟩ := exists_token_of_kind hkinds
    cases hleaf
  | phrase q parts =>
    cases hkinds
    exact ⟨parts, rfl⟩

/-- What is written stands for tokens and phrases only. -/
lemma leaf_or_phrase_of_kind {k : Kind} (h : w.kind? = some k) :
    (∃ t, k = .leaf t) ∨ ∃ p, k = .phrase p := by
  cases w with
  | lexeme l =>
    obtain ⟨t, -, hk⟩ := exists_token_of_kind h
    exact Or.inl ⟨t, hk⟩
  | phrase p parts => exact Or.inr ⟨p, (Option.some.inj h).symm⟩

/-- The tree that something written stands for holds tokens and phrases only. -/
lemma leaf_or_phrase_of_mem_preorder {query : List Char} {m : Node} (h : Stands query position [w])
    (hn : w.item position = .node n) (hm : m ∈ n.preorder) :
    (∃ t, m.kind = .leaf t) ∨ ∃ p, m.kind = .phrase p := by
  obtain ⟨v, place, -, -, hitem⟩ := exists_within_of_mem_preorder h hn hm
  exact leaf_or_phrase_of_kind (kind_of_item hitem)

/-- No error node is inside the tree that something written stands for. -/
lemma isError_of_mem_preorder {query : List Char} {m : Node} (h : Stands query position [w])
    (hn : w.item position = .node n) (hm : m ∈ n.preorder) : m.isError = false := by
  rcases leaf_or_phrase_of_mem_preorder h hn hm with ⟨t, hkind⟩ | ⟨p, hkind⟩ <;>
    simp [Node.isError, hkind]

/-! ### Shapes of written trees -/

/-- Whether all nodes of a tree have their shape, and quoted names nothing but a string. -/
def Formed (v : Written) : Prop :=
  ∀ w, Within w v → (∀ position n, w.item position = .node n → n.HasShape) ∧
    ∀ parts, w = .phrase .quotedName parts → ∃ l, parts = [.lexeme l]

/-- A lexeme has its shape. -/
lemma formed_lexeme (l : Lexeme) : Formed (.lexeme l) := by
  rintro w ⟨⟩
  refine ⟨fun position n hn => ?_, by simp⟩
  simp only [item, leaf] at hn
  split at hn
  · cases hn
    rfl
  · cases hn

/-- A token or mark has its shape. -/
lemma formed_of {x : Lexical} (h : Of x w) : Formed w := by
  obtain ⟨l, rfl, -⟩ := h
  exact formed_lexeme l

/-- A phrase has its shape if its parts have theirs and are what it may have. -/
lemma formed_phrase {p : Phrase} {parts : List Written} (hp : p ≠ .quotedName)
    (h : ∀ v ∈ parts, Formed v) (hparts : ∀ position, Node.AreParts p (nodes position parts)) :
    Formed (.phrase p parts) := by
  rintro w (_ | ⟨hv, hwithin⟩)
  · refine ⟨fun position n hn => ?_, fun parts heq => absurd (by cases heq; rfl) hp⟩
    cases hn
    exact hparts position
  · exact h _ hv w hwithin

/-- A quoted name is a string with nothing else. -/
lemma formed_quotedName (h : Of (.token .string) w) : Formed (.phrase .quotedName [w]) := by
  rintro v (_ | ⟨hv, hwithin⟩)
  · refine ⟨fun position n hn => ?_, fun parts heq => ?_⟩
    · cases hn
      show (nodes position [w]).map Node.kind = _
      simp [kinds_nodes, kind_of_token h]
    · cases heq
      obtain ⟨l, rfl, -⟩ := h
      exact ⟨l, rfl⟩
  · obtain rfl := List.mem_singleton.1 hv
    exact formed_of h v hwithin

/-- An optional part has its shape if it has it where it is there. -/
lemma formed_maybe {P : Written → Prop} (h : Maybe P ws) (hP : ∀ w, P w → Formed w) :
    ∀ w ∈ ws, Formed w := by
  rcases h with rfl | ⟨w, rfl, hw⟩
  · simp
  · simpa using hP w hw

/-- An optional part stands for nothing or for its kind. -/
lemma kinds_maybe {P : Written → Prop} {k : Kind} (h : Maybe P ws)
    (hP : ∀ w, P w → w.kind? = some k) : ws.filterMap kind? = [] ∨ ws.filterMap kind? = [k] := by
  rcases h with rfl | ⟨w, rfl, hw⟩
  · exact Or.inl rfl
  · exact Or.inr (by simp [hP w hw])

/-- The entries of a list have their shapes, and so do the commas between them. -/
lemma formed_separated {P : Written → Prop} (h : Separated P ws)
    (hP : ∀ w ∈ ws, P w → Formed w) : ∀ w ∈ ws, Formed w := fun w hw =>
  (mem_separated h w hw).elim (hP w hw) formed_of

/-- The nodes of trees with commas between them are those of the trees. -/
lemma kinds_separated {P : Written → Prop} {Q : Kind → Prop} (h : Separated P ws)
    (hP : ∀ w ∈ ws, P w → ∀ k ∈ w.kind?, Q k) : ∀ k ∈ ws.filterMap kind?, Q k := by
  intro k hk
  obtain ⟨w, hw, hkind⟩ := List.mem_filterMap.1 hk
  rcases mem_separated h w hw with hw' | hcomma
  · exact hP w hw hw' k hkind
  · rw [kind_of_mark hcomma] at hkind
    cases hkind

/-- What holds of the kinds of a list holds of those of its nodes. -/
lemma forall_nodes {Q : Kind → Prop} (h : ∀ k ∈ ws.filterMap kind?, Q k) :
    ∀ n ∈ nodes position ws, Q n.kind := by
  intro n hn
  exact h n.kind (kinds_nodes ws position ▸ List.mem_map_of_mem hn)

/-- A list of grouping labels stands for a node of that kind. -/
lemma kind_of_grouping (h : IsGrouping w) : w.kind? = some (.phrase .groupingLabels) := by
  obtain ⟨parts, rfl, -⟩ := h
  rfl

/-- A list of grouping labels has its shape. -/
lemma formed_grouping (h : IsGrouping w) : Formed w := by
  obtain ⟨parts, rfl, opening, inside, comma, closing, rfl, hopening, hinside, hcomma, hclosing⟩ :=
    h
  refine formed_phrase (by simp) ?_ fun position => forall_nodes (Q := (· = .leaf .labelName)) ?_
  · simp only [List.cons_append, List.forall_mem_cons, List.forall_mem_append]
    exact ⟨formed_of hopening, ⟨formed_separated hinside fun _ _ => formed_of,
      formed_maybe hcomma fun _ => formed_of⟩, formed_of hclosing, by simp⟩
  · have hnone : comma.filterMap kind? = [] := by
      rcases hcomma with rfl | ⟨c, rfl, hc⟩
      · rfl
      · simp [kind_of_mark hc]
    simp only [List.cons_append, List.filterMap_cons, List.filterMap_append, kind_of_mark hopening,
      kind_of_mark hclosing, hnone, List.filterMap_nil, List.append_nil]
    exact kinds_separated hinside fun w _ hw k hk => by
      rw [kind_of_token hw] at hk
      exact (Option.some.inj hk).symm

/-- A label matcher has its shape. -/
lemma formed_matcher (h : IsMatcher w) : Formed w := by
  cases h with
  | plain hname hoperator hvalue =>
    refine formed_phrase (by simp) ?_ fun position => ?_
    · simp only [List.forall_mem_cons]
      exact ⟨formed_of hname, formed_of hoperator, formed_of hvalue, by simp⟩
    · simp [Node.AreParts, kinds_nodes, kind_of_token hname, kind_of_token hoperator,
        kind_of_token hvalue]
  | quoted hname hoperator hvalue =>
    refine formed_phrase (by simp) ?_ fun position => ?_
    · simp only [List.forall_mem_cons]
      exact ⟨formed_quotedName hname, formed_of hoperator, formed_of hvalue, by simp⟩
    · simp [Node.AreParts, kinds_nodes, kind_of_token hoperator, kind_of_token hvalue]
  | name hname => exact formed_quotedName hname

/-- A label matcher is of one of three kinds. -/
lemma kind_of_matcher (h : IsMatcher w) :
    ∀ k ∈ w.kind?, k ∈
      [Kind.phrase .unquotedMatcher, .phrase .quotedMatcher, .phrase .quotedName] := by
  cases h <;> simp

/-- A list of label matchers has its shape. -/
lemma formed_labelBlock (h : IsLabelBlock w) : Formed w := by
  obtain ⟨parts, rfl, opening, inside, comma, closing, rfl, hopening, hinside, hcomma, hclosing⟩ :=
    h
  refine formed_phrase (by simp) ?_ fun position => forall_nodes ?_
  · simp only [List.cons_append, List.forall_mem_cons, List.forall_mem_append]
    exact ⟨formed_of hopening, ⟨formed_separated hinside fun _ _ => formed_matcher,
      formed_maybe hcomma fun _ => formed_of⟩, formed_of hclosing, by simp⟩
  · have hnone : comma.filterMap kind? = [] := by
      rcases hcomma with rfl | ⟨c, rfl, hc⟩
      · rfl
      · simp [kind_of_mark hc]
    simp only [List.cons_append, List.filterMap_cons, List.filterMap_append, kind_of_mark hopening,
      kind_of_mark hclosing, hnone, List.filterMap_nil, List.append_nil]
    exact kinds_separated hinside fun _ _ => kind_of_matcher

/-- One of two keywords has its shape. -/
lemma formed_either {k k' : Keyword} (h : IsEither k k' w) : Formed w := h.elim formed_of formed_of

/-- One of two keywords stands for its leaf. -/
lemma kind_of_either {k k' : Keyword} (h : IsEither k k' w) :
    w.kind? = some (.leaf (.keyword k)) ∨ w.kind? = some (.leaf (.keyword k')) :=
  h.imp kind_of_token kind_of_token

/-- A grouping modifier has its shape. -/
lemma formed_modifier (h : IsModifier w) : Formed w := by
  obtain ⟨word, labels, rfl, hword, hlabels⟩ := h
  refine formed_phrase (by simp) ?_ fun position => ?_
  · simpa using ⟨formed_either hword, formed_grouping hlabels⟩
  · rcases kind_of_either hword with hkind | hkind <;>
      simp [Node.AreParts, kinds_nodes, hkind, kind_of_grouping hlabels]

/-- A vector matching has its shape. -/
lemma formed_matching (h : IsMatching w) : Formed w := by
  obtain ⟨word, labels, group, rfl, hword, hlabels, hgroup⟩ := h
  refine formed_phrase (by simp) ?_ fun position => ?_
  · simp only [List.forall_mem_cons]
    refine ⟨formed_either hword, formed_grouping hlabels, ?_⟩
    rcases hgroup with rfl | ⟨word', labels', rfl, hword', hlabels'⟩
    · simp
    · simp only [List.forall_mem_cons]
      exact ⟨formed_either hword', formed_maybe hlabels' fun _ => formed_grouping⟩
  · have hparts : ∃ kinds ∈ [[], [Kind.leaf (.keyword .groupLeft)], [.leaf (.keyword .groupRight)],
        [.leaf (.keyword .groupLeft), .phrase .groupingLabels],
        [.leaf (.keyword .groupRight), .phrase .groupingLabels]],
        group.filterMap kind? = kinds := by
      rcases hgroup with rfl | ⟨word', labels', rfl, hword', hlabels'⟩
      · exact ⟨[], by simp, rfl⟩
      · rcases kind_of_either hword' with hkind' | hkind' <;>
          rcases kinds_maybe hlabels' fun _ => kind_of_grouping with hkinds | hkinds <;>
            exact ⟨_, by simp [hkind', hkinds], rfl⟩
    obtain ⟨kinds, hkinds, hgroup⟩ := hparts
    rcases kind_of_either hword with hkind | hkind
    · exact ⟨.on, by simp, kinds, hkinds,
        by simp [kinds_nodes, hkind, kind_of_grouping hlabels, hgroup]⟩
    · exact ⟨.ignoring, by simp, kinds, hkinds,
        by simp [kinds_nodes, hkind, kind_of_grouping hlabels, hgroup]⟩

/-! ### Shapes of expressions -/

variable {clear : List Written → List Word → Prop} {e : Written}

/-- An expression of the grammar stands for a node of an expression. -/
lemma isExpression_of_grammatical (h : Grammatical clear e) :
    ∃ k, e.kind? = some k ∧ k.isExpression = true := by
  cases h with
  | number hw | string hw => exact ⟨_, kind_of_token hw, rfl⟩
  | postfixed _ _ happended =>
    refine ⟨_, rfl, ?_⟩
    cases happended <;> rfl
  | _ => exact ⟨_, rfl, rfl⟩

/-- An operand stands for a node of an expression. -/
lemma exists_operand (h : Grammatical clear e) (position : Nat) :
    ∃ n, e.item position = .node n ∧ n.kind.isExpression = true := by
  obtain ⟨k, hk, hexpr⟩ := isExpression_of_grammatical h
  obtain ⟨n, hn, rfl⟩ := exists_item_of_kind hk position
  exact ⟨n, hn, hexpr⟩

/-- The node of an operator has its level. -/
lemma operatorLevel_of_item {l : Lexeme} {k : Nat} (position : Nat)
    (h : operatorLevel? l.kind = some k) :
    ∃ n, (lexeme l).item position = .node n ∧ n.operatorLevel? = some k := by
  cases hkind : l.kind with
  | mark c =>
    rw [hkind] at h
    cases h
  | token t =>
    refine ⟨⟨.leaf t, _, _, []⟩, by simp only [item, leaf, hkind]; rfl, ?_⟩
    rw [hkind] at h
    exact h

/-- The node of an expression binds as tightly as the expression. -/
lemma level_of_item (h : Grammatical clear e) (hn : e.item position = .node n) :
    n.level = e.level := by
  cases h with
  | number hw | string hw =>
    obtain ⟨l, rfl, hkind⟩ := hw
    simp only [item, leaf, hkind] at hn
    cases hn
    rfl
  | @binary left right operator modifiers k hleft hoperator =>
    have hlevel := level_binary left hoperator (modifiers ++ [right])
    simp only [List.cons_append] at hn ⊢
    rw [hlevel]
    cases hn
    obtain ⟨l, hl, -⟩ := exists_operand hleft position
    obtain ⟨o, ho, holevel⟩ :=
      operatorLevel_of_item (position + left.text.length) hoperator
    simp only [items, Item.span, Node.level, List.filterMap_cons, hl, ho, Item.node?, holevel,
      Option.getD_some]
  | postfixed _ _ happended =>
    cases hn
    cases happended <;> rfl
  | _ =>
    cases hn
    rfl

/-- Call arguments have their shape if the expressions in them have theirs. -/
lemma formed_body {body : List Written} (hbody : Enclosed '(' ')' (fun w => w.isNode = true) body)
    (he : ∀ w ∈ body, w.isNode = true → Grammatical clear w)
    (hformed : ∀ w ∈ body, w.isNode = true → Formed w) : Formed (.phrase .callBody body) := by
  obtain ⟨opening, inside, closing, rfl, hopening, hinside, hclosing⟩ := hbody
  refine formed_phrase (by simp) ?_ fun position => forall_nodes (Q := (·.isExpression = true)) ?_
  · simp only [List.cons_append, List.forall_mem_cons, List.forall_mem_append]
    exact ⟨formed_of hopening,
      formed_separated hinside fun w hw hnode => hformed w (by simp [hw]) hnode,
      formed_of hclosing, by simp⟩
  · simp only [List.cons_append, List.filterMap_cons, List.filterMap_append, kind_of_mark hopening,
      kind_of_mark hclosing, List.filterMap_nil, List.append_nil]
    refine kinds_separated hinside fun w hw hnode k hk => ?_
    obtain ⟨k', hk', hexpr⟩ := isExpression_of_grammatical (he w (by simp [hw]) hnode)
    rw [hk', Option.mem_some_iff] at hk
    exact hk ▸ hexpr

/-- The modifiers of an operator have their shapes. -/
lemma formed_modifiers (h : IsModifiers ws) : ∀ w ∈ ws, Formed w := by
  obtain ⟨bool, matching, rfl, hbool, hmatching⟩ := h
  exact List.forall_mem_append.2 ⟨formed_maybe hbool fun _ => formed_of,
    formed_maybe hmatching fun _ => formed_matching⟩

/-- The modifiers of an operator are at most one of each kind, in this order. -/
lemma kinds_modifiers (h : IsModifiers ws) :
    ws.filterMap kind? ∈ [[], [Kind.leaf (.keyword .bool)], [.phrase .matching],
      [.leaf (.keyword .bool), .phrase .matching]] := by
  obtain ⟨bool, matching, rfl, hbool, hmatching⟩ := h
  have kind : ∀ w, IsMatching w → w.kind? = some (.phrase .matching) := by
    rintro w ⟨_, _, _, rfl, -⟩
    rfl
  rw [List.filterMap_append]
  rcases kinds_maybe hbool fun _ => kind_of_token with hb | hb <;>
    rcases kinds_maybe hmatching kind with hm | hm <;> simp [hb, hm]

/-- What stands behind a base has its shape. -/
lemma formed_postfix {p : Phrase} (h : IsPostfix p ws) : ∀ w ∈ ws, Formed w := by
  cases h with
  | range hopening hrange hclosing =>
    simp only [List.forall_mem_cons]
    exact ⟨formed_of hopening, formed_of hrange, formed_of hclosing, by simp⟩
  | subquery hopening hrange hcolon hstep hclosing =>
    simp only [List.cons_append, List.forall_mem_cons, List.forall_mem_append]
    exact ⟨formed_of hopening, formed_of hrange, formed_of hcolon,
      formed_maybe hstep fun _ => formed_of, formed_of hclosing, by simp⟩
  | offset hword hsign hshift =>
    simp only [List.cons_append, List.forall_mem_cons, List.forall_mem_append]
    exact ⟨formed_of hword, formed_maybe hsign fun _ => formed_of, formed_of hshift, by simp⟩
  | pinned hmark htime =>
    simp only [List.forall_mem_cons]
    exact ⟨formed_of hmark, htime.elim formed_of formed_of, by simp⟩

/-- The node of a postfix has the node of its base and what the postfix has. -/
lemma areParts_postfixed {p : Phrase} {base : Written} (hbase : Grammatical clear base)
    (hlevel : 7 ≤ base.level) (h : IsPostfix p ws) (position : Nat) :
    Node.AreParts p (nodes position (base :: ws)) := by
  obtain ⟨b, hb, hexpr⟩ := exists_operand hbase position
  have hbound : 7 ≤ b.level := level_of_item hbase hb ▸ hlevel
  have hnodes : nodes position (base :: ws) =
      b :: nodes (position + base.text.length) ws := by
    rw [nodes_cons, hb]
    rfl
  cases h with
  | range hopening hrange hclosing =>
    refine ⟨b, _, hnodes, hexpr, hbound, ?_⟩
    simp [kinds_nodes, kind_of_mark hopening, kind_of_token hrange, kind_of_mark hclosing]
  | subquery hopening hrange hcolon hstep hclosing =>
    refine ⟨b, _, hnodes, hexpr, hbound, ?_⟩
    rcases kinds_maybe hstep fun _ => kind_of_token with hkinds | hkinds <;>
      simp [kinds_nodes, kind_of_mark hopening, kind_of_token hrange, kind_of_mark hcolon,
        kind_of_mark hclosing, hkinds]
  | offset hword hsign hshift =>
    refine ⟨b, _, hnodes, hexpr, hbound, ?_⟩
    rcases kinds_maybe hsign fun _ => kind_of_token with hkinds | hkinds <;>
      simp [kinds_nodes, kind_of_token hword, kind_of_token hshift, hkinds]
  | pinned hmark htime =>
    refine ⟨b, _, hnodes, hexpr, hbound, ?_⟩
    rcases htime with htime | htime <;>
      simp [kinds_nodes, kind_of_token hmark, kind_of_token htime]

/-- The node of a binary operation has the nodes of its operands, and these fit. -/
lemma isOperation_nodes {left right : Written} {operator : Lexeme} {modifiers : List Written}
    {k : Nat}
    (hleft : Grammatical clear left) (hoperator : operatorLevel? operator.kind = some k)
    (hmodifiers : IsModifiers modifiers) (hright : Grammatical clear right)
    (hfits : Fits k left.level right.level) (position : Nat) :
    Node.IsOperation (nodes position (left :: .lexeme operator :: modifiers ++ [right])) := by
  obtain ⟨l, hl, hlexpr⟩ := exists_operand hleft position
  obtain ⟨o, ho, hlevel⟩ := operatorLevel_of_item (position + left.text.length) hoperator
  obtain ⟨r, hr, hrexpr⟩ := exists_operand hright (position + left.text.length +
    (lexeme operator).text.length + (textAll modifiers).length)
  refine ⟨l, o, nodes (position + left.text.length + (lexeme operator).text.length) modifiers, r, k,
    ?_, hlexpr, hrexpr, hlevel, ?_, kinds_nodes modifiers _ ▸ kinds_modifiers hmodifiers⟩
  · rw [List.cons_append, List.cons_append, nodes_cons, hl, nodes_cons, ho, nodes_append,
      nodes_cons, hr]
    rfl
  · rwa [level_of_item hleft hl, level_of_item hright hr]

/-- The node of a selector with a name has the name, and the block of matchers if there is one. -/
lemma areParts_named {l : Lexeme} {block : List Written} (hl : l.kind = .token .metricName)
    (hblock : Maybe IsLabelBlock block) (position : Nat) :
    Node.AreParts .vectorSelector (nodes position (lexeme l :: block)) := by
  have kind : ∀ w, IsLabelBlock w → w.kind? = some (.phrase .labelMatchers) := by
    rintro w ⟨_, rfl, -⟩
    rfl
  rcases kinds_maybe hblock kind with hkinds | hkinds <;>
    simp [Node.AreParts, kinds_nodes, kind_of_token ⟨_, rfl, hl⟩, hkinds]

/-- The node of an aggregation has its operator, its body and a modifier in front of the body or
behind it. -/
lemma areParts_aggregation {operator : Written} {before body after : List Written}
    (hoperator : Of (.token .aggregationOperator) operator) (hbefore : Maybe IsModifier before)
    (hafter : Maybe IsModifier after) (hone : before = [] ∨ after = []) (position : Nat) :
    Node.AreParts .aggregation
      (nodes position (operator :: before ++ .phrase .callBody body :: after)) := by
  have kind : ∀ w, IsModifier w → w.kind? = some (.phrase .modifier) := by
    rintro w ⟨_, _, rfl, -⟩
    rfl
  rcases hone with rfl | rfl
  · rcases kinds_maybe hafter kind with hkinds | hkinds <;>
      simp [Node.AreParts, kinds_nodes, kind_of_token hoperator, hkinds]
  · rcases kinds_maybe hbefore kind with hkinds | hkinds <;>
      simp [Node.AreParts, kinds_nodes, kind_of_token hoperator, hkinds]

/-- The node of an expression between parentheses has the node of the expression only. -/
lemma areParts_paren {opening closing : Written} (hopening : Of (.mark '(') opening)
    (he : Grammatical clear e) (hclosing : Of (.mark ')') closing) (position : Nat) :
    Node.AreParts .paren (nodes position [opening, e, closing]) := by
  obtain ⟨n, hn, hexpr⟩ := exists_operand he (position + opening.text.length)
  refine ⟨n, ?_, hexpr⟩
  rw [nodes_cons, nodes_cons, nodes_cons, node?_item_eq_none (kind_of_mark hopening),
    node?_item_eq_none (kind_of_mark hclosing), hn]
  rfl

/-- The node of an expression with a sign has a leaf for the sign and the node of its operand. -/
lemma areParts_unary {sign : Written}
    (hsign : Of (.token (.symbol .sub)) sign ∨ Of (.token (.symbol .add)) sign)
    (he : Grammatical clear e) (hlevel : 5 ≤ e.level) (position : Nat) :
    Node.AreParts .unary (nodes position [sign, e]) := by
  obtain ⟨n, hn, hexpr⟩ := exists_operand he (position + sign.text.length)
  have hkind : ∃ k ∈ [Kind.leaf (.symbol .sub), .leaf (.symbol .add)], sign.kind? = some k := by
    rcases hsign with hsign | hsign
    · exact ⟨_, by simp, kind_of_token hsign⟩
    · exact ⟨_, by simp, kind_of_token hsign⟩
  obtain ⟨k, hk, hkind⟩ := hkind
  obtain ⟨s, hs, rfl⟩ := exists_item_of_kind hkind position
  refine ⟨s, n, ?_, hk, hexpr, level_of_item he hn ▸ hlevel⟩
  rw [nodes_cons, nodes_cons, hs, hn]
  rfl

/-- All nodes of an expression have their shape. -/
theorem formed_of_grammatical (h : Grammatical clear e) : Formed e := by
  induction h with
  | number hw | string hw => exact formed_of hw
  | named hkind hnumber hblock =>
    refine formed_phrase (by simp) ?_ (areParts_named hkind hblock)
    simp only [List.forall_mem_cons]
    exact ⟨formed_lexeme _, formed_maybe hblock fun _ => formed_labelBlock⟩
  | unnamed hblock =>
    refine formed_phrase (by simp) (by simpa using formed_labelBlock hblock) fun position => ?_
    obtain ⟨parts, rfl, -⟩ := hblock
    simp [Node.AreParts, kinds_nodes]
  | call hfunction hbody he ih =>
    refine formed_phrase (by simp) ?_ fun position => ?_
    · simpa using ⟨formed_of hfunction, formed_body hbody he ih⟩
    · simp [Node.AreParts, kinds_nodes, kind_of_token hfunction]
  | aggregation hoperator hbefore hbody he hafter hone ih =>
    refine formed_phrase (by simp) ?_ (areParts_aggregation hoperator hbefore hafter hone)
    simp only [List.cons_append, List.forall_mem_cons, List.forall_mem_append]
    exact ⟨formed_of hoperator, formed_maybe hbefore fun _ => formed_modifier,
      formed_body hbody he ih, formed_maybe hafter fun _ => formed_modifier⟩
  | paren hopening he hclosing ih =>
    refine formed_phrase (by simp) ?_ (areParts_paren hopening he hclosing)
    simpa using ⟨formed_of hopening, ih, formed_of hclosing⟩
  | postfixed hbase hlevel happended ih =>
    -- `formed_phrase` is not for quoted names, and no postfix is one.
    have hp : ∀ {p : Phrase} {ws : List Written}, IsPostfix p ws → p ≠ .quotedName := by
      rintro p ws ⟨⟩ <;> simp
    refine formed_phrase (hp happended) ?_ (areParts_postfixed hbase hlevel happended)
    simp only [List.forall_mem_cons]
    exact ⟨ih, formed_postfix happended⟩
  | unary hsign he hlevel ih =>
    refine formed_phrase (by simp) ?_ (areParts_unary hsign he hlevel)
    simpa using ⟨hsign.elim formed_of formed_of, ih⟩
  | binary hleft hoperator hmodifiers _ hright hfits ihleft ihright =>
    refine formed_phrase (by simp) ?_
      (isOperation_nodes hleft hoperator hmodifiers hright hfits)
    simp only [List.cons_append, List.forall_mem_cons, List.forall_mem_append]
    exact ⟨ihleft, formed_lexeme _, formed_modifiers hmodifiers, ihright, by simp⟩

end Written

namespace Node

/-- Every node of the tree of an accepted query has the shape that its kind has. -/
theorem hasShape_of_ofQuery {limits : Limits} {query : List Char} {root m : Node}
    (h : Node.ofQuery? limits query = some root)
    (haccepted : ∀ n ∈ root.preorder, n.isError = false) (hm : m ∈ root.preorder) : m.HasShape := by
  unfold Node.ofQuery? at h
  cases hread : Reading.ofQuery limits query with
  | tooDeep => simp [hread, Node.ofReading] at h
  | rejected stuck =>
    rw [hread] at h
    cases h
    -- The tree of a rejected query has an error node.
    have herror := haccepted ⟨.error, stuck.position, query.length, []⟩
      (by simp [Node.preorder_eq])
    simp [isError] at herror
  | accepted expression? =>
    rw [hread] at h
    cases h
    rw [Node.preorder_eq] at hm
    cases expression? with
    | none =>
      obtain rfl : m = ⟨.root, 0, query.length, []⟩ := by simpa using hm
      exact Or.inl rfl
    | some n =>
      obtain ⟨e, ⟨he, -, tail, -, hlaid, rfl⟩, hn⟩ := Reading.within_eq_accepted_iff.1 hread
      have hstands : Stands (e.text ++ tail) 0 [e] := ⟨[], tail, by simp, rfl, hlaid⟩
      rcases List.mem_cons.1 hm with rfl | hm
      · obtain ⟨k, hk, hexpr⟩ := isExpression_of_grammatical he
        obtain rfl : k = n.kind := Option.some.inj (hk.symm.trans (kind_of_item hn))
        exact Or.inr ⟨n, rfl, hexpr⟩
      · obtain ⟨w, place, hwithin, -, hitem⟩ := exists_within_of_mem_preorder hstands hn
          (by simpa using hm)
        exact (formed_of_grammatical he w hwithin).1 place m hitem

/-- The tree of `-a^b`. -/
def negatedPower : Node :=
  ⟨.root, 0, 4, [⟨.phrase .unary, 0, 4, [⟨.leaf (.symbol .sub), 0, 1, []⟩,
    ⟨.phrase .binary, 1, 4, [⟨.phrase .vectorSelector, 1, 2, [⟨.leaf .metricName, 1, 2, []⟩]⟩,
      ⟨.leaf (.symbol .pow), 2, 3, []⟩,
      ⟨.phrase .vectorSelector, 3, 4, [⟨.leaf .metricName, 3, 4, []⟩]⟩]⟩]⟩]⟩

/-- The nodes of the tree of `-a^b` have their shapes. -/
theorem hasShape_negatedPower :
    Node.ofQuery? .usual ['-', 'a', '^', 'b'] = some negatedPower ∧
      (∀ n ∈ negatedPower.preorder, n.isError = false) ∧
      ∀ m ∈ negatedPower.preorder, m.HasShape := by
  have hread : Node.ofQuery? .usual ['-', 'a', '^', 'b'] = some negatedPower := rfl
  have haccepted : ∀ n ∈ negatedPower.preorder, n.isError = false := by decide
  exact ⟨hread, haccepted, fun m hm => hasShape_of_ofQuery hread haccepted hm⟩

end Node

end PromqlGuide
