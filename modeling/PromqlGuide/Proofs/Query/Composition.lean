import PromqlGuide.Proofs.Expr.WellFormed
import PromqlGuide.Proofs.Grammar.Depth
import PromqlGuide.Proofs.Query.Expression
import PromqlGuide.Proofs.Written.Enclosing

/-!
# Queries compose

Queries that have expressions are put between parentheses, made the arguments of a call, or made the
operands of an operator.  The larger query has the expression that is made of theirs, with all their
texts, unless it is nested too deep (`Query.parse_composed`); whether it is can be said of each of
the smaller queries alone (`Query.LeavesRoom`).

The smaller queries are written as trees, and so is the larger one, with the blank text that they
end with in the gaps of its marks.  Each tree stands for the same expression in both places.
-/
namespace PromqlGuide

open Text Written

/-! ### Making expressions -/

/-- Computations with values have these values together. -/
lemma Noted.result_all {α : Type} {ms : List (Noted α)} {as : List α}
    (h : List.Forall₂ (fun m a => m.result = .ok a) ms as) : (Noted.all ms).result = .ok as := by
  induction h with
  | nil => rfl
  | cons hm _ ih => rw [Noted.all, Noted.result_bind_eq hm, Noted.result_bind_eq ih]; rfl

namespace Expr

variable {query : List Char} {n : Node} {a b : Expr}

/-- Whether a node stands for an expression. -/
def StandsFor (query : List Char) (n : Node) (a : Expr) : Prop :=
  n.kind.isExpression = true ∧ (ofTree query n).result = .ok a

/-- What stands for expressions is of a kind that does. -/
lemma isExpression_of_standsFor {cs : List Node} {as : List Expr}
    (h : List.Forall₂ (StandsFor query) cs as) : ∀ c ∈ cs, c.kind.isExpression = true := by
  induction h with
  | nil => simp
  | cons hc _ ih => exact List.forall_mem_cons.2 ⟨hc.1, ih⟩

/-- The operands are the expressions that the children stand for. -/
lemma result_operands {cs : List Node} {as : List Expr}
    (h : List.Forall₂ (StandsFor query) (cs.filter fun c => c.kind.isExpression) as) :
    (operands (cs.map (partOf query))).result = .ok as := by
  rw [operands_partOf]
  refine Noted.result_all ?_
  rw [List.forall₂_map_left_iff]
  exact h.imp fun _ _ hc => hc.2

/-- Parentheses stand for those around the expression. -/
lemma standsFor_paren {c : Node} (hkind : n.kind = .phrase .paren) (hchildren : n.children = [c])
    (hc : StandsFor query c a) : StandsFor query n (.paren (textOf query n) [a]) := by
  refine ⟨by rw [hkind]; rfl, ?_⟩
  have hfirst : (n.children.find? fun c => c.kind.isExpression) = some c := by
    simp [hchildren, hc.1]
  rw [ofTree_eq_ofBranches, ofBranches, hkind]
  dsimp only
  rw [ofParen, toPart_treeBranch, firstOperand_partOf, hfirst]
  have hone : (atMostOne ((some c).map (partOf query))).result = .ok [a] := by
    rw [Option.map_some, atMostOne, partOf, Noted.result_bind_eq hc.2]
    rfl
  rw [Noted.result_bind_eq hone]
  rfl

/-- A call stands for that of the expressions. -/
lemma standsFor_call {function body : Node} {as : List Expr} (hkind : n.kind = .phrase .call)
    (hchildren : n.children = [function, body]) (hfunction : function.kind = .leaf .functionName)
    (hbody : body.kind = .phrase .callBody)
    (has : List.Forall₂ (StandsFor query) body.children as) :
    StandsFor query n (.call (textOf query n) (textOf query function) as) := by
  refine ⟨by rw [hkind]; rfl, ?_⟩
  have hbranch : branch? (n.children.map (treeBranch query)) [.phrase .callBody] =
      some (treeBranch query body) := by
    rw [branch_treeBranch, hchildren]
    simp [hfunction, hbody]
  have hname : n.child? [.leaf .functionName] = some function := by
    rw [Node.child?, hchildren]
    simp [hfunction]
  have hall : (body.children.filter fun c => c.kind.isExpression) = body.children := by
    exact List.filter_eq_self.2 (isExpression_of_standsFor has)
  have harguments : (operands (treeBranch query body).parts).result = .ok as :=
    result_operands (by rwa [hall])
  rw [ofTree_eq_ofBranches, ofBranches, hkind]
  dsimp only
  rw [ofCall, hbranch]
  dsimp only
  rw [Noted.result_bind_eq harguments, hname]
  rfl

/-- An operation stands for that of the two expressions. -/
lemma standsFor_binary {left operator right : Node} (hkind : n.kind = .phrase .binary)
    (hchildren : n.children = [left, operator, right]) {op : Symbol} (hop : op ≠ .atSign)
    (hoperator : operator.kind = .leaf (.symbol op)) (hleft : StandsFor query left a)
    (hright : StandsFor query right b) :
    StandsFor query n (.binary (textOf query n) (textOf query operator) [a, b]) := by
  refine ⟨by rw [hkind]; rfl, ?_⟩
  have hnone : operator.kind.isExpression = false ∧ operator.kind.isOperator = true := by
    rw [hoperator]
    exact ⟨rfl, bne_iff_ne.2 hop⟩
  have hoperands : (operands (n.children.map (partOf query))).result = .ok [a, b] := by
    refine result_operands ?_
    have hboth : (n.children.filter fun c => c.kind.isExpression) = [left, right] := by
      simp [hchildren, hleft.1, hright.1, hnone]
    rw [hboth]
    exact .cons hleft (.cons hright .nil)
  have hone : (n.children.filter fun c => !c.kind.isExpression && c.kind.isOperator) =
    [operator] := by
    simp [hchildren, hleft.1, hright.1, hnone]
  rw [ofTree_eq_ofBranches, ofBranches, hkind]
  dsimp only
  rw [ofBinary, toPart_treeBranch, Noted.result_bind_eq hoperands, hone]
  rfl

end Expr

/-! ### Depth -/

namespace Node

/-- A leaf is two steps deep. -/
lemma depth_leaf {n : Node} {t : Terminal} (hkind : n.kind = .leaf t)
    (hchildren : n.children = []) :
    n.depth Query.stepsInto = 2 := by
  rw [depth_eq, hkind, hchildren]
  rfl

/-- A node with steps around it is at most so deep if it is without children, and the children are
with the steps into them. -/
lemma depth_add_le_iff {steps : Kind → Nat} {n : Node} {k d : Nat} :
    n.depth steps + k ≤ d ↔
      steps n.kind + k ≤ d ∧ ∀ c ∈ n.children, c.depth steps + (steps n.kind + k) ≤ d := by
  rw [depth_eq, Nat.add_assoc]
  by_cases hself : steps n.kind + k ≤ d
  · have hmove : ∀ x, x + (steps n.kind + k) ≤ d ↔ x ≤ d - (steps n.kind + k) := by
      intro x
      omega
    simp [hmove, hself, foldl_max_le_iff]
  · refine iff_of_false ?_ fun h => hself h.1
    omega

end Node

namespace Query

variable {limits : Limits} {q p : List Char} {a b : Expr} {e e' : Written} {n m : Node}
    {tail : List Char}

/-! ### Room for more -/

/-- Whether something can be written around a query: it is still read where the reader may follow
fewer rules, and its tree is not too deep with more steps around it. -/
def LeavesRoom (limits : Limits) (rules steps : Nat) (query : List Char) : Prop :=
  ∃ n, Reading.within (limits.rules - rules) query = .accepted (some n) ∧
    n.depth stepsInto + steps ≤ limits.building

/-- There is room around a query exactly if there is for its nesting and its tree with more around
them. -/
lemma leavesRoom_iff (h : Means limits q e n a) {rules steps : Nat} :
    LeavesRoom limits rules steps q ↔
      e.nesting + rules < limits.rules ∧ n.depth stepsInto + steps ≤ limits.building := by
  constructor
  · rintro ⟨m, hread, hdepth⟩
    obtain ⟨e', he', hm⟩ := Reading.within_eq_accepted_iff.1 hread
    have hlt : e'.nesting < limits.rules := Nat.lt_of_lt_of_le he'.nesting_lt (Nat.sub_le _ _)
    obtain rfl := h.writes.unique ⟨he'.grammatical, hlt, he'.laidOut⟩
    obtain rfl : n = m := by
      have hnode := h.item.symm.trans hm
      cases hnode
      rfl
    exact ⟨Nat.add_lt_of_lt_sub he'.nesting_lt, hdepth⟩
  · rintro ⟨hnesting, hdepth⟩
    refine ⟨n, Reading.within_eq_accepted_iff.2 ⟨e, ⟨h.writes.grammatical, ?_, h.writes.laidOut⟩,
      h.item⟩, hdepth⟩
    exact Nat.lt_sub_of_add_lt hnesting

/-- Whether a query has an expression where there is room, and is nested too deep where there is
none. -/
def Composes (limits : Limits) (room : Prop) (query : List Char) (a : Expr) : Prop :=
  (room → (parseChars limits query).outcome = .ok a) ∧
    (¬ room → (parseChars limits query).outcome = .error .tooDeep)

/-- A tree that is written as a query composes it where there is room for it. -/
lemma composes_of_stands {query : List Char} {room : Prop} (he : Grammatical Clear e)
    (hlaid : Laid [e] []) (htext : e.text = query) (hn : e.item 0 = .node n)
    (hresult : (Expr.ofTree query n).result = .ok a)
    (hroom : room ↔ e.nesting < limits.rules ∧ n.depth stepsInto ≤ limits.building) :
    Composes limits room query a := by
  have hwrites : ∀ depth, e.nesting < depth → e.Writes depth query := fun depth hlt =>
    ⟨he, hlt, [], rfl, hlaid, by rw [htext, List.append_nil]⟩
  constructor
  · intro h
    obtain ⟨hnesting, hdepth⟩ := hroom.1 h
    exact outcome_eq_ok_iff.2 ⟨e, n, hwrites _ hnesting, hn, hdepth, hresult⟩
  · intro h
    by_cases hnesting : e.nesting < limits.rules
    · have hread : Reading.ofQuery limits query = .accepted (some n) :=
        Reading.within_eq_accepted_iff.2 ⟨e, hwrites _ hnesting, hn⟩
      have hdepth : limits.building < n.depth stepsInto :=
        Nat.lt_of_not_le fun hle => h (hroom.2 ⟨hnesting, hle⟩)
      unfold parseChars
      rw [hread]
      dsimp only
      rw [ofExpression, if_pos hdepth]
    · have hread : Reading.ofQuery limits query = .tooDeep :=
        Reading.within_eq_tooDeep (hwrites _ (Nat.lt_succ_self _)) (Nat.not_lt.1 hnesting)
      unfold parseChars
      rw [hread]

/-! ### Queries in other queries -/

/-- Whether a query is written as a tree with blank text behind it, and stands for an expression. -/
structure MeansBefore (limits : Limits) (query tail : List Char) (e : Written) (n : Node)
    (a : Expr) : Prop extends
    Means limits query e n a where
  isTail : isTail tail = true
  laid : Laid [e] tail
  text : query = e.text ++ tail

/-- A query with an expression is written as a tree with blank text behind it. -/
lemma exists_meansBefore (h : (parseChars limits q).outcome = .ok a) :
    ∃ tail e n, MeansBefore limits q tail e n a := by
  obtain ⟨e, n, hmeans⟩ := outcome_eq_ok_iff.1 h
  obtain ⟨tail, htail, hlaid, htext⟩ := hmeans.writes.laidOut
  exact ⟨tail, e, n, hmeans, htail, hlaid, htext⟩

/-- The tree of a query stands for its expression wherever it is written. -/
lemma exists_standsFor {query : List Char} {place : Nat} (h : Means limits q e n a)
    (hstands : Stands query place [e]) :
    ∃ m, e.item place = .node m ∧ Expr.StandsFor query m a ∧
      m.depth stepsInto = n.depth stepsInto := by
  obtain ⟨m, hm, hexpr⟩ := exists_operand h.writes.grammatical place
  have htwin : Node.Twin id q query n m :=
    twin_of_stands (formed_of_grammatical h.writes.grammatical) (stands_of_writes h.writes) hstands
      h.item hm
  rcases Expr.agree_ofTree htwin with ⟨err, herr, -⟩ | ⟨b, a', hb, ha', hsame⟩
  · rw [h.result] at herr
    cases herr
  · rw [h.result] at hb
    cases hb
    obtain rfl := Expr.eq_of_same hsame
    exact ⟨m, hm, ⟨hexpr, ha'⟩, (htwin.depth _).symm⟩

/-! ### Parentheses -/

/-- A query between parentheses, the closing one on a line of its own. -/
def parenthesized (query : List Char) : List Char := '(' :: (query ++ ['\n', ')'])

/-- The tree between parentheses is written as the query between them. -/
lemma text_parenOf_of_means (h : MeansBefore limits q tail e n a) :
    (parenOf e tail).text = parenthesized q := by
  rw [text_parenOf, parenthesized, h.text]

/-- The tree between parentheses stands for the expression between them and is two steps deeper. -/
lemma exists_standsFor_paren {query : List Char} {place : Nat} (h : MeansBefore limits q tail e n a)
    (hstands : Stands query place [parenOf e tail]) :
    ∃ m, (parenOf e tail).item place = .node m ∧
      Expr.StandsFor query m (.paren (String.ofList (parenthesized q)) [a]) ∧
      m.depth stepsInto = n.depth stepsInto + 2 := by
  have hparts := stands_phrase.1 hstands
  obtain ⟨c, hc, hfor, hdepth⟩ := exists_standsFor h.toMeans (stands_cons (stands_cons hparts).2).1
  rw [text_markAfter] at hc
  obtain ⟨m, hm, hkind, hnodes, htext⟩ := exists_node_phrase hstands
  have hchildren : m.children = [c] := by
    rw [hnodes, nodes_markAfter, nodes_cons, hc, closing, nodes_markAfter]
    rfl
  have htext : Expr.textOf query m = String.ofList (parenthesized q) := by
    rw [htext, ← text_parenOf_of_means h]
    rfl
  refine ⟨m, hm, htext ▸ Expr.standsFor_paren hkind hchildren hfor, ?_⟩
  rw [Node.depth_eq, hchildren, hkind]
  simp [hdepth, stepsInto]

/-! ### Arguments -/

/-- The trees of queries that are the arguments of a call, with the marks behind them. -/
inductive Arguments (limits : Limits) : List (List Char) → List Expr → List Written → Prop where
  | nil : Arguments limits [] [] [closing [] ')']
  | last {q tail : List Char} {e : Written} {n : Node} {a : Expr} :
    MeansBefore limits q tail e n a →
      Arguments limits [q] [a] [e, closing tail ')']
  | cons {q q' tail : List Char} {qs : List (List Char)} {e : Written} {n : Node} {a : Expr}
      {as : List Expr} {ws : List Written} : MeansBefore limits q tail e n a →
      Arguments limits (q' :: qs) as ws →
      Arguments limits (q :: q' :: qs) (a :: as) (e :: closing tail ',' :: ws)

/-- Queries with expressions are the arguments of a call. -/
lemma exists_arguments {qs : List (List Char)} {as : List Expr}
    (h : List.Forall₂ (fun q a => (parseChars limits q).outcome = .ok a) qs as) :
    ∃ ws, Arguments limits qs as ws := by
  induction h with
  | nil => exact ⟨_, .nil⟩
  | cons hq hqs ih =>
    obtain ⟨tail, e, n, hmeans⟩ := exists_meansBefore hq
    obtain ⟨ws, hws⟩ := ih
    cases hqs with
    | nil => exact ⟨_, .last hmeans⟩
    | cons => exact ⟨_, .cons hmeans hws⟩

namespace Arguments

variable {qs : List (List Char)} {as : List Expr} {ws : List Written} {query : List Char}
    {place : Nat}

/-- Arguments are separated by commas and end with a parenthesis. -/
lemma exists_inside (h : Arguments limits qs as ws) :
    ∃ inside c, ws = inside ++ [c] ∧ Separated (fun w => w.isNode = true) inside ∧
      Of (.mark ')') c ∧ (qs ≠ [] → inside ≠ []) := by
  induction h with
  | nil => exact ⟨[], _, rfl, .nil, of_markAfter _ _, fun hne => absurd rfl hne⟩
  | @last q tail e n a hmeans =>
    exact ⟨[e], _, rfl, .one (isNode_of_grammatical hmeans.writes.grammatical), of_markAfter _ _,
      fun _ => by simp⟩
  | @cons q q' tail qs e n a as ws hmeans _ ih =>
    obtain ⟨inside, c, rfl, hinside, hc, hne⟩ := ih
    obtain ⟨w, more, rfl⟩ := List.exists_cons_of_ne_nil (hne (by simp))
    exact ⟨e :: closing tail ',' :: w :: more, c, rfl,
      .cons (isNode_of_grammatical hmeans.writes.grammatical) (of_markAfter _ _) hinside, hc,
      fun _ => by simp⟩

/-- Arguments are enclosed by parentheses. -/
lemma enclosed (h : Arguments limits qs as ws) :
    Enclosed '(' ')' (fun w => w.isNode = true) (markAfter [] '(' :: ws) := by
  obtain ⟨inside, c, rfl, hinside, hc, -⟩ := h.exists_inside
  exact ⟨_, inside, c, rfl, of_markAfter _ _, hinside, hc⟩

/-- Arguments are expressions. -/
lemma grammatical (h : Arguments limits qs as ws) :
    ∀ w ∈ ws, w.isNode = true → Grammatical Clear w := by
  induction h with
  | nil => simp
  | last hmeans => simpa using fun _ => hmeans.writes.grammatical
  | cons hmeans _ ih =>
    rw [List.forall_mem_cons, List.forall_mem_cons]
    exact ⟨fun _ => hmeans.writes.grammatical, by simp, ih⟩

/-- Arguments are laid out in front of any text. -/
lemma laid (h : Arguments limits qs as ws) (rest : List Char) : Laid ws rest := by
  induction h with
  | nil => exact laid_markAfter rfl (by decide) rest
  | last hmeans =>
    exact laid_closed hmeans.writes.grammatical hmeans.laid hmeans.isTail (by decide) trivial
  | cons hmeans _ ih =>
    exact laid_closed hmeans.writes.grammatical hmeans.laid hmeans.isTail (by decide) ih

/-- Arguments are written with commas on new lines between them. -/
lemma text (h : Arguments limits qs as ws) :
    textAll ws = List.intercalate ['\n', ','] qs ++ ['\n', ')'] := by
  induction h with
  | nil => simp [closing, List.intercalate]
  | last hmeans => simp [closing, hmeans.text, List.intercalate]
  | cons hmeans _ ih => simp [closing, ih, hmeans.text, List.intercalate]

/-- Of a query in front of a mark there is one node more. -/
lemma nodes_closed {c : Char} (h : MeansBefore limits q tail e n a)
    (hstands : Stands query place (e :: closing tail c :: ws)) :
    ∃ m next, nodes place (e :: closing tail c :: ws) = m :: nodes next ws ∧ Stands query next ws ∧
      Expr.StandsFor query m a ∧ m.depth stepsInto = n.depth stepsInto := by
  obtain ⟨hfirst, hmore⟩ := stands_cons hstands
  obtain ⟨m, hm, hfor, hdepth⟩ := exists_standsFor h.toMeans hfirst
  refine ⟨m, _, ?_, (stands_cons hmore).2, hfor, hdepth⟩
  rw [nodes_cons, hm, closing, nodes_markAfter, text_markAfter]
  rfl

/-- The nodes of arguments stand for the expressions of the queries. -/
lemma standsFor (h : Arguments limits qs as ws) (hstands : Stands query place ws) :
    List.Forall₂ (Expr.StandsFor query) (nodes place ws) as := by
  induction h generalizing place with
  | nil => exact .nil
  | last hmeans =>
    obtain ⟨m, next, hnodes, -, hfor, -⟩ := nodes_closed hmeans hstands
    rw [hnodes]
    exact .cons hfor .nil
  | cons hmeans _ ih =>
    obtain ⟨m, next, hnodes, hmore, hfor, -⟩ := nodes_closed hmeans hstands
    rw [hnodes]
    exact .cons hfor (ih hmore)

/-- Arguments are not nested too deep for a call if each query leaves room for one. -/
lemma leavesRoom_iff (h : Arguments limits qs as ws) (hstands : Stands query place ws) :
    ((∀ w ∈ ws, w.nesting + 2 < limits.rules) ∧
        ∀ g ∈ nodes place ws, g.depth stepsInto + 6 ≤ limits.building) ↔
      ∀ q ∈ qs, LeavesRoom limits 2 6 q := by
  have hmark : ∀ tail c, (closing tail c).nesting + 2 < limits.rules := by
    intro tail c
    simpa [closing, markAfter, nesting] using limits.lt_rules (n := 3) (by decide)
  induction h generalizing place with
  | nil =>
    have hnone : nodes place [closing [] ')'] = [] := nodes_markAfter _ _ _ _
    simp only [hnone, List.forall_mem_singleton, hmark]
    simp
  | last hmeans =>
    obtain ⟨m, next, hnodes, -, -, hdepth⟩ := nodes_closed hmeans hstands
    have hnone : nodes next [] = [] := rfl
    simp only [hnodes, hnone, List.forall_mem_cons, hmark, true_and, hdepth,
      Query.leavesRoom_iff hmeans.toMeans]
    simp
  | cons hmeans _ ih =>
    obtain ⟨m, next, hnodes, hmore, -, hdepth⟩ := nodes_closed hmeans hstands
    have hrest := ih hmore
    rw [hnodes, List.forall_mem_cons, List.forall_mem_cons, List.forall_mem_cons,
      List.forall_mem_cons, Query.leavesRoom_iff hmeans.toMeans, hdepth]
    simp only [hmark, true_and]
    tauto

end Arguments

/-- A tree that is laid out as a query stands at its start. -/
lemma stands_of_laid {query : List Char} (hlaid : Laid [e] []) (htext : e.text = query) :
    Stands query 0 [e] := ⟨[], [], by simp [htext], rfl, hlaid⟩

/-- A query between parentheses has the expression between parentheses. -/
lemma composes_paren (hq : (parseChars limits q).outcome = .ok a) :
    Composes limits (LeavesRoom limits 2 2 q) (parenthesized q)
      (.paren (String.ofList (parenthesized q)) [a]) := by
  obtain ⟨tail, e, n, h⟩ := exists_meansBefore hq
  have he := h.writes.grammatical
  have hlaid : Laid [parenOf e tail] [] := laid_parenOf he h.laid h.isTail []
  have htext := text_parenOf_of_means h
  obtain ⟨m, hm, hfor, hdepth⟩ := exists_standsFor_paren h (stands_of_laid hlaid htext)
  refine composes_of_stands (grammatical_parenOf he) hlaid htext hm hfor.2 ?_
  rw [leavesRoom_iff h.toMeans, nesting_parenOf he, hdepth]

/-! ### Calls -/

/-- A call of a function with queries as its arguments, each followed by a line end. -/
def applied (function : List Char) (queries : List (List Char)) : List Char :=
  function ++ '(' :: (List.intercalate ['\n', ','] queries ++ ['\n', ')'])

/-- The tree of a call stands for the call of the expressions. -/
lemma exists_standsFor_call {query function : List Char} {qs : List (List Char)} {as : List Expr}
    {ws : List Written} (hargs : Arguments limits qs as ws)
    (hstands : Stands query 0 [callOf function ws]) :
    ∃ m, (callOf function ws).item 0 = .node m ∧
      Expr.StandsFor query m
        (.call (String.ofList (callOf function ws).text) (String.ofList function) as) ∧
      (m.depth stepsInto ≤ limits.building ↔
        ∀ g ∈ nodes (function.length + 1) ws, g.depth stepsInto + 6 ≤ limits.building) := by
  obtain ⟨hname, hbody⟩ := stands_cons (stands_phrase.1 hstands)
  have hlist : Stands query (function.length + 1) ws := by
    simpa using (stands_cons (stands_phrase.1 hbody)).2
  obtain ⟨m, hm, hkind, hnodes, htext⟩ := exists_node_phrase hstands
  obtain ⟨f, hf, hfkind, hfchildren, hftext⟩ := exists_node_token rfl hname
  have hfunction : Expr.textOf query f = String.ofList function := congrArg String.ofList hftext
  have hleaf := Node.depth_leaf hfkind hfchildren
  obtain ⟨body, hitem, hbodykind, hinside, -⟩ := exists_node_phrase hbody
  have hchildren : m.children = [f, body] := by
    rw [hnodes, nodes_cons, nodes_cons, hf, hitem]
    rfl
  have harguments : body.children = nodes (function.length + 1) ws := by
    simpa [nodes_markAfter] using hinside
  refine ⟨m, hm, ?_, ?_⟩
  · have hfor := Expr.standsFor_call hkind hchildren hfkind hbodykind
      (harguments ▸ hargs.standsFor hlist)
    rwa [htext, hfunction] at hfor
  · have hbodydepth : body.depth stepsInto + 4 ≤ limits.building ↔
        ∀ g ∈ nodes (function.length + 1) ws, g.depth stepsInto + 6 ≤ limits.building := by
      rw [Node.depth_add_le_iff, hbodykind, harguments]
      exact and_iff_right (limits.le_building (by decide))
    have hwhole : m.depth stepsInto + 0 ≤ limits.building ↔
      body.depth stepsInto + 4 ≤ limits.building := by
      rw [Node.depth_add_le_iff, hkind, hchildren, List.forall_mem_cons, List.forall_mem_singleton,
        hleaf]
      exact (and_iff_right (limits.le_building (by decide))).trans
        (and_iff_right (limits.le_building (by decide)))
    exact hwhole.trans hbodydepth

/-- A call with queries as arguments has the call of their expressions. -/
lemma composes_call {function : List Char} {qs : List (List Char)} {as : List Expr}
    (hqs : List.Forall₂ (fun q a => (parseChars limits q).outcome = .ok a) qs as)
    (hf : Terminal.functionName.length? (function ++ ['(']) = some function.length) :
    Composes limits (∀ q ∈ qs, LeavesRoom limits 2 6 q) (applied function qs)
      (.call (String.ofList (applied function qs)) (String.ofList function) as) := by
  obtain ⟨ws, hargs⟩ := exists_arguments hqs
  have hgrammatical : Grammatical Clear (callOf function ws) := by
    refine .call ⟨_, rfl, rfl⟩ hargs.enclosed (List.forall_mem_cons.2 ⟨nofun, hargs.grammatical⟩)
  have hlaid : Laid [callOf function ws] [] := laid_callOf (beq_iff_eq.2 hf) (hargs.laid [])
  have htext : (callOf function ws).text = applied function qs := by
    rw [text_callOf, hargs.text, applied]
  have hstands := stands_of_laid hlaid htext
  obtain ⟨m, hm, hfor, hdepth⟩ := exists_standsFor_call hargs hstands
  rw [htext] at hfor
  have hlist : Stands (applied function qs) (function.length + 1) ws := by
    simpa using (stands_cons (stands_phrase.1 (stands_cons (stands_phrase.1 hstands)).2)).2
  refine composes_of_stands hgrammatical hlaid htext hm hfor.2 ?_
  rw [nesting_callOf_lt (limits.lt_rules (by decide)), hdepth, hargs.leavesRoom_iff hlist]

/-! ### Operations -/

/-- Two queries between parentheses with an operator between them. -/
def combined (op : Symbol) (left right : List Char) : List Char :=
  parenthesized left ++ op.letters ++ parenthesized right

/-- The tree of an operation stands for the operation on the expressions. -/
lemma exists_standsFor_operation {query tail' : List Char} {op : Symbol} {n' : Node}
    (h : MeansBefore limits q tail e n a) (h' : MeansBefore limits p tail' e' n' b)
    (hop : op ≠ .atSign)
    (hstands : Stands query 0 [operationOf op (parenOf e tail) (parenOf e' tail')]) :
    ∃ m, (operationOf op (parenOf e tail) (parenOf e' tail')).item 0 = .node m ∧
      Expr.StandsFor query m (.binary (String.ofList (combined op q p)) (String.ofList op.letters)
        [.paren (String.ofList (parenthesized q)) [a],
          .paren (String.ofList (parenthesized p)) [b]]) ∧
      (m.depth stepsInto ≤ limits.building ↔ n.depth stepsInto + 4 ≤ limits.building ∧
        n'.depth stepsInto + 4 ≤ limits.building) := by
  obtain ⟨hleft, hmore⟩ := stands_cons (stands_phrase.1 hstands)
  obtain ⟨hsymbol, hright⟩ := stands_cons hmore
  obtain ⟨l, hl, hlfor, hldepth⟩ := exists_standsFor_paren h hleft
  obtain ⟨r, hr, hrfor, hrdepth⟩ := exists_standsFor_paren h' hright
  obtain ⟨m, hm, hkind, hnodes, htext⟩ := exists_node_phrase hstands
  obtain ⟨o, ho, hokind, hochildren, hotext⟩ := exists_node_token rfl hsymbol
  have hoperator : Expr.textOf query o = String.ofList op.letters := congrArg String.ofList hotext
  have hleaf := Node.depth_leaf hokind hochildren
  have hchildren : m.children = [l, o, r] := by
    rw [hnodes, nodes_cons, nodes_cons, nodes_cons, hl, ho, hr]
    rfl
  have htext : Expr.textOf query m = String.ofList (combined op q p) := by
    rw [htext, combined, ← text_parenOf_of_means h, ← text_parenOf_of_means h', ← text_operationOf]
    rfl
  refine ⟨m, hm, ?_, ?_⟩
  · have hfor := Expr.standsFor_binary hkind hchildren hop hokind hlfor hrfor
    rwa [htext, hoperator] at hfor
  · have hwhole : m.depth stepsInto + 0 ≤ limits.building ↔
      l.depth stepsInto + 2 ≤ limits.building ∧
        r.depth stepsInto + 2 ≤ limits.building := by
      rw [Node.depth_add_le_iff, hkind, hchildren, List.forall_mem_cons, List.forall_mem_cons,
        List.forall_mem_singleton, hleaf]
      exact (and_iff_right (limits.le_building (by decide))).trans
        (and_congr_right fun _ => and_iff_right (limits.le_building (by decide)))
    rwa [hldepth, hrdepth] at hwhole

/-- Two queries with an operator between them have the operation on their expressions. -/
lemma composes_operation {op : Symbol} (hq : (parseChars limits q).outcome = .ok a)
    (hp : (parseChars limits p).outcome = .ok b) (hop : op ≠ .atSign) :
    Composes limits (LeavesRoom limits 2 4 q ∧ LeavesRoom limits (if op = .pow then 3 else 2) 4 p)
      (combined op q p)
      (.binary (String.ofList (combined op q p)) (String.ofList op.letters)
        [.paren (String.ofList (parenthesized q)) [a],
          .paren (String.ofList (parenthesized p)) [b]]) := by
  obtain ⟨tail, e, n, h⟩ := exists_meansBefore hq
  obtain ⟨tail', e', n', h'⟩ := exists_meansBefore hp
  have he := h.writes.grammatical
  have he' := h'.writes.grammatical
  have hlaid : Laid [operationOf op (parenOf e tail) (parenOf e' tail')] [] :=
    laid_operationOf (laid_parenOf he h.laid h.isTail) (laid_parenOf he' h'.laid h'.isTail [])
  have htext : (operationOf op (parenOf e tail) (parenOf e' tail')).text = combined op q p := by
    rw [text_operationOf, text_parenOf_of_means h, text_parenOf_of_means h', combined]
  obtain ⟨m, hm, hfor, hdepth⟩ :=
    exists_standsFor_operation h h' hop (stands_of_laid hlaid htext)
  refine composes_of_stands (grammatical_operationOf hop he he') hlaid htext hm hfor.2 ?_
  have hnesting : e'.nesting + (if op = .pow then 3 else 2) < limits.rules ↔
      e'.nesting + 2 + (if op = .pow then 1 else 0) < limits.rules := by
    split <;> rfl
  rw [leavesRoom_iff h.toMeans, leavesRoom_iff h'.toMeans, hnesting,
    nesting_operationOf_lt (limits.lt_rules (by decide)), nesting_parenOf he, nesting_parenOf he',
    hdepth]
  tauto

/-! ### Composition -/

/-- Queries that have expressions compose: between parentheses, as arguments of a call, and as
operands of an operator that is written in symbols. -/
theorem parse_composed {qs : List (List Char)} {as : List Expr} {function : List Char} {op : Symbol}
    (hq : (parseChars limits q).outcome = .ok a) (hp : (parseChars limits p).outcome = .ok b)
    (hqs : List.Forall₂ (fun q a => (parseChars limits q).outcome = .ok a) qs as)
    (hf : Terminal.functionName.length? (function ++ ['(']) = some function.length)
    (hop : op ≠ .atSign) :
    Composes limits (LeavesRoom limits 2 2 q) (parenthesized q)
        (.paren (String.ofList (parenthesized q)) [a]) ∧
      Composes limits (∀ q ∈ qs, LeavesRoom limits 2 6 q) (applied function qs)
        (.call (String.ofList (applied function qs)) (String.ofList function) as) ∧
      Composes limits (LeavesRoom limits 2 4 q ∧ LeavesRoom limits (if op = .pow then 3 else 2) 4 p)
        (combined op q p)
        (.binary (String.ofList (combined op q p)) (String.ofList op.letters)
          [.paren (String.ofList (parenthesized q)) [a],
            .paren (String.ofList (parenthesized p)) [b]]) :=
  ⟨composes_paren hq, composes_call hqs hf, composes_operation hq hp hop⟩

/-- The metric `a` with a comment behind it, the number `1`, the function `f` and the operator
`^`. -/
theorem parse_composed_commented :
    (parseChars .usual ['a', '#', 'c']).outcome = .ok (.vector "a" "a" [] none) ∧
      (parseChars .usual ['1']).outcome = .ok (.number "1" "1") ∧
      List.Forall₂ (fun q a => (parseChars .usual q).outcome = .ok a) [['a', '#', 'c'], ['1']]
        [.vector "a" "a" [] none, .number "1" "1"] ∧
      Terminal.functionName.length? (['f'] ++ ['(']) = some ['f'].length ∧ Symbol.pow ≠ .atSign ∧
      LeavesRoom .usual 2 6 ['a', '#', 'c'] ∧ LeavesRoom .usual 3 6 ['1'] ∧
      Composes .usual (LeavesRoom .usual 2 2 ['a', '#', 'c']) (parenthesized ['a', '#', 'c'])
        (.paren (String.ofList (parenthesized ['a', '#', 'c'])) [.vector "a" "a" [] none]) ∧
      Composes .usual (∀ q ∈ [['a', '#', 'c'], ['1']], LeavesRoom .usual 2 6 q)
        (applied ['f'] [['a', '#', 'c'], ['1']])
        (.call (String.ofList (applied ['f'] [['a', '#', 'c'], ['1']])) (String.ofList ['f'])
          [.vector "a" "a" [] none, .number "1" "1"]) ∧
      Composes .usual (LeavesRoom .usual 2 4 ['a', '#', 'c'] ∧
        LeavesRoom .usual (if Symbol.pow = .pow then 3 else 2) 4 ['1'])
        (combined .pow ['a', '#', 'c'] ['1'])
        (.binary (String.ofList (combined .pow ['a', '#', 'c'] ['1']))
          (String.ofList Symbol.pow.letters)
          [.paren (String.ofList (parenthesized ['a', '#', 'c'])) [.vector "a" "a" [] none],
            .paren (String.ofList (parenthesized ['1'])) [.number "1" "1"]]) := by
  have hq : (parseChars .usual ['a', '#', 'c']).outcome = .ok (.vector "a" "a" [] none) := rfl
  have hp : (parseChars .usual ['1']).outcome = .ok (.number "1" "1") := rfl
  have hqs : List.Forall₂ (fun q a => (parseChars .usual q).outcome = .ok a)
    [['a', '#', 'c'], ['1']]
      [.vector "a" "a" [] none, .number "1" "1"] := .cons hq (.cons hp .nil)
  have hf : Terminal.functionName.length? (['f'] ++ ['(']) = some ['f'].length := by decide +kernel
  have hop : Symbol.pow ≠ .atSign := by decide
  have hroom : LeavesRoom .usual 2 6 ['a', '#', 'c'] :=
    ⟨⟨.phrase .vectorSelector, 0, 1, [⟨.leaf .metricName, 0, 1, []⟩]⟩, rfl, by decide⟩
  have hroom' : LeavesRoom .usual 3 6 ['1'] := ⟨⟨.leaf .number, 0, 1, []⟩, rfl, by decide⟩
  exact ⟨hq, hp, hqs, hf, hop, hroom, hroom', parse_composed hq hp hqs hf hop⟩

end Query

end PromqlGuide
