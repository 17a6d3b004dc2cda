import PromqlGuide.Proofs.Expr.Agreement

/-!
# Expressions of kindred trees

Two nodes of syntax trees, each over a query of its own, are *kin* in a view of expressions if they
are of the same kinds throughout and the view does not tell their texts apart where these count.
They are *twins* if they even have the same words wherever the words count; their texts need only be
the same after some change `f` has been made to both: no change for a node and its copy in another
query, everything forgotten for a query and its copy with further comments.

Main statements: kin stand for expressions that are the same in the view
(`Expr.agree_ofTree_of_kin`), and twins for expressions that are the same once `f` is applied to the
texts (`Expr.agree_ofTree`).
-/
namespace PromqlGuide

/-- Whether an expression depends on the text of nodes of a kind other than by keeping it. -/
def Kind.isSpelled : Kind → Bool
  | .root | .wrapper => false
  | .phrase p => p == .quotedName
  | _ => true

/-- The text of an operator matters. -/
lemma Kind.isSpelled_of_isOperator {k : Kind} (h : k.isOperator = true) : k.isSpelled = true := by
  cases k <;> first | rfl | cases h

/-- Whether two nodes are twins. -/
inductive Node.Twin (f : String → String) (query query' : List Char) : Node → Node → Prop where
  | intro {n n' : Node} : n.kind = n'.kind →
      f (Expr.textOf query n) = f (Expr.textOf query' n') →
      (n.kind.isSpelled = true → n.text query = n'.text query') →
      List.Forall₂ (Node.Twin f query query') n.children n'.children →
      Node.Twin f query query' n n'

/-! ### Pairs of nodes -/

/-- Whether two nodes are of the same kinds throughout, with texts in a relation that may depend on
the kind. -/
inductive Node.Paired (A : Kind → List Char → List Char → Prop) (query query' : List Char) :
    Node → Node → Prop where
  | intro {n n' : Node} : n.kind = n'.kind → A n.kind (n.text query) (n'.text query') →
      List.Forall₂ (Node.Paired A query query') n.children n'.children →
      Node.Paired A query query' n n'

namespace Node.Paired

variable {A B : Kind → List Char → List Char → Prop} {query query' : List Char} {n n' : Node}

/-- Paired nodes are of the same kind. -/
lemma kind (h : Paired A query query' n n') : n.kind = n'.kind := by
  cases h with
  | intro hkind => exact hkind

/-- The texts of paired nodes are in the relation for their kind. -/
lemma texts (h : Paired A query query' n n') : A n.kind (n.text query) (n'.text query') := by
  cases h with
  | intro _ htexts => exact htexts

/-- The children of paired nodes are paired one by one. -/
lemma children (h : Paired A query query' n n') :
    List.Forall₂ (Paired A query query') n.children n'.children := by
  cases h with
  | intro _ _ hchildren => exact hchildren

/-- Nodes stay paired in a weaker relation. -/
lemma mono (h : Paired A query query' n n') (hAB : ∀ k s s', A k s s' → B k s s') :
    Paired B query query' n n' := by
  induction n using Node.inductionOn generalizing n' with
  | step n ih =>
    exact .intro h.kind (hAB _ _ _ h.texts) (forall₂_of_mem h.children fun c hc c' => ih c hc)

/-- Nodes of the same kinds throughout are equally deep. -/
lemma depth (h : Paired A query query' n n') (steps : Kind → Nat) :
    n.depth steps = n'.depth steps := by
  induction n using Node.inductionOn generalizing n' with
  | step n ih =>
    have hdepths : List.Forall₂ (fun c c' => c.depth steps = c'.depth steps) n.children
      n'.children :=
      forall₂_of_mem h.children fun c hc c' => ih c hc
    rw [Node.depth_eq, Node.depth_eq, h.kind, map_eq_of_forall₂ hdepths fun _ _ hc => hc]

/-! ### Children of a kind -/

/-- The first children of given kinds are paired, if there are any. -/
lemma child (h : Paired A query query' n n') (kinds : List Kind) :
    Option.Rel (Paired A query query') (n.child? kinds) (n'.child? kinds) :=
  rel_find h.children fun _ _ hc => by rw [hc.kind]

/-- One of two paired nodes has a child of given kinds if the other one has. -/
lemma isSome_child (h : Paired A query query' n n') (kinds : List Kind) :
    (n.child? kinds).isSome = (n'.child? kinds).isSome :=
  isSome_of_rel (h.child kinds)

/-- What holds of the texts of all nodes of some kinds holds of the children of these kinds. -/
lemma texts_child (h : Paired A query query' n n') {kinds : List Kind}
    {T : List Char → List Char → Prop} (hT : ∀ k ∈ kinds, ∀ s s', A k s s' → T s s') :
    Option.Rel (fun c c' => T (c.text query) (c'.text query')) (n.child? kinds)
      (n'.child? kinds) := by
  have hchild := h.child kinds
  have hkind : ∀ c ∈ n.child? kinds, c.kind ∈ kinds := fun c hc => by
    simpa using List.find?_some hc
  generalize n.child? kinds = o, n'.child? kinds = o' at hchild hkind ⊢
  cases hchild with
  | none => exact .none
  | some hc => exact .some (hT _ (hkind _ rfl) _ _ hc.texts)

/-- The same for all children that satisfy a condition on their kinds. -/
lemma texts_filter (h : Paired A query query' n n') {p : Kind → Bool}
    {T : List Char → List Char → Prop} (hT : ∀ k, p k = true → ∀ s s', A k s s' → T s s') :
    List.Forall₂ (fun c c' => T (c.text query) (c'.text query'))
      (n.children.filter fun c => p c.kind) (n'.children.filter fun c => p c.kind) := by
  refine forall₂_of_mem (rel_filter (p := fun c => p c.kind) (q := fun c => p c.kind) h.children
    fun _ _ hc => by rw [hc.kind]) ?_
  intro c hmem c' hc
  exact hT _ (List.mem_filter.1 hmem).2 _ _ hc.texts

end Node.Paired

/-- What twins have in common at each node. -/
def Node.TwinTexts (f : String → String) (k : Kind) (s s' : List Char) : Prop :=
  f (String.ofList s) = f (String.ofList s') ∧ (k.isSpelled = true → s = s')

/-- Twins are nodes with what twins have in common at each node. -/
lemma Node.twin_iff_paired {f : String → String} {query query' : List Char} {n n' : Node} :
    Twin f query query' n n' ↔ Paired (TwinTexts f) query query' n n' := by
  constructor
  · intro h
    induction n using Node.inductionOn generalizing n' with
    | step n ih =>
      cases h with
      | intro hkind htext hspelled hchildren =>
        exact .intro hkind ⟨htext, hspelled⟩ (forall₂_of_mem hchildren fun c hc c' => ih c hc)
  · intro h
    induction n using Node.inductionOn generalizing n' with
    | step n ih =>
      exact .intro h.kind h.texts.1 h.texts.2 (forall₂_of_mem h.children fun c hc c' => ih c hc)

/-- Twins are equally deep. -/
lemma Node.Twin.depth {f : String → String} {query query' : List Char} {n n' : Node}
    (h : Twin f query query' n n') (steps : Kind → Nat) : n.depth steps = n'.depth steps :=
  (twin_iff_paired.1 h).depth steps

/-! ### What counts of a text -/

/-- Whether each character counts in the text of nodes of a kind. -/
def Kind.isVerbatim : Kind → Bool
  | .root | .wrapper | .durationNumber => false
  | .phrase p => p == .quotedName
  | .leaf t =>
    match t with
    | .number | .timestamp | .aggregationOperator | .startOrEnd | .keyword _ => false
    | _ => true
  | _ => true

/-- Whether nodes of a kind stand for numbers. -/
def Kind.isNumber : Kind → Bool
  | .durationNumber | .leaf .number => true
  | _ => false

/-- Whether what counts of the texts of two nodes of a kind is the same in a view. -/
structure Expr.View.Agrees (view : Expr.View) (k : Kind) (s s' : List Char) : Prop where
  text : view.text (String.ofList s) = view.text (String.ofList s')
  verbatim : k.isVerbatim = true → s = s'
  operator : k.isOperator = true →
    view.operator (String.ofList s) = view.operator (String.ofList s')
  value : k.isNumber = true → view.value (String.ofList s) = view.value (String.ofList s')
  aggregation : k = .leaf .aggregationOperator →
    Text.lowercase (String.ofList s) = Text.lowercase (String.ofList s')

/-- A text in which each character counts matters. -/
lemma Kind.isSpelled_of_isVerbatim {k : Kind} (h : k.isVerbatim = true) : k.isSpelled = true := by
  cases k <;> first | rfl | exact h

/-- The text of a number matters. -/
lemma Kind.isSpelled_of_isNumber {k : Kind} (h : k.isNumber = true) : k.isSpelled = true := by
  cases k <;> first | rfl | cases h

/-- Where texts are the same wherever they count, all that counts is the same. -/
lemma Node.agrees_of_twinTexts {f : String → String} {k : Kind} {s s' : List Char}
    (h : TwinTexts f k s s') : (Expr.View.texts f).Agrees k s s' where
  text := h.1
  verbatim := fun hk => h.2 (Kind.isSpelled_of_isVerbatim hk)
  operator := fun hk => congrArg _ (congrArg _ (h.2 (Kind.isSpelled_of_isOperator hk)))
  value := fun hk => congrArg _ (congrArg _ (h.2 (Kind.isSpelled_of_isNumber hk)))
  aggregation := fun hk => congrArg _ (congrArg _ (h.2 (by rw [hk]; rfl)))

/-- Whether two nodes are of the same kinds throughout and what counts of their texts is the
same. -/
abbrev Node.Kin (view : Expr.View) (query query' : List Char) : Node → Node → Prop :=
  Node.Paired view.Agrees query query'

namespace Node.Kin

variable {view : Expr.View} {query query' : List Char} {n n' : Node}

/-- What counts of the text of an expression is the same for both nodes. -/
lemma textOf (h : Kin view query query' n n') :
    view.text (Expr.textOf query n) = view.text (Expr.textOf query' n') := h.texts.text

/-- Of children of kinds whose text counts as it is, the texts are equal. -/
lemma text_child (h : Kin view query query' n n') (kinds : List Kind)
    (hkinds : ∀ k ∈ kinds, k.isVerbatim = true) :
    Option.Rel (fun c c' => c.text query = c'.text query') (n.child? kinds) (n'.child? kinds) :=
  h.texts_child (T := Eq) fun k hk _ _ hs => hs.verbatim (hkinds k hk)

/-- The text of a child is the same where each of its characters counts. -/
lemma textOf_child (h : Kin view query query' n n') {kinds : List Kind}
    (hkinds : ∀ k ∈ kinds, k.isVerbatim = true) :
    (n.child? kinds).map (Expr.textOf query) = (n'.child? kinds).map (Expr.textOf query') :=
  map_eq_of_rel (text_child h _ hkinds) fun _ _ hc => congrArg String.ofList hc

/-- Of the children of a kind whose text counts as it is, the texts are equal. -/
lemma text_childrenOf (h : Kin view query query' n n') (kind : Kind)
    (hkind : kind.isVerbatim = true) :
    List.Forall₂ (fun c c' => c.text query = c'.text query') (n.childrenOf kind)
      (n'.childrenOf kind) :=
  h.texts_filter (p := fun k => decide (k = kind)) (T := Eq) fun _ hk _ _ hs =>
    hs.verbatim (of_decide_eq_true hk ▸ hkind)

/-! ### Labels -/

/-- Both nodes have the same name as a matcher. -/
lemma matcherName (h : Kin view query query' n n') :
    n.matcherName? query = n'.matcherName? query' := by
  have hlabel := h.text_child [.leaf .labelName] (by decide)
  have hquoted := h.text_child [.phrase .quotedName] (by decide)
  unfold Node.matcherName?
  generalize n.child? [.leaf .labelName] = label, n'.child? [.leaf .labelName] = label'
    at hlabel ⊢
  cases hlabel with
  | none => exact map_eq_of_rel hquoted fun _ _ hc => congrArg Text.inner hc
  | some hc => exact congrArg some hc

/-- Both nodes are read as the same matcher. -/
lemma matcher (h : Kin view query query' n n') : n.matcher? query = n'.matcher? query' := by
  have hvalue := h.text_child [.leaf .string] (by decide)
  have hoperator := h.text_child [.leaf .matchOperator] (by decide)
  unfold Node.matcher?
  rw [h.matcherName]
  generalize n.child? [.leaf .string] = value, n'.child? [.leaf .string] = value' at hvalue ⊢
  generalize n.child? [.leaf .matchOperator] = operator,
    n'.child? [.leaf .matchOperator] = operator' at hoperator ⊢
  cases hvalue with
  | none => rfl
  | some hvalue =>
    cases hoperator with
    | none => simp [hvalue]
    | some hoperator => simp [hvalue, hoperator]

/-- Both nodes have the same matchers. -/
lemma matchers (h : Kin view query query' n n') :
    Noted.Agree (· = ·) (n.matchers query) (n'.matchers query') := by
  have hcandidates := rel_filter (p := fun c => c.kind.isMatcher) (q := fun c => c.kind.isMatcher)
    h.children fun _ _ hc => by rw [hc.kind]
  exact Or.inr ⟨_, _, rfl, rfl, rel_filterMap hcandidates fun _ _ hc => matcher hc⟩

/-- Both nodes have the same labels. -/
lemma labels (h : Kin view query query' n n') : n.labels query = n'.labels query' :=
  map_eq_of_forall₂ (h.text_childrenOf _ rfl) fun _ _ hc => congrArg String.ofList hc

end Node.Kin

/-! ### Parts of expressions -/

namespace Expr

variable {view : View} {query query' : List Char} {n n' : Node}

/-- Whether two parts are twins and stand for expressions that are the same but for their texts. -/
def PartKin (view : View) (query query' : List Char) (p p' : Part) : Prop :=
  Node.Kin view query query' p.node p'.node ∧ Noted.Agree (SameAs view) p.expr p'.expr

/-- Whether two branches are twins with twin parts. -/
def BranchKin (view : View) (query query' : List Char) (b b' : Branch) : Prop :=
  PartKin view query query' b.toPart b'.toPart ∧
    List.Forall₂ (PartKin view query query') b.parts b'.parts

/-- The operands among the parts look the same. -/
lemma agree_operands {ps ps' : List Part} (h : List.Forall₂ (PartKin view query query') ps ps') :
    Noted.Agree (List.Forall₂ (SameAs view)) (operands ps) (operands ps') := by
  have hparts := rel_filter (p := fun p => p.node.kind.isExpression)
    (q := fun p => p.node.kind.isExpression) h fun _ _ hp => by rw [hp.1.kind]
  refine Noted.agree_all (List.forall₂_map_left_iff.2 (List.forall₂_map_right_iff.2 ?_))
  exact hparts.imp fun _ _ hp => hp.2

/-- The operand, if there is one, looks the same. -/
lemma agree_atMostOne {o o' : Option Part} (h : Option.Rel (PartKin view query query') o o') :
    Noted.Agree (List.Forall₂ (SameAs view)) (atMostOne o) (atMostOne o') := by
  cases h with
  | none => exact Noted.agree_pure .nil
  | some hp => exact Noted.agree_bind hp.2 fun _ _ he => Noted.agree_pure (.cons he .nil)

/-- The first operands among the parts are alike. -/
lemma rel_firstOperand {ps ps' : List Part} (h : List.Forall₂ (PartKin view query query') ps ps') :
    Option.Rel (PartKin view query query') (firstOperand? ps) (firstOperand? ps') :=
  rel_find h fun _ _ hp => by rw [hp.1.kind]

/-- The same text is the text of the same expression. -/
lemma textOf_eq {c c' : Node} (h : c.text query = c'.text query') :
    textOf query c = textOf query' c' := congrArg String.ofList h

/-- The same text is the same duration. -/
lemma agree_duration {c c' : Node} (h : c.text query = c'.text query') :
    Noted.Agree (· = ·) (duration query c) (duration query' c') := by
  rw [duration, duration, h]
  exact Noted.agree_of _

/-- The same text, if there is one, is the same duration. -/
lemma agree_duration? {o o' : Option Node}
    (h : Option.Rel (fun c c' => c.text query = c'.text query') o o') :
    Noted.Agree (· = ·) (duration? query o) (duration? query' o') := by
  cases h with
  | none => exact Noted.agree_pure rfl
  | some hc =>
    exact Noted.agree_bind (agree_duration hc) fun _ _ hms => Noted.agree_pure (by rw [hms])

/-- The first branches of given kinds are alike. -/
lemma rel_branch {bs bs' : List Branch} (h : List.Forall₂ (BranchKin view query query') bs bs')
    (kinds : List Kind) :
    Option.Rel (BranchKin view query query') (branch? bs kinds) (branch? bs' kinds) :=
  rel_find h fun _ _ hb => by rw [hb.1.1.kind]

/-- Branches that are alike are alike as parts. -/
lemma rel_toPart {bs bs' : List Branch} (h : List.Forall₂ (BranchKin view query query') bs bs') :
    List.Forall₂ (PartKin view query query') (bs.map Branch.toPart) (bs'.map Branch.toPart) :=
  List.forall₂_map_left_iff.2 (List.forall₂_map_right_iff.2 (h.imp fun _ _ hb => hb.1))

/-- Both nodes have the same name as a selector. -/
lemma selectorName_eq (h : Node.Kin view query query' n n') :
    selectorName query n = selectorName query' n' := by
  rw [selectorName, selectorName, h.textOf_child (by decide)]

/-- Both nodes have the same matchers as a selector. -/
lemma agree_selectorMatchers (h : Node.Kin view query query' n n') :
    Noted.Agree (· = ·) (selectorMatchers query n) (selectorMatchers query' n') := by
  have hblock := h.child [.phrase .labelMatchers]
  unfold selectorMatchers
  generalize n.child? [.phrase .labelMatchers] = o, n'.child? [.phrase .labelMatchers] = o'
    at hblock ⊢
  cases hblock with
  | none => exact Noted.agree_pure rfl
  | some hb => exact Node.Kin.matchers hb

/-- A shift in time is seen in every view. -/
lemma seenAs_shifted (text : String) (offset : Int) (e : Expr) :
    (shifted? text offset e).map (seenAs view) =
      shifted? (view.text text) offset (e.seenAs view) := by
  cases e <;> simp [shifted?, seenAs_eq, rebuildAs]

/-- Expressions that look the same look the same when they are shifted in time. -/
lemma rel_shifted {text text' : String} {e e' : Expr} (htext : view.text text = view.text text')
    (h : SameAs view e e')
    (offset : Int) : Option.Rel (SameAs view) (shifted? text offset e)
      (shifted? text' offset e') := by
  have hshifted : (shifted? text offset e).map (seenAs view) =
      (shifted? text' offset e').map (seenAs view) := by
    rw [seenAs_shifted, seenAs_shifted, htext, show e.seenAs view = e'.seenAs view from h]
  generalize shifted? text offset e = o, shifted? text' offset e' = o' at hshifted ⊢
  cases o <;> cases o' <;> simp at hshifted
  · exact .none
  · exact .some hshifted

/-! ### Expressions of twins -/

variable {bs bs' : List Branch}

section

variable (h : Node.Kin view query query' n n')
  (hbs : List.Forall₂ (BranchKin view query query') bs bs')

include h hbs

/-- What is made of a wrapper looks the same. -/
lemma agree_ofWrapper :
    Noted.Agree (SameAs view) (ofWrapper query n bs) (ofWrapper query' n' bs') := by
  cases hbs with
  | nil => exact Noted.agree_pure (same_of_children (by simp [rebuildAs, h.textOf]) .nil)
  | cons hb => exact hb.1.2

/-- What is made of an aggregation looks the same. -/
lemma agree_ofAggregation :
    Noted.Agree (SameAs view) (ofAggregation query n bs) (ofAggregation query' n' bs') := by
  have hmodifier := h.child [.phrase .modifier]
  have hlabels := rel_bind hmodifier fun _ _ hm => hm.child [.phrase .groupingLabels]
  have hwithout :=
    isSome_of_rel (rel_bind hmodifier fun _ _ hm => hm.child [.leaf (.keyword .without)])
  have hfirst := rel_bind (rel_branch hbs [.phrase .callBody]) fun _ _ hb => rel_head hb.2
  have hoperator : Option.Rel
      (fun c c' => Text.lowercase (textOf query c) = Text.lowercase (textOf query' c'))
      (n.child? [.leaf .aggregationOperator]) (n'.child? [.leaf .aggregationOperator]) :=
    h.texts_child (T := fun s s' =>
        Text.lowercase (String.ofList s) = Text.lowercase (String.ofList s'))
      fun k hk _ _ hs => hs.aggregation (List.mem_singleton.1 hk)
  unfold ofAggregation
  refine Noted.agree_bind
    (agree_atMostOne (rel_optionFilter hfirst fun _ _ hp => by rw [hp.1.kind]))
    fun es es' hes => Noted.agree_pure ?_
  rw [map_eq_of_rel hlabels fun _ _ hl => Node.Kin.labels hl, hwithout]
  generalize n.child? [.leaf .aggregationOperator] = o, n'.child? [.leaf .aggregationOperator] = o'
    at hoperator ⊢
  cases hoperator with
  | none => exact same_of_children (by simp [rebuildAs, h.textOf]) hes
  | some ho => exact same_of_children (by simp [rebuildAs, h.textOf, ho]) hes

/-- What is made of a call looks the same. -/
lemma agree_ofCall : Noted.Agree (SameAs view) (ofCall query n bs) (ofCall query' n' bs') := by
  have hbody := rel_branch hbs [.phrase .callBody]
  have hfunction := h.text_child [.leaf .functionName] (by decide)
  have hcall : ∀ {name name' : String}, name = name' → ∀ {es es' : List Expr},
      List.Forall₂ (SameAs view) es es' →
      Noted.Agree (SameAs view) (pure (call (textOf query n) name es))
        (pure (call (textOf query' n') name' es')) := fun hname _ _ hes =>
    Noted.agree_pure (same_of_children (by simp [rebuildAs, h.textOf, hname]) hes)
  unfold ofCall
  generalize branch? bs [.phrase .callBody] = o, branch? bs' [.phrase .callBody] = o' at hbody ⊢
  generalize n.child? [.leaf .functionName] = c, n'.child? [.leaf .functionName] = c' at hfunction ⊢
  rcases hfunction with hc | _
  · rcases hbody with hb | _
    · exact Noted.agree_bind (agree_operands hb.2) fun _ _ => hcall (textOf_eq hc)
    · exact Noted.agree_bind (Noted.agree_pure .nil) fun _ _ => hcall (textOf_eq hc)
  · rcases hbody with hb | _
    · exact Noted.agree_bind (agree_operands hb.2) fun _ _ => hcall rfl
    · exact Noted.agree_bind (Noted.agree_pure .nil) fun _ _ => hcall rfl

/-- What is made of a binary expression looks the same. -/
lemma agree_ofBinary :
    Noted.Agree (SameAs view) (ofBinary query n bs) (ofBinary query' n' bs') := by
  have hoperators := rel_getLast (h.texts_filter (p := fun k => !k.isExpression && k.isOperator)
    (T := fun s s' => view.operator (String.ofList s) = view.operator (String.ofList s'))
    fun k hk _ _ hs => hs.operator (Bool.and_eq_true_iff.1 hk).2)
  have hlast : view.operator
        (((n.children.filter fun c => !c.kind.isExpression && c.kind.isOperator).getLast?.map
          (textOf query)).getD "") =
      view.operator
        (((n'.children.filter fun c => !c.kind.isExpression && c.kind.isOperator).getLast?.map
          (textOf query')).getD "") := by
    generalize (n.children.filter _).getLast? = o, (n'.children.filter _).getLast? = o'
      at hoperators ⊢
    cases hoperators with
    | none => rfl
    | some ho => exact ho
  unfold ofBinary
  refine Noted.agree_bind (agree_operands (rel_toPart hbs)) fun es es' hes => ?_
  have hbinary : ∀ {operator operator' : String}, view.operator operator = view.operator operator' →
      Noted.Agree (SameAs view) (pure (binary (textOf query n) operator es))
        (pure (binary (textOf query' n') operator' es')) := fun ho =>
    Noted.agree_pure (same_of_children (by simp [rebuildAs, h.textOf, ho]) hes)
  rw [hes.length_eq]
  split
  · exact Noted.agree_bind (Noted.agree_note _ _) fun _ _ _ => hbinary hlast
  · exact hbinary hlast

omit hbs in
/-- What is made of a selector looks the same. -/
lemma agree_ofVector : Noted.Agree (SameAs view) (ofVector query n) (ofVector query' n') := by
  unfold ofVector
  rw [selectorName_eq h]
  exact Noted.agree_bind (agree_selectorMatchers h) fun _ _ hm =>
    Noted.agree_pure (same_of_children (by simp [rebuildAs, h.textOf, hm]) .nil)

/-- What is made of a range looks the same. -/
lemma agree_ofMatrix :
    Noted.Agree (SameAs view) (ofMatrix query n bs) (ofMatrix query' n' bs') := by
  have hrange := h.text_child [.leaf .duration, .durationOperand] (by decide)
  have hselector := h.child [.phrase .vectorSelector]
  have hcall := rel_branch hbs [.phrase .call]
  have hmatrix : ∀ (name : String) (matchers : List Matcher) (range : Int),
    Noted.Agree (SameAs view)
      (pure (matrix (textOf query n) name matchers range none))
      (pure (matrix (textOf query' n') name matchers range none)) := fun _ _ _ =>
    Noted.agree_pure (same_of_children (by simp [rebuildAs, h.textOf]) .nil)
  have hselected : ∀ {v v' : Node}, Node.Kin view query query' v v' → ∀ range : Int,
      Noted.Agree (SameAs view)
        (selectorMatchers query v >>= fun matchers =>
          pure (matrix (textOf query n) (selectorName query v) matchers range none))
        (selectorMatchers query' v' >>= fun matchers =>
          pure (matrix (textOf query' n') (selectorName query' v') matchers range none)) := by
    intro v v' hv range
    rw [selectorName_eq hv]
    exact Noted.agree_bind (agree_selectorMatchers hv) fun _ _ hm => hm ▸ hmatrix _ _ _
  unfold ofMatrix
  generalize n.child? [.leaf .duration, .durationOperand] = d,
    n'.child? [.leaf .duration, .durationOperand] = d' at hrange ⊢
  generalize n.child? [.phrase .vectorSelector] = v, n'.child? [.phrase .vectorSelector] = v'
    at hselector ⊢
  generalize branch? bs [.phrase .call] = o, branch? bs' [.phrase .call] = o' at hcall ⊢
  -- The range is the same on both sides; what stands under it decides.
  rcases hrange with hd | _
  · refine Noted.agree_bind (agree_duration hd) fun range _ hr => hr ▸ ?_
    rcases hselector with hv | _
    · exact hselected hv range
    · rcases hcall with hb | _
      · exact hb.1.2
      · exact hmatrix _ _ _
  · refine Noted.agree_bind (Noted.agree_pure rfl) fun range _ hr => hr ▸ ?_
    rcases hselector with hv | _
    · exact hselected hv range
    · rcases hcall with hb | _
      · exact hb.1.2
      · exact hmatrix _ _ _

/-- What is made of a subquery looks the same. -/
lemma agree_ofSubquery :
    Noted.Agree (SameAs view) (ofSubquery query n bs) (ofSubquery query' n' bs') := by
  have hdurations := h.text_childrenOf (.leaf .duration) rfl
  unfold ofSubquery
  refine Noted.agree_bind (agree_atMostOne (rel_firstOperand (rel_toPart hbs))) fun es es' hes => ?_
  refine Noted.agree_bind (agree_duration? (rel_getElem hdurations 0)) fun range _ hrange => ?_
  refine Noted.agree_bind (agree_duration? (rel_getElem hdurations 1)) fun step _ hstep =>
    Noted.agree_pure ?_
  exact same_of_children (by simp [rebuildAs, h.textOf, hrange, hstep]) hes

/-- What is made of an offset looks the same. -/
lemma agree_ofOffset :
    Noted.Agree (SameAs view) (ofOffset query n bs) (ofOffset query' n' bs') := by
  have hduration := h.text_child [.leaf .duration] (by decide)
  have hpart := rel_firstOperand (rel_toPart hbs)
  unfold ofOffset
  rw [h.isSome_child]
  generalize firstOperand? (bs.map Branch.toPart) = o, firstOperand? (bs'.map Branch.toPart) = o'
    at hpart ⊢
  cases hpart with
  | none => exact Noted.agree_pure (same_of_children (by simp [rebuildAs, h.textOf]) .nil)
  | some hp =>
    refine Noted.agree_bind hp.2 fun e e' he => ?_
    have hshifted := rel_shifted h.textOf he
    have hzero := hshifted 0
    generalize n.child? [.leaf .duration] = d, n'.child? [.leaf .duration] = d' at hduration ⊢
    generalize shifted? (textOf query n) 0 e = s, shifted? (textOf query' n') 0 e' = s' at hzero ⊢
    cases hduration with
    | none => exact Noted.agree_pure he
    | some hd =>
      cases hzero with
      | none => exact Noted.agree_pure he
      | some =>
        refine Noted.agree_bind (agree_duration hd) fun ms _ hms => ?_
        subst hms
        exact Noted.agree_pure (rel_getD (hshifted _) he)

/-- What is made of parentheses looks the same. -/
lemma agree_ofParen : Noted.Agree (SameAs view) (ofParen query n bs) (ofParen query' n' bs') := by
  unfold ofParen
  exact Noted.agree_bind (agree_atMostOne (rel_firstOperand (rel_toPart hbs))) fun _ _ hes =>
    Noted.agree_pure (same_of_children (by simp [rebuildAs, h.textOf]) hes)

/-- What is made of a unary expression looks the same. -/
lemma agree_ofUnary : Noted.Agree (SameAs view) (ofUnary query n bs) (ofUnary query' n' bs') := by
  have hsigns : List.Forall₂ (fun c c' => c.text query = c'.text query')
      (n.children.filter fun c => c.kind = .leaf (.symbol .add) || c.kind = .leaf (.symbol .sub))
      (n'.children.filter fun c =>
        c.kind = .leaf (.symbol .add) || c.kind = .leaf (.symbol .sub)) := by
    refine h.texts_filter (p := fun k => k = .leaf (.symbol .add) || k = .leaf (.symbol .sub))
      (T := Eq) fun k hk _ _ hs => hs.verbatim ?_
    simp only [Bool.or_eq_true, decide_eq_true_eq] at hk
    rcases hk with rfl | rfl <;> rfl
  have hlast := map_eq_of_rel (rel_getLast hsigns) fun _ _ hc => textOf_eq hc
  unfold ofUnary
  refine Noted.agree_bind (agree_operands (rel_toPart hbs)) fun _ _ hes =>
    Noted.agree_pure (same_of_children (fun below => ?_) hes)
  simp only [rebuildAs, h.textOf, hlast]

/-- What is made of any other node looks the same. -/
lemma agree_ofOther : Noted.Agree (SameAs view) (ofOther query n bs) (ofOther query' n' bs') := by
  unfold ofOther
  refine Noted.agree_bind (agree_operands (rel_toPart hbs)) fun es es' hes => ?_
  have hunknown : ∀ {es es' : List Expr}, List.Forall₂ (SameAs view) es es' →
      Noted.Agree (SameAs view) (do
          Noted.note (.unrecognized n.kind es.length)
          pure (.unknown (textOf query n) es))
        (do
          Noted.note (.unrecognized n'.kind es'.length)
          pure (.unknown (textOf query' n') es')) := fun hes =>
    Noted.agree_bind (Noted.agree_note _ _) fun _ _ _ =>
      Noted.agree_pure (same_of_children (by simp [rebuildAs, h.textOf]) hes)
  rcases hes with _ | ⟨he, _ | ⟨he', hes⟩⟩
  · exact hunknown .nil
  · exact Noted.agree_pure he
  · exact hunknown (.cons he (.cons he' hes))

/-- Nodes of kin with branches of kin stand for expressions that are the same in the view. -/
theorem agree_ofBranches :
    Noted.Agree (SameAs view) (ofBranches query n bs) (ofBranches query' n' bs') := by
  have hother := agree_ofOther h hbs
  -- The texts of numbers may differ in letter case, so their values are compared.
  have hnumber : n.kind.isNumber = true → Noted.Agree (SameAs view)
      (pure (number (textOf query n) (textOf query n)))
      (pure (number (textOf query' n') (textOf query' n'))) := by
    intro hk
    have hvalue : view.value (textOf query n) = view.value (textOf query' n') := h.texts.value hk
    exact Noted.agree_pure (same_of_children (by simp [rebuildAs, h.textOf, hvalue]) .nil)
  unfold ofBranches
  rw [← h.kind]
  cases hkind : n.kind with
  | root | wrapper => exact agree_ofWrapper h hbs
  | durationNumber => exact hnumber (by rw [hkind]; rfl)
  | leaf t =>
    cases t with
    | number => exact hnumber (by rw [hkind]; rfl)
    | string =>
      refine Noted.agree_pure (same_of_children (fun _ => ?_) .nil)
      simp [rebuildAs, h.textOf, h.texts.verbatim (by rw [hkind]; rfl)]
    | _ => exact hother
  | phrase p =>
    cases p with
    | aggregation => exact agree_ofAggregation h hbs
    | call => exact agree_ofCall h hbs
    | binary => exact agree_ofBinary h hbs
    | vectorSelector => exact agree_ofVector h
    | matrixSelector => exact agree_ofMatrix h hbs
    | subquery => exact agree_ofSubquery h hbs
    | offset => exact agree_ofOffset h hbs
    | paren => exact agree_ofParen h hbs
    | unary => exact agree_ofUnary h hbs
    | _ => exact hother
  | _ => exact hother

end

/-- A node with its expression, and its children with theirs. -/
def treeBranch (query : List Char) (n : Node) : Branch :=
  ⟨⟨n, ofTree query n⟩, n.children.map fun c => ⟨c, ofTree query c⟩⟩

/-- The expression of a node is made of its branches, one for each child. -/
lemma ofTree_eq_ofBranches (query : List Char) (n : Node) :
    ofTree query n = ofBranches query n (n.children.map (treeBranch query)) := ofTree_eq query n

/-- The branches of twin trees are twins. -/
lemma branchKin_of_kin (h : Node.Kin view query query' n n') :
    BranchKin view query query' (treeBranch query n) (treeBranch query' n') := by
  induction n using Node.inductionOn generalizing n' with
  | step n ih =>
    have hbranches : List.Forall₂ (BranchKin view query query') (n.children.map (treeBranch query))
        (n'.children.map (treeBranch query')) := by
      rw [List.forall₂_map_left_iff, List.forall₂_map_right_iff]
      exact ((List.forall₂_and_left (p := (· ∈ n.children)) _ _).2 ⟨fun _ hc => hc, h.children⟩).imp
        fun c c' hc => ih c hc.1 hc.2
    refine ⟨⟨h, ?_⟩, ?_⟩
    · simp only [treeBranch, ofTree_eq_ofBranches]
      exact agree_ofBranches h hbranches
    · simpa [treeBranch, List.map_map, Function.comp_def] using rel_toPart hbranches

/-- Trees of kin stand for expressions that are the same in the view. -/
theorem agree_ofTree_of_kin (h : Node.Kin view query query' n n') :
    Noted.Agree (SameAs view) (ofTree query n) (ofTree query' n') :=
  (branchKin_of_kin h).1.2

/-- Twin trees stand for the same expression but for the texts. -/
theorem agree_ofTree {f : String → String} (h : Node.Twin f query query' n n') :
    Noted.Agree (Same f) (ofTree query n) (ofTree query' n') := by
  have hkin : Node.Kin (.texts f) query query' n n' :=
    (Node.twin_iff_paired.1 h).mono fun _ _ _ => Node.agrees_of_twinTexts
  rcases agree_ofTree_of_kin hkin with herror | ⟨a, b, ha, hb, hsame⟩
  · exact Or.inl herror
  · exact Or.inr ⟨a, b, ha, hb, same_iff.2 hsame⟩

end Expr

end PromqlGuide
