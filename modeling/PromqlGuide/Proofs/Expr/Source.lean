import PromqlGuide.Proofs.Expr.Congruence

/-!
# Where expressions come from

Some nodes hand on the expression of a node below them instead of making one of their own.  So a
node of a syntax tree need not have an expression with its text; but every expression inside the one
that a tree stands for is that of some node of the tree, and has the text of this node
(`Expr.exists_source`), if the tree holds no wrappers, as trees read from a query do not.
-/
namespace PromqlGuide

/-- Two computations have a value exactly through the value of the first one. -/
lemma Noted.result_bind {α β : Type} {m : Noted α} {g : α → Noted β} {b : β}
    (h : (m >>= g).result = .ok b) : ∃ a, m.result = .ok a ∧ (g a).result = .ok b := by
  cases hm : m.result with
  | error e => simp [bind, hm] at h
  | ok a => exact ⟨a, rfl, by simpa [bind, hm] using h⟩

/-- Behind a value the second computation decides. -/
lemma Noted.result_bind_eq {α β : Type} {m : Noted α} {a : α} (h : m.result = .ok a)
    (g : α → Noted β) : (m >>= g).result = (g a).result := by
  simp [Bind.bind, h]

/-- Behind an error there is no second computation. -/
lemma Noted.result_bind_error {α β : Type} {m : Noted α} {cause : Text.NumeralTooLong}
    (h : m.result = .error cause) (g : α → Noted β) : (m >>= g).result = .error cause := by
  simp [Bind.bind, h]

/-- A value by itself is the only value. -/
lemma Noted.result_pure {α : Type} {a b : α} (h : (pure a : Noted α).result = .ok b) : b = a := by
  cases h
  rfl

/-- Every value of a list of computations is that of one of them. -/
lemma Noted.mem_of_result_all {α : Type} {ms : List (Noted α)} {as : List α}
    (h : (Noted.all ms).result = .ok as) : ∀ a ∈ as, ∃ m ∈ ms, m.result = .ok a := by
  induction ms generalizing as with
  | nil =>
    obtain rfl := result_pure h
    simp
  | cons m ms ih =>
    obtain ⟨a, ha, h⟩ := result_bind h
    obtain ⟨more, hmore, h⟩ := result_bind h
    obtain rfl := result_pure h
    refine List.forall_mem_cons.2 ⟨⟨m, List.mem_cons_self, ha⟩, fun b hb => ?_⟩
    obtain ⟨k, hk, hb⟩ := ih hmore b hb
    exact ⟨k, List.mem_cons_of_mem m hk, hb⟩

/-! ### Nodes of a tree -/

namespace Node

/-- A tree holds its root and what the trees of the children hold. -/
lemma mem_preorder_iff {n m : Node} :
    m ∈ n.preorder ↔ m = n ∨ ∃ c ∈ n.children, m ∈ c.preorder := by
  rw [preorder_eq, List.mem_cons, List.mem_flatten]
  simp only [List.mem_map, exists_exists_and_eq_and]

/-- A tree holds its root. -/
lemma mem_preorder_self (n : Node) : n ∈ n.preorder := mem_preorder_iff.2 (Or.inl rfl)

/-- A tree holds the children of its root. -/
lemma mem_preorder_of_mem_children {n c : Node} (hc : c ∈ n.children) : c ∈ n.preorder :=
  mem_preorder_iff.2 (Or.inr ⟨c, hc, c.mem_preorder_self⟩)

/-- What stands below a node of a tree stands in the tree. -/
lemma mem_preorder_trans {n m k : Node} (hm : m ∈ n.preorder) (hk : k ∈ m.preorder) :
    k ∈ n.preorder := by
  induction n using Node.inductionOn with
  | step n ih =>
    rcases mem_preorder_iff.1 hm with rfl | ⟨c, hc, hm⟩
    · exact hk
    · exact mem_preorder_iff.2 (Or.inr ⟨c, hc, ih c hc hm⟩)

/-- No child is deeper than its parent. -/
lemma depth_le_of_mem_children {steps : Kind → Nat} {n c : Node} (hc : c ∈ n.children) :
    c.depth steps ≤ n.depth steps := by
  rw [depth_eq steps n]
  rw [List.foldl_max]
  have hmax := List.le_max?_getD_of_mem (k := 0) (List.mem_map_of_mem (f := depth steps) hc)
  omega

/-- A node is no deeper than a tree that it is in. -/
lemma depth_le_of_mem_preorder (steps : Kind → Nat) {n m : Node} (hm : m ∈ n.preorder) :
    m.depth steps ≤ n.depth steps := by
  induction n using Node.inductionOn with
  | step n ih =>
    rcases mem_preorder_iff.1 hm with rfl | ⟨c, hc, hm⟩
    · exact Nat.le_refl _
    · exact Nat.le_trans (ih c hc hm) (depth_le_of_mem_children hc)

end Node

namespace Expr

variable {query : List Char} {n : Node} {ps : List Part} {bs : List Branch} {a : Expr}

/-- Whether an expression is that of one of the parts that stand for one. -/
def FromPart (ps : List Part) (a : Expr) : Prop :=
  ∃ p ∈ ps, p.node.kind.isExpression = true ∧ p.expr.result = .ok a

/-- The parts of branches, and theirs. -/
def reach (bs : List Branch) : List Part := bs.flatMap fun b => b.toPart :: b.parts

/-- Whether an expression is made of those of parts under a text, or is handed on from a part. -/
def MadeFrom (text : String) (ps : List Part) (a : Expr) : Prop :=
  (a.text = text ∧ ∀ c ∈ a.children, FromPart ps c) ∨ FromPart ps a

/-- An expression of some parts is one of more parts. -/
lemma FromPart.mono {ps' : List Part} (h : FromPart ps a) (hps : ∀ p ∈ ps, p ∈ ps') :
    FromPart ps' a := by
  obtain ⟨p, hp, hexpr⟩ := h
  exact ⟨p, hps p hp, hexpr⟩

/-- A branch is in reach. -/
lemma mem_reach_of_mem {b : Branch} (hb : b ∈ bs) : b.toPart ∈ reach bs :=
  List.mem_flatMap.2 ⟨b, hb, List.mem_cons_self⟩

/-- The parts of a branch are in reach. -/
lemma mem_reach_of_mem_parts {b : Branch} (hb : b ∈ bs) {p : Part} (hp : p ∈ b.parts) :
    p ∈ reach bs :=
  List.mem_flatMap.2 ⟨b, hb, List.mem_cons_of_mem _ hp⟩

/-- The branches as parts are in reach. -/
lemma mem_reach_of_mem_map {p : Part} (hp : p ∈ bs.map Branch.toPart) : p ∈ reach bs := by
  obtain ⟨b, hb, rfl⟩ := List.mem_map.1 hp
  exact mem_reach_of_mem hb

/-- The first branch of given kinds is one of the branches and of these kinds. -/
lemma mem_of_branch {kinds : List Kind} {b : Branch} (h : branch? bs kinds = some b) :
    b ∈ bs ∧ b.node.kind ∈ kinds :=
  ⟨List.mem_of_find?_eq_some h, by simpa using List.find?_some h⟩

/-- The expression of a branch is in reach. -/
lemma fromPart_of_mem {b : Branch} (hb : b ∈ bs) (hexpr : b.node.kind.isExpression = true)
    (h : b.expr.result = .ok a) : FromPart (reach bs) a :=
  ⟨b.toPart, mem_reach_of_mem hb, hexpr, h⟩

/-- The operands are expressions of the parts. -/
lemma fromPart_operands {es : List Expr} (h : (operands ps).result = .ok es) :
    ∀ e ∈ es, FromPart ps e := by
  intro e he
  obtain ⟨m, hm, hresult⟩ := Noted.mem_of_result_all h e he
  obtain ⟨p, hp, rfl⟩ := List.mem_map.1 hm
  obtain ⟨hp, hexpr⟩ := List.mem_filter.1 hp
  exact ⟨p, hp, hexpr, hresult⟩

/-- The operand, if there is one, is the expression of a part. -/
lemma fromPart_atMostOne {o : Option Part} {es : List Expr}
    (ho : ∀ p ∈ o, p ∈ ps ∧ p.node.kind.isExpression = true)
    (h : (atMostOne o).result = .ok es) : ∀ e ∈ es, FromPart ps e := by
  cases o with
  | none =>
    obtain rfl := Noted.result_pure h
    simp
  | some p =>
    obtain ⟨e, he, h⟩ := Noted.result_bind h
    obtain rfl := Noted.result_pure h
    obtain ⟨hp, hexpr⟩ := ho p rfl
    simpa using ⟨p, hp, hexpr, he⟩

/-- The first operand is a part that stands for an expression. -/
lemma mem_of_firstOperand {p : Part} (h : p ∈ firstOperand? ps) :
    p ∈ ps ∧ p.node.kind.isExpression = true :=
  ⟨List.mem_of_find?_eq_some h, by simpa using List.find?_some h⟩

/-! ### Kinds of nodes -/

/-- An aggregation is made of what is in reach. -/
lemma madeFrom_ofAggregation (h : (ofAggregation query n bs).result = .ok a) :
    MadeFrom (textOf query n) (reach bs) a := by
  obtain ⟨es, hes, h⟩ := Noted.result_bind h
  obtain rfl := Noted.result_pure h
  refine Or.inl ⟨rfl, fromPart_atMostOne (fun p hp => ?_) hes⟩
  obtain ⟨hp, hexpr⟩ := Option.mem_filter_iff.1 hp
  obtain ⟨b, hb, hp⟩ := Option.mem_bind_iff.1 hp
  exact ⟨mem_reach_of_mem_parts (mem_of_branch hb).1 (List.mem_of_mem_head? hp), hexpr⟩

/-- A call is made of what is in reach. -/
lemma madeFrom_ofCall (h : (ofCall query n bs).result = .ok a) :
    MadeFrom (textOf query n) (reach bs) a := by
  unfold ofCall at h
  cases hbody : branch? bs [.phrase .callBody] with
  | none =>
    rw [hbody] at h
    obtain ⟨es, hes, h⟩ := Noted.result_bind h
    obtain rfl := Noted.result_pure h
    obtain rfl := Noted.result_pure hes
    exact Or.inl ⟨rfl, by simp [children]⟩
  | some b =>
    rw [hbody] at h
    obtain ⟨es, hes, h⟩ := Noted.result_bind h
    obtain rfl := Noted.result_pure h
    exact Or.inl ⟨rfl, fun c hc => (fromPart_operands hes c hc).mono fun p hp =>
      mem_reach_of_mem_parts (mem_of_branch hbody).1 hp⟩

/-- A binary expression is made of what is in reach. -/
lemma madeFrom_ofBinary (h : (ofBinary query n bs).result = .ok a) :
    MadeFrom (textOf query n) (reach bs) a := by
  obtain ⟨es, hes, h⟩ := Noted.result_bind h
  have hmade : ∀ operator, MadeFrom (textOf query n) (reach bs)
    (binary (textOf query n) operator es) :=
    fun _ => Or.inl ⟨rfl, fun c hc => (fromPart_operands hes c hc).mono fun _ =>
      mem_reach_of_mem_map⟩
  simp only at h
  split at h
  · obtain ⟨-, -, h⟩ := Noted.result_bind h
    obtain rfl := Noted.result_pure h
    exact hmade _
  · obtain rfl := Noted.result_pure h
    exact hmade _

/-- A selector is made of its text alone. -/
lemma madeFrom_ofVector (h : (ofVector query n).result = .ok a) :
    MadeFrom (textOf query n) (reach bs) a := by
  obtain ⟨matchers, -, h⟩ := Noted.result_bind h
  obtain rfl := Noted.result_pure h
  exact Or.inl ⟨rfl, by simp [children]⟩

/-- A range over values is a selector, or the call that it is applied to. -/
lemma ofMatrix_cases (h : (ofMatrix query n bs).result = .ok a) :
    (∃ name matchers range, a = matrix (textOf query n) name matchers range none) ∨
      ∃ b ∈ bs, b.node.kind = .phrase .call ∧ b.expr.result = .ok a := by
  unfold ofMatrix at h
  cases hrange : n.child? [.leaf .duration, .durationOperand] <;> rw [hrange] at h
  -- The range only matters for selectors.
  all_goals
    obtain ⟨range, -, h⟩ := Noted.result_bind h
    split at h
    · obtain ⟨matchers, -, h⟩ := Noted.result_bind h
      obtain rfl := Noted.result_pure h
      exact Or.inl ⟨_, _, _, rfl⟩
    · split at h
      · next b hb =>
        obtain ⟨hmem, hkind⟩ := mem_of_branch hb
        exact Or.inr ⟨b, hmem, List.mem_singleton.1 hkind, h⟩
      · obtain rfl := Noted.result_pure h
        exact Or.inl ⟨_, _, _, rfl⟩

/-- A range is made of its text alone. -/
lemma madeFrom_ofMatrix (h : (ofMatrix query n bs).result = .ok a) :
    MadeFrom (textOf query n) (reach bs) a := by
  rcases ofMatrix_cases h with ⟨name, matchers, range, rfl⟩ | ⟨b, hb, hkind, hexpr⟩
  · exact Or.inl ⟨rfl, by simp [children]⟩
  · exact Or.inr (fromPart_of_mem hb (by rw [hkind]; rfl) hexpr)

/-- A subquery is made of what is in reach. -/
lemma madeFrom_ofSubquery (h : (ofSubquery query n bs).result = .ok a) :
    MadeFrom (textOf query n) (reach bs) a := by
  obtain ⟨es, hes, h⟩ := Noted.result_bind h
  obtain ⟨range, -, h⟩ := Noted.result_bind h
  obtain ⟨step, -, h⟩ := Noted.result_bind h
  obtain rfl := Noted.result_pure h
  refine Or.inl ⟨rfl, fromPart_atMostOne (fun p hp => ?_) hes⟩
  exact (mem_of_firstOperand hp).imp_left mem_reach_of_mem_map

/-- Parentheses are made of what is in reach. -/
lemma madeFrom_ofParen (h : (ofParen query n bs).result = .ok a) :
    MadeFrom (textOf query n) (reach bs) a := by
  obtain ⟨es, hes, h⟩ := Noted.result_bind h
  obtain rfl := Noted.result_pure h
  refine Or.inl ⟨rfl, fromPart_atMostOne (fun p hp => ?_) hes⟩
  exact (mem_of_firstOperand hp).imp_left mem_reach_of_mem_map

/-- A unary expression is made of what is in reach. -/
lemma madeFrom_ofUnary (h : (ofUnary query n bs).result = .ok a) :
    MadeFrom (textOf query n) (reach bs) a := by
  obtain ⟨es, hes, h⟩ := Noted.result_bind h
  obtain rfl := Noted.result_pure h
  exact Or.inl ⟨rfl, fun c hc => (fromPart_operands hes c hc).mono fun _ => mem_reach_of_mem_map⟩

/-- Other nodes stand for the one expression inside, or for a fragment. -/
lemma ofOther_cases (h : (ofOther query n bs).result = .ok a) :
    (∃ es, a = unknown (textOf query n) es ∧ ∀ e ∈ es, FromPart (reach bs) e) ∨
      FromPart (reach bs) a := by
  obtain ⟨es, hes, h⟩ := Noted.result_bind h
  have hparts : ∀ e ∈ es, FromPart (reach bs) e := fun e he =>
    (fromPart_operands hes e he).mono fun _ => mem_reach_of_mem_map
  split at h
  · obtain rfl := Noted.result_pure h
    exact Or.inr (hparts _ List.mem_cons_self)
  · obtain ⟨-, -, h⟩ := Noted.result_bind h
    obtain rfl := Noted.result_pure h
    exact Or.inl ⟨es, rfl, hparts⟩

/-- Any other node makes its expression of what is in reach or hands one on. -/
lemma madeFrom_ofOther (h : (ofOther query n bs).result = .ok a) :
    MadeFrom (textOf query n) (reach bs) a := by
  rcases ofOther_cases h with ⟨es, rfl, hparts⟩ | hfrom
  · exact Or.inl ⟨rfl, hparts⟩
  · exact Or.inr hfrom

/-- A shift in time changes a selector, and hands on all other expressions. -/
lemma ofOffset_cases (h : (ofOffset query n bs).result = .ok a) :
    a = unknown (textOf query n) [] ∨
      (∃ offset inner, shifted? (textOf query n) offset inner = some a) ∨
      FromPart (reach bs) a := by
  unfold ofOffset at h
  split at h
  · obtain rfl := Noted.result_pure h
    exact Or.inl rfl
  · next p hp =>
    obtain ⟨hmem, hexpr⟩ := mem_of_firstOperand hp
    obtain ⟨inner, hinner, h⟩ := Noted.result_bind h
    have hfrom : FromPart (reach bs) inner := ⟨p, mem_reach_of_mem_map hmem, hexpr, hinner⟩
    split at h
    · obtain ⟨ms, -, h⟩ := Noted.result_bind h
      obtain rfl := Noted.result_pure h
      cases hshifted : shifted? (textOf query n) _ inner with
      | none => exact Or.inr (Or.inr hfrom)
      | some e => exact Or.inr (Or.inl ⟨_, inner, hshifted⟩)
    · obtain rfl := Noted.result_pure h
      exact Or.inr (Or.inr hfrom)

/-- What is shifted in time has the given text and no children. -/
lemma children_shifted {text : String} {offset : Int} {e e' : Expr}
    (h : shifted? text offset e = some e') : e'.text = text ∧ e'.children = [] := by
  cases e <;> simp only [shifted?, Option.some.injEq, reduceCtorEq] at h
  all_goals
    subst h
    exact ⟨rfl, rfl⟩

/-- An offset hands on an expression in reach or shifts it in time. -/
lemma madeFrom_ofOffset (h : (ofOffset query n bs).result = .ok a) :
    MadeFrom (textOf query n) (reach bs) a := by
  rcases ofOffset_cases h with rfl | ⟨offset, inner, hshifted⟩ | hfrom
  · exact Or.inl ⟨rfl, by simp [children]⟩
  · obtain ⟨htext, hchildren⟩ := children_shifted hshifted
    exact Or.inl ⟨htext, by simp [hchildren]⟩
  · exact Or.inr hfrom

/-- The expression of a node that does not only wrap another is made from those of the parts in
reach, or handed on from one of them. -/
theorem madeFrom_ofBranches (hroot : n.kind ≠ .root) (hwrapper : n.kind ≠ .wrapper)
    (h : (ofBranches query n bs).result = .ok a) : MadeFrom (textOf query n) (reach bs) a := by
  have hleaf : ∀ e : Expr, e.text = textOf query n → e.children = [] →
      (pure e : Noted Expr).result = .ok a → MadeFrom (textOf query n) (reach bs) a := by
    intro e htext hchildren h
    obtain rfl := Noted.result_pure h
    exact Or.inl ⟨htext, by simp [hchildren]⟩
  unfold ofBranches at h
  cases hkind : n.kind with
  | root => exact absurd hkind hroot
  | wrapper => exact absurd hkind hwrapper
  | durationNumber =>
    rw [hkind] at h
    exact hleaf _ rfl rfl h
  | leaf t =>
    rw [hkind] at h
    cases t with
    | number | string => exact hleaf _ rfl rfl h
    | _ => exact madeFrom_ofOther h
  | phrase p =>
    rw [hkind] at h
    cases p with
    | aggregation => exact madeFrom_ofAggregation h
    | call => exact madeFrom_ofCall h
    | binary => exact madeFrom_ofBinary h
    | vectorSelector => exact madeFrom_ofVector h
    | matrixSelector => exact madeFrom_ofMatrix h
    | subquery => exact madeFrom_ofSubquery h
    | offset => exact madeFrom_ofOffset h
    | paren => exact madeFrom_ofParen h
    | unary => exact madeFrom_ofUnary h
    | _ => exact madeFrom_ofOther h
  | _ =>
    rw [hkind] at h
    exact madeFrom_ofOther h

/-- The root of a tree stands for no expression. -/
lemma ne_root_of_isExpression (hn : n.kind.isExpression = true) : n.kind ≠ .root := by
  intro hroot
  rw [hroot] at hn
  cases hn

/-! ### Sources -/

/-- Whether a node of a tree has an expression with its own text. -/
def IsSource (query : List Char) (n : Node) (a : Expr) : Prop :=
  n.kind.isExpression = true ∧ (ofTree query n).result = .ok a ∧ a.text = textOf query n

/-- A part in reach of the branches of a node is a node of its tree with its expression. -/
lemma mem_preorder_of_mem_reach {p : Part}
    (hp : p ∈ reach (n.children.map (treeBranch query))) :
    ∃ c ∈ n.children, p.node ∈ c.preorder ∧ p.expr = ofTree query p.node := by
  obtain ⟨b, hb, hp⟩ := List.mem_flatMap.1 hp
  obtain ⟨c, hc, rfl⟩ := List.mem_map.1 hb
  rcases List.mem_cons.1 hp with rfl | hp
  · exact ⟨c, hc, c.mem_preorder_self, rfl⟩
  · obtain ⟨g, hg, rfl⟩ := List.mem_map.1 hp
    exact ⟨c, hc, Node.mem_preorder_iff.2 (Or.inr ⟨g, hg, g.mem_preorder_self⟩), rfl⟩

/-- Every expression inside that of a tree without wrappers is that of a node that has not handed it
on: of one that has a property which all nodes have with the expressions that they make
themselves. -/
theorem exists_origin {P : Node → Expr → Prop} {m : Expr} {place depth : Nat}
    (hn : n.kind.isExpression = true) (hwrapper : ∀ s ∈ n.preorder, s.kind ≠ .wrapper)
    (hP : ∀ k ∈ n.preorder, k.kind.isExpression = true → ∀ e, (ofTree query k).result = .ok e →
      P k e ∨ FromPart (reach (k.children.map (treeBranch query))) e)
    (h : (ofTree query n).result = .ok a) (hm : (place, m) ∈ a.preorder depth) :
    ∃ s ∈ n.preorder, s.kind.isExpression = true ∧ (ofTree query s).result = .ok m ∧ P s m := by
  -- A node reaches down to its children's children, so the induction is for all nodes of a tree.
  have all : ∀ k : Node, (∀ s ∈ k.preorder, s ∈ n.preorder) → ∀ l ∈ k.preorder,
      l.kind.isExpression = true → ∀ a depth, (ofTree query l).result = .ok a →
      (place, m) ∈ a.preorder depth →
      ∃ s ∈ n.preorder, s.kind.isExpression = true ∧ (ofTree query s).result = .ok m ∧ P s m := by
    intro k
    induction k using Node.inductionOn with
    | step k ih =>
      intro hin l hl hexpr a depth ha hm
      have below : ∀ c ∈ k.children, ∀ s ∈ c.preorder, s ∈ n.preorder := fun c hc s hs =>
        hin s (Node.mem_preorder_iff.2 (Or.inr ⟨c, hc, hs⟩))
      have parts : ∀ e depth, FromPart (reach (k.children.map (treeBranch query))) e →
          (place, m) ∈ e.preorder depth →
          ∃ s ∈ n.preorder, s.kind.isExpression = true ∧ (ofTree query s).result = .ok m ∧
            P s m := by
        rintro e depth ⟨p, hp, hexpr, he⟩ hm
        obtain ⟨c, hc, hnode, hpart⟩ := mem_preorder_of_mem_reach hp
        exact ih c hc (below c hc) p.node hnode hexpr e depth (hpart ▸ he) hm
      rcases Node.mem_preorder_iff.1 hl with rfl | ⟨c, hc, hl⟩
      · have hself := hin l l.mem_preorder_self
        have hmade := ha
        rw [ofTree_eq_ofBranches] at hmade
        rcases madeFrom_ofBranches (ne_root_of_isExpression hexpr) (hwrapper l hself) hmade with
          ⟨-, hchildren⟩ | hfrom
        · rw [preorder_eq] at hm
          rcases List.mem_cons.1 hm with heq | hm
          · cases heq
            rcases hP l hself hexpr m ha with hown | hfrom
            · exact ⟨l, hself, hexpr, ha, hown⟩
            · have hmem : (place, m) ∈ m.preorder place := by
                rw [preorder_eq]
                exact List.mem_cons_self
              exact parts m place hfrom hmem
          · obtain ⟨c, hc, hm⟩ := List.mem_flatMap.1 hm
            exact parts c _ (hchildren c hc) hm
        · exact parts a depth hfrom hm
      · exact ih c hc (below c hc) l hl hexpr a depth ha hm
  exact all n (fun _ hs => hs) n n.mem_preorder_self hn a depth h hm

/-- Every expression inside that of a tree without wrappers is that of a node with its text. -/
theorem exists_source {m : Expr} {place depth : Nat} (hn : n.kind.isExpression = true)
    (hwrapper : ∀ s ∈ n.preorder, s.kind ≠ .wrapper) (h : (ofTree query n).result = .ok a)
    (hm : (place, m) ∈ a.preorder depth) : ∃ s ∈ n.preorder, IsSource query s m := by
  refine exists_origin (P := fun k e => e.text = textOf query k) hn hwrapper ?_ h hm
  intro k hk hexpr e he
  rw [ofTree_eq_ofBranches] at he
  exact (madeFrom_ofBranches (ne_root_of_isExpression hexpr) (hwrapper k hk) he).imp_left And.left

end Expr

end PromqlGuide
