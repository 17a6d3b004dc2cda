import PromqlGuide.Proofs.Expr.Source

/-!
# What nodes make

A node makes the expression of its own kind, or hands on the expression of a node below it.  So
every expression inside that of a tree is what some node makes of its own parts
(`Expr.exists_made`).

Main statement: the operations, calls, aggregations and other compounds inside an expression are
made by nodes of their kind (`Expr.exists_maker`).
-/
namespace PromqlGuide.Expr

variable {query : List Char} {n : Node} {bs : List Branch} {a : Expr}

/-- The kind of phrase that a compound expression is made of. -/
def phrase? : Expr → Option Phrase
  | aggregation .. => some .aggregation
  | call .. => some .call
  | binary .. => some .binary
  | subquery .. => some .subquery
  | paren .. => some .paren
  | unary .. => some .unary
  | _ => none

/-- Whether an expression, if it is a compound, is of the kind of a node. -/
def IsOfKind (n : Node) (a : Expr) : Prop := ∀ p ∈ a.phrase?, n.kind = .phrase p

/-- An expression that is no compound is of every kind. -/
lemma isOfKind_of_simple (h : a.phrase? = none) : IsOfKind n a := by
  intro p hp
  rw [h] at hp
  cases hp

/-- A compound of the kind of the node is of its kind. -/
lemma isOfKind_of_phrase {p : Phrase} (hkind : n.kind = .phrase p) (h : a.phrase? = some p) :
    IsOfKind n a := by
  intro q hq
  rw [h] at hq
  cases hq
  exact hkind

/-- What is shifted in time is no compound. -/
lemma phrase_shifted {text : String} {offset : Int} {e e' : Expr}
    (h : shifted? text offset e = some e') : e'.phrase? = none := by
  cases e <;> simp only [shifted?, Option.some.injEq, reduceCtorEq] at h
  all_goals
    subst h
    rfl

/-- Whether an expression is what a node makes of its own parts, and not handed on from one of
them. -/
inductive IsMade (query : List Char) (n : Node) (bs : List Branch) : Expr → Prop where
  | compound {p : Phrase} {a : Expr} : n.kind = .phrase p → a.phrase? = some p → IsMade query n bs a
  | number : IsMade query n bs (.number (textOf query n) (textOf query n))
  | string : IsMade query n bs
      (.string (textOf query n) (String.ofList (Text.inner (n.text query))))
  | vector {matchers : List Matcher} : n.kind = .phrase .vectorSelector →
      IsMade query n bs (.vector (textOf query n) (selectorName query n) matchers none)
  | matrix {name : String} {matchers : List Matcher} {range : Int} :
      n.kind = .phrase .matrixSelector →
      IsMade query n bs (.matrix (textOf query n) name matchers range none)
  | shifted {offset : Int} {inner a : Expr} : n.kind = .phrase .offset →
      shifted? (textOf query n) offset inner = some a → IsMade query n bs a
  | unknown {es : List Expr} : IsMade query n bs (.unknown (textOf query n) es)

/-- What a node makes of its own parts is of its kind. -/
lemma IsMade.isOfKind (h : IsMade query n bs a) : IsOfKind n a := by
  cases h with
  | compound hkind hphrase => exact isOfKind_of_phrase hkind hphrase
  | shifted _ hshifted => exact isOfKind_of_simple (phrase_shifted hshifted)
  | _ => exact isOfKind_of_simple rfl

/-- The value of a number is its text. -/
lemma IsMade.number_eq {text value : String} (h : IsMade query n bs (.number text value)) :
    value = text := by
  cases h with
  | compound _ hphrase => cases hphrase
  | number => rfl
  | @shifted offset inner a _ hshifted => cases inner <;> cases hshifted

/-! ### Kinds of nodes -/

/-- What is taken from the parts of an aggregation. -/
lemma exists_ofAggregation (h : (ofAggregation query n bs).result = .ok a) :
    ∃ operator es, a = .aggregation (textOf query n) operator
        ((((n.child? [.phrase .modifier]).bind fun m => m.child? [.phrase .groupingLabels]).map
          fun l => l.labels query).getD [])
        ((n.child? [.phrase .modifier]).bind fun m => m.child? [.leaf (.keyword .without)]).isSome
          es ∧
      ∀ o ∈ n.child? [.leaf .aggregationOperator], operator = Text.lowercase (textOf query o) := by
  obtain ⟨es, -, h⟩ := Noted.result_bind h
  obtain rfl := Noted.result_pure h
  refine ⟨_, es, rfl, fun o ho => ?_⟩
  rw [Option.mem_def.1 ho]

/-- An aggregation node stands for an aggregation. -/
lemma phrase_ofAggregation (h : (ofAggregation query n bs).result = .ok a) :
    a.phrase? = some .aggregation := by
  obtain ⟨operator, es, rfl, -⟩ := exists_ofAggregation h
  rfl

/-- A call node stands for a call. -/
lemma phrase_ofCall (h : (ofCall query n bs).result = .ok a) : a.phrase? = some .call := by
  unfold ofCall at h
  cases hbody : branch? bs [.phrase .callBody] <;> rw [hbody] at h
  all_goals
    obtain ⟨es, -, h⟩ := Noted.result_bind h
    obtain rfl := Noted.result_pure h
    rfl

/-- What is taken from the parts of a binary operation. -/
lemma exists_ofBinary (h : (ofBinary query n bs).result = .ok a) :
    ∃ es, a = .binary (textOf query n) (((n.children.filter fun c =>
      !c.kind.isExpression && c.kind.isOperator).getLast?.map (textOf query)).getD "") es := by
  obtain ⟨es, -, h⟩ := Noted.result_bind h
  simp only at h
  split at h
  · obtain ⟨-, -, h⟩ := Noted.result_bind h
    exact ⟨es, Noted.result_pure h⟩
  · exact ⟨es, Noted.result_pure h⟩

/-- A binary node stands for a binary expression. -/
lemma phrase_ofBinary (h : (ofBinary query n bs).result = .ok a) : a.phrase? = some .binary := by
  obtain ⟨es, rfl⟩ := exists_ofBinary h
  rfl

/-- A selector node makes its own selector. -/
lemma isMade_ofVector (hkind : n.kind = .phrase .vectorSelector)
    (h : (ofVector query n).result = .ok a) : IsMade query n bs a := by
  obtain ⟨matchers, -, h⟩ := Noted.result_bind h
  obtain rfl := Noted.result_pure h
  exact .vector hkind

/-- A subquery node stands for a subquery. -/
lemma phrase_ofSubquery (h : (ofSubquery query n bs).result = .ok a) :
    a.phrase? = some .subquery := by
  obtain ⟨es, -, h⟩ := Noted.result_bind h
  obtain ⟨range, -, h⟩ := Noted.result_bind h
  obtain ⟨step, -, h⟩ := Noted.result_bind h
  obtain rfl := Noted.result_pure h
  rfl

/-- A node of parentheses stands for parentheses. -/
lemma phrase_ofParen (h : (ofParen query n bs).result = .ok a) : a.phrase? = some .paren := by
  obtain ⟨es, -, h⟩ := Noted.result_bind h
  obtain rfl := Noted.result_pure h
  rfl

/-- A unary node stands for a unary expression. -/
lemma phrase_ofUnary (h : (ofUnary query n bs).result = .ok a) : a.phrase? = some .unary := by
  obtain ⟨es, -, h⟩ := Noted.result_bind h
  obtain rfl := Noted.result_pure h
  rfl

/-- The kinds of nodes that may hand on the expression of a part. -/
def handingOn : List Kind := [.phrase .matrixSelector, .phrase .offset, .phrase .pinned]

/-- The expression of a node that is no wrapper is made by it, or handed on from a part. -/
lemma isMade_ofBranches (hn : n.kind.isExpression = true) (hwrapper : n.kind ≠ .wrapper)
    (h : (ofBranches query n bs).result = .ok a) :
    IsMade query n bs a ∨ n.kind ∈ handingOn ∧ FromPart (reach bs) a := by
  unfold ofBranches at h
  cases hkind : n.kind with
  | wrapper => exact absurd hkind hwrapper
  | durationNumber =>
    rw [hkind] at h
    obtain rfl := Noted.result_pure h
    exact Or.inl .number
  | leaf t =>
    rw [hkind] at h hn
    cases t with
    | number =>
      obtain rfl := Noted.result_pure h
      exact Or.inl .number
    | string =>
      obtain rfl := Noted.result_pure h
      exact Or.inl .string
    | _ => cases hn
  | phrase p =>
    rw [hkind] at h hn
    cases p with
    | aggregation => exact Or.inl (.compound hkind (phrase_ofAggregation h))
    | call => exact Or.inl (.compound hkind (phrase_ofCall h))
    | binary => exact Or.inl (.compound hkind (phrase_ofBinary h))
    | vectorSelector => exact Or.inl (isMade_ofVector hkind h)
    | matrixSelector =>
      -- Brackets behind a call leave the call as it is, so the expression is the part's.
      rcases ofMatrix_cases h with ⟨name, matchers, range, rfl⟩ | ⟨b, hb, hcall, hexpr⟩
      · exact Or.inl (.matrix hkind)
      · exact Or.inr ⟨by decide, fromPart_of_mem hb (by rw [hcall]; rfl) hexpr⟩
    | subquery => exact Or.inl (.compound hkind (phrase_ofSubquery h))
    | offset =>
      rcases ofOffset_cases h with rfl | ⟨offset, inner, hshifted⟩ | hfrom
      · exact Or.inl .unknown
      · exact Or.inl (.shifted hkind hshifted)
      · exact Or.inr ⟨by decide, hfrom⟩
    | paren => exact Or.inl (.compound hkind (phrase_ofParen h))
    | unary => exact Or.inl (.compound hkind (phrase_ofUnary h))
    | pinned =>
      rcases ofOther_cases h with ⟨es, rfl, -⟩ | hfrom
      · exact Or.inl .unknown
      · exact Or.inr ⟨by decide, hfrom⟩
    | _ => cases hn
  | _ =>
    rw [hkind] at hn
    cases hn

/-! ### Makers -/

/-- The expression of an aggregation node is made as an aggregation. -/
lemma ofTree_aggregation (hkind : n.kind = .phrase .aggregation) :
    ofTree query n = ofAggregation query n (n.children.map (treeBranch query)) := by
  rw [ofTree_eq_ofBranches, ofBranches, hkind]

/-- The expression of a binary node is made as a binary expression. -/
lemma ofTree_binary (hkind : n.kind = .phrase .binary) :
    ofTree query n = ofBinary query n (n.children.map (treeBranch query)) := by
  rw [ofTree_eq_ofBranches, ofBranches, hkind]

/-- Every expression inside that of a tree without wrappers is what a node makes. -/
theorem exists_made {m : Expr} {place depth : Nat} (hn : n.kind.isExpression = true)
    (hwrapper : ∀ s ∈ n.preorder, s.kind ≠ .wrapper) (h : (ofTree query n).result = .ok a)
    (hm : (place, m) ∈ a.preorder depth) :
    ∃ s ∈ n.preorder, (ofTree query s).result = .ok m ∧
      IsMade query s (s.children.map (treeBranch query)) m := by
  have hown : ∀ k ∈ n.preorder, k.kind.isExpression = true → ∀ e, (ofTree query k).result = .ok e →
      IsMade query k (k.children.map (treeBranch query)) e ∨
        FromPart (reach (k.children.map (treeBranch query))) e := by
    intro k hk hexpr e he
    rw [ofTree_eq_ofBranches] at he
    exact (isMade_ofBranches hexpr (hwrapper k hk) he).imp_right And.right
  obtain ⟨s, hs, -, hresult, hmade⟩ := exists_origin hn hwrapper hown h hm
  exact ⟨s, hs, hresult, hmade⟩

/-- Every compound inside the expression of a tree without wrappers is what a node of its kind
makes. -/
theorem exists_maker {m : Expr} {place depth : Nat} (hn : n.kind.isExpression = true)
    (hwrapper : ∀ s ∈ n.preorder, s.kind ≠ .wrapper) (h : (ofTree query n).result = .ok a)
    (hm : (place, m) ∈ a.preorder depth) :
    ∃ s ∈ n.preorder, (ofTree query s).result = .ok m ∧ IsOfKind s m := by
  obtain ⟨s, hs, hresult, hmade⟩ := exists_made hn hwrapper h hm
  exact ⟨s, hs, hresult, hmade.isOfKind⟩

end PromqlGuide.Expr
