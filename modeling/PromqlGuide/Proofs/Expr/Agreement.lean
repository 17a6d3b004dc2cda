import PromqlGuide.Expr.OfTree
import PromqlGuide.Proofs.Lists

/-!
# Agreement

Values made of two syntax trees side by side: computations that yield agreeing values or end with
the same error, and expressions that are the same once their texts are changed in some way.  More
generally they may be the same in a *view*, which also says what counts of operators and numbers.
-/
namespace PromqlGuide

/-! ### Computations -/

namespace Noted

variable {α β γ δ : Type} {R : α → β → Prop} {S : γ → δ → Prop}

/-- Whether two computations yield values in a relation, or end with the same error. -/
def Agree (R : α → β → Prop) (m : Noted α) (m' : Noted β) : Prop :=
  (∃ e, m.result = .error e ∧ m'.result = .error e) ∨
    ∃ a b, m.result = .ok a ∧ m'.result = .ok b ∧ R a b

/-- Values in the relation agree. -/
lemma agree_pure {a : α} {b : β} (h : R a b) : Agree R (pure a) (pure b) :=
  Or.inr ⟨a, b, rfl, rfl, h⟩

/-- A result agrees with itself. -/
lemma agree_of (r : Except Text.NumeralTooLong α) : Agree (· = ·) (Noted.of r) (Noted.of r) := by
  cases r with
  | error e => exact Or.inl ⟨e, rfl, rfl⟩
  | ok a => exact Or.inr ⟨a, a, rfl, rfl, rfl⟩

/-- What is made of values that agree agrees if it does for all of them. -/
lemma agree_bind {m : Noted α} {m' : Noted β} {g : α → Noted γ} {h : β → Noted δ}
    (hm : Agree R m m') (hgh : ∀ a b, R a b → Agree S (g a) (h b)) :
    Agree S (m >>= g) (m' >>= h) := by
  rcases hm with ⟨e, he, he'⟩ | ⟨a, b, ha, hb, hab⟩
  · exact Or.inl ⟨e, by simp [bind, he], by simp [bind, he']⟩
  · rcases hgh a b hab with ⟨e, he, he'⟩ | ⟨c, d, hc, hd, hcd⟩
    · exact Or.inl ⟨e, by simp [bind, ha, he], by simp [bind, hb, he']⟩
    · exact Or.inr ⟨c, d, by simp [bind, ha, hc], by simp [bind, hb, hd], hcd⟩

/-- Notes do not count. -/
lemma agree_note (n n' : Note) : Agree (fun _ _ => True) (note n) (note n') :=
  Or.inr ⟨(), (), rfl, rfl, trivial⟩

/-- Computations that agree one by one agree when they are gone through. -/
lemma agree_all {ms : List (Noted α)} {ms' : List (Noted β)}
    (h : List.Forall₂ (Agree R) ms ms') : Agree (List.Forall₂ R) (all ms) (all ms') := by
  induction h with
  | nil => exact agree_pure .nil
  | cons hm _ ih =>
    exact agree_bind hm fun a b hab => agree_bind ih fun as bs hs => agree_pure (.cons hab hs)

end Noted

/-! ### Expressions -/

namespace Expr

/-- A property that passes from the children to an expression holds of every expression. -/
theorem inductionOn {P : Expr → Prop} (step : ∀ e, (∀ c ∈ e.children, P c) → P e) (e : Expr) :
    P e :=
  step e fun c _ => inductionOn step c
termination_by e
decreasing_by
  rename_i hc
  cases e <;> simp only [children, List.not_mem_nil] at hc
  all_goals
    have := List.sizeOf_lt_of_mem hc
    simp
    omega

/-- An expression with its text changed and with other children. -/
def rebuild (f : String → String) : Expr → List Expr → Expr
  | aggregation text operator grouping without _, below =>
    aggregation (f text) operator grouping without below
  | call text function _, below => call (f text) function below
  | binary text operator _, below => binary (f text) operator below
  | vector text name matchers offset, _ => vector (f text) name matchers offset
  | matrix text name matchers range offset, _ => matrix (f text) name matchers range offset
  | subquery text _ range step, below => subquery (f text) below range step
  | number text value, _ => number (f text) value
  | string text value, _ => string (f text) value
  | paren text _, below => paren (f text) below
  | unary text operator _, below => unary (f text) operator below
  | unknown text _, below => unknown (f text) below
  | bare text, _ => bare (f text)

/-- An expression with all its texts changed. -/
def retext (f : String → String) : Expr → Expr := fold (rebuild f)

/-- The texts of the children are changed with that of the expression. -/
lemma retext_eq (f : String → String) (e : Expr) :
    e.retext f = e.rebuild f (e.children.map (retext f)) := fold_eq _ e

/-- With its own children and its text unchanged, an expression stays the same. -/
lemma rebuild_id (e : Expr) : e.rebuild id e.children = e := by
  cases e <;> rfl

/-- Without a change an expression stays the same. -/
lemma retext_id (e : Expr) : e.retext id = e := by
  induction e using inductionOn with
  | step e ih =>
    rw [retext_eq, List.map_congr_left ih, List.map_id', rebuild_id]

/-- Whether two expressions are the same once their texts are changed. -/
def Same (f : String → String) (e e' : Expr) : Prop := e.retext f = e'.retext f

/-! ### Views -/

/-- What counts of the texts in an expression, of the operators of binary expressions, and of the
values of numbers. -/
structure View where
  text : String → String
  operator : String → String
  value : String → String

/-- The view in which texts count after a change. -/
def View.texts (f : String → String) : View := ⟨f, id, id⟩

/-- An expression as it is seen in a view, with other children. -/
def rebuildAs (view : View) : Expr → List Expr → Expr
  | aggregation text operator grouping without _, below =>
    aggregation (view.text text) operator grouping without below
  | call text function _, below => call (view.text text) function below
  | binary text operator _, below => binary (view.text text) (view.operator operator) below
  | vector text name matchers offset, _ => vector (view.text text) name matchers offset
  | matrix text name matchers range offset, _ => matrix (view.text text) name matchers range offset
  | subquery text _ range step, below => subquery (view.text text) below range step
  | number text value, _ => number (view.text text) (view.value value)
  | string text value, _ => string (view.text text) value
  | paren text _, below => paren (view.text text) below
  | unary text operator _, below => unary (view.text text) operator below
  | unknown text _, below => unknown (view.text text) below
  | bare text, _ => bare (view.text text)

/-- An expression as it is seen in a view. -/
def seenAs (view : View) : Expr → Expr := fold (rebuildAs view)

/-- The children are seen in the same view as the expression. -/
lemma seenAs_eq (view : View) (e : Expr) :
    e.seenAs view = e.rebuildAs view (e.children.map (seenAs view)) := fold_eq _ e

/-- In the view in which only the change of texts counts, the texts are changed. -/
lemma seenAs_texts (f : String → String) : seenAs (.texts f) = retext f := by
  have hrebuild : rebuildAs (.texts f) = rebuild f := by
    funext e
    cases e <;> rfl
  rw [seenAs, hrebuild, retext]

variable {view : View} {e e' : Expr}

/-- Whether two expressions are the same as seen in a view. -/
def SameAs (view : View) (e e' : Expr) : Prop := e.seenAs view = e'.seenAs view

/-- Expressions are the same after a change of texts if they look the same in its view. -/
lemma same_iff {f : String → String} : Same f e e' ↔ SameAs (.texts f) e e' := by
  rw [SameAs, seenAs_texts, Same]

/-- Expressions that are the same without a change are equal. -/
lemma eq_of_same (h : Same id e e') : e = e' := by
  rwa [Same, retext_id, retext_id] at h

/-- Lists of expressions look the same if their entries do, one by one. -/
lemma map_seenAs_iff {es es' : List Expr} :
    es.map (seenAs view) = es'.map (seenAs view) ↔ List.Forall₂ (SameAs view) es es' := by
  rw [← List.forall₂_eq_eq_eq, List.forall₂_map_left_iff, List.forall₂_map_right_iff]
  rfl

/-- Expressions that are built alike from the same children are the same. -/
theorem same_of_children (h : ∀ below, e.rebuildAs view below = e'.rebuildAs view below)
    (hchildren : List.Forall₂ (SameAs view) e.children e'.children) : SameAs view e e' := by
  rw [SameAs, seenAs_eq, seenAs_eq, h, map_seenAs_iff.2 hchildren]

end Expr

end PromqlGuide
