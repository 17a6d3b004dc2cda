import PromqlGuide.Proofs.Expr.Source
import PromqlGuide.Proofs.Query.Expression
import PromqlGuide.Proofs.Written.Operands
import PromqlGuide.Proofs.Written.Spacing

/-!
# Expressions stand alone

The text of an expression inside that of a query is a query of its own, with that expression
(`Query.parse_text_of_mem_preorder`).  The tree inside is written again without the gap in front of
it and without what followed it; nothing that follows is needed, since no expression ends in the
name of a function, and nothing in front matters.
-/
namespace PromqlGuide

open Written

namespace Written

/-- An expression inside a query is a query of its own. -/
lemma writes_bare {depth : Nat} {query : List Char} {e w : Written} {place : Nat}
    (h : e.Writes depth query) (hw : Within w e) (hkind : HasExpressionKind w)
    (hstands : Stands query place [w]) : w.bare.Writes depth w.bare.text := by
  have hgrammatical : Grammatical Clear w.bare :=
    (Alike.bare w).grammatical (grammatical_of_within h.grammatical hw hkind)
  refine ⟨hgrammatical, ?_, [], rfl, ?_, by simp⟩
  · rw [(Alike.bare w).nesting]
    exact Nat.lt_of_le_of_lt (nesting_le_of_within hw) h.nesting_lt
  · obtain ⟨before, rest, -, -, hlaid⟩ := hstands
    exact laid_tail hgrammatical (laid_bare hlaid) rfl

end Written

namespace Query

/-- Every expression inside that of a query is the expression of its own text. -/
theorem parse_text_of_mem_preorder {query : List Char} {a m : Expr} {depth : Nat}
    (h : (parseChars limits query).outcome = .ok a) (hm : (depth, m) ∈ a.preorder 0) :
    (parse limits m.text).outcome = .ok m := by
  obtain ⟨e, n, he, hn, hdepth, hresult⟩ := outcome_eq_ok_iff.1 h
  have hstands := stands_of_writes he
  -- The expression is that of a node, and the node is that of a tree inside.
  have hexpr : n.kind.isExpression = true := by
    obtain ⟨k, hk, hexpr⟩ := isExpression_of_grammatical he.grammatical
    rw [kind_of_item hn] at hk
    exact Option.some.inj hk ▸ hexpr
  have hwrapper : ∀ s ∈ n.preorder, s.kind ≠ .wrapper := by
    intro s hs
    obtain ⟨w, place, -, -, hitem⟩ := exists_within_of_mem_preorder hstands hn hs
    have hkind := kind_of_item hitem
    rintro heq
    rw [heq] at hkind
    cases w with
    | lexeme l =>
      simp only [kind?] at hkind
      split at hkind <;> cases hkind
    | phrase p parts => cases hkind
  obtain ⟨s, hs, hsexpr, hsresult, htext⟩ := Expr.exists_source hexpr hwrapper hresult hm
  obtain ⟨w, place, hwithin, hwstands, hitem⟩ := exists_within_of_mem_preorder hstands hn hs
  have hkind : HasExpressionKind w := ⟨s.kind, kind_of_item hitem, hsexpr⟩
  have hwrites := writes_bare he hwithin hkind hwstands
  -- Written by itself, the tree stands for a twin of the node.
  obtain ⟨n', hn'⟩ := exists_node_of_isNode (isNode_of_grammatical hwrites.grammatical) 0
  have htwin : Node.Twin id query w.bare.text s n' :=
    twin_of_stands (formed_of_grammatical hwrites.grammatical) (stands_bare hwstands)
      (stands_of_writes hwrites) ((item_bare w place).trans hitem) hn'
  have hsdepth := Nat.le_trans (Node.depth_le_of_mem_preorder stepsInto hs) hdepth
  obtain ⟨m', hm', hsame⟩ := exists_same_of_twin hsresult hsdepth htwin hwrites hn'
  obtain rfl := Expr.eq_of_same hsame
  rw [htext, Expr.textOf, text_of_item hwstands hitem, parse, String.toList_ofList]
  exact hm'

/-- The expression of `-(a)`. -/
def negated : Expr := .unary "-(a)" "-" [.paren "(a)" [.vector "a" "a" [] none]]

/-- The operand of `-(a)` is read from its text alone. -/
theorem parse_text_negated :
    (parseChars .usual ['-', '(', 'a', ')']).outcome = .ok negated ∧
      (1, .paren "(a)" [.vector "a" "a" [] none]) ∈ negated.preorder 0 ∧
      (parse .usual "(a)").outcome = .ok (.paren "(a)" [.vector "a" "a" [] none]) := by
  have h : (parseChars .usual ['-', '(', 'a', ')']).outcome = .ok negated := rfl
  have hm : (1, .paren "(a)" [.vector "a" "a" [] none]) ∈ negated.preorder 0 :=
    List.mem_cons_of_mem _ List.mem_cons_self
  exact ⟨h, hm, parse_text_of_mem_preorder h hm⟩
end Query

end PromqlGuide
