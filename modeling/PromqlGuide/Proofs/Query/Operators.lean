import PromqlGuide.Proofs.Expr.Makers
import PromqlGuide.Proofs.Query.WellFormed
import PromqlGuide.Proofs.Text.Folded
import PromqlGuide.Proofs.Token.Wordy

/-!
# The operators of an expression

Every aggregation and every binary operation inside the expression of a query has an operator of the
language, in some letter case.  In small letters it is one of them again, exactly if no character is
in disguise (`Query.parse_operators`): a long s is read as an s, but stays a long s.
-/
namespace PromqlGuide

open Text Written

/-- The operators of binary operations. -/
def binaryOperators : List (List Char) :=
  [['+'], ['-'], ['*'], ['/'], ['%'], ['^'], ['=', '='], ['!', '='], ['<'], ['<', '='], ['>'],
    ['>', '='], ['a', 'n', 'd'], ['o', 'r'], ['u', 'n', 'l', 'e', 's', 's'],
    ['a', 't', 'a', 'n', '2']]

/-- Whether a word is one of the operators in some letter case, and in small letters is one of them
exactly if none of its characters is in disguise. -/
def IsOperatorWord (operators : List (List Char)) (word : List Char) : Prop :=
  (∃ w ∈ operators, Folded w word) ∧
    (lowercaseFrom [] word ∈ operators ↔ ∀ c ∈ word, isDisguised c = false)

/-- The word that a text starts with. -/
def firstWord (text : String) : List Char := text.toList.takeWhile isWordPart

/-- Whether the operator of an expression is read from an operator of the language.  An aggregation
has the word that its text starts with, in small letters; a binary operation has its operator as
written. -/
def Expr.HasOperator : Expr → Prop
  | aggregation text operator .. =>
    operator = String.ofList (lowercaseFrom [] (firstWord text)) ∧
      IsOperatorWord aggregationOperators (firstWord text)
  | binary _ operator _ => IsOperatorWord binaryOperators operator.toList
  | _ => True

variable {query : List Char}

/-- A form of an operator is an operator word. -/
lemma isOperatorWord_of_folded {operators : List (List Char)} {word : List Char}
    (hplain : ∀ w ∈ operators, ∀ a ∈ w, isPlain a = true) (h : ∃ w ∈ operators, Folded w word) :
    IsOperatorWord operators word := ⟨h, lowercaseFrom_mem_iff hplain h⟩

/-! ### Binary operations -/

/-- A token that is an operator between expressions is written as one, in some letter case. -/
lemma exists_folded_of_spells {t : Terminal} {k : Nat} {w : List Char}
    (hlevel : Written.operatorLevel? (.token t) = some k) (h : t.spells w = true) :
    ∃ v ∈ binaryOperators, Folded v w := by
  cases t with
  | keyword word =>
    refine ⟨word.letters, ?_, folded_of_wordLength (beq_iff_eq.1 h)⟩
    cases word <;> first | decide | cases hlevel
  | symbol s =>
    obtain rfl := Terminal.literalLength_iff.1 (beq_iff_eq.1 h)
    refine ⟨s.letters, ?_, Folded.refl _⟩
    cases s <;> first | decide | cases hlevel
  | _ => cases hlevel

/-- The operator of a binary expression is read from one of the language. -/
lemma hasOperator_of_binary {n : Node} {a : Expr} (hread : ∀ s ∈ n.preorder, s.IsRead query)
    (hkind : n.kind = .phrase .binary) (h : (Expr.ofTree query n).result = .ok a) :
    a.HasOperator := by
  rw [Expr.ofTree_binary hkind] at h
  obtain ⟨es, rfl⟩ := Expr.exists_ofBinary h
  obtain ⟨o, hmem, ⟨k, hlevel⟩, hoperators, -⟩ :=
    Expr.exists_operator ((hread n n.mem_preorder_self).areParts hkind)
  obtain ⟨-, -, t, hleaf⟩ := Expr.isOperator_of_level hlevel
  have hspells := (hread o (Node.mem_preorder_of_mem_children hmem)).spelled t hleaf
  rw [hoperators]
  refine isOperatorWord_of_folded (by decide) ?_
  rw [Node.operatorLevel?, hleaf] at hlevel
  simpa [Expr.textOf] using exists_folded_of_spells hlevel hspells

/-! ### Aggregations -/

/-- The characters of a word in front of something else are all that belong to it. -/
lemma takeWhile_append_of_endsBefore {p : Char → Bool} {cs rest : List Char} (hcs : cs.all p = true)
    (hrest : endsBefore p rest = true) : (cs ++ rest).takeWhile p = cs := by
  rw [List.takeWhile_append_of_pos (List.all_eq_true.1 hcs)]
  cases rest with
  | nil => simp
  | cons c rest =>
    have hc : p c = false := by simpa [endsBefore] using hrest
    simp [hc]

/-- A text ends before a class if it does with more text behind it. -/
lemma endsBefore_of_append {p : Char → Bool} {cs rest : List Char}
    (h : endsBefore p (cs ++ rest) = true) : endsBefore p cs = true := by
  cases cs with
  | nil => rfl
  | cons c cs => exact h

namespace Written

variable {clear : List Written → List Word → Prop} {w : Written} {parts : List Written}
  {position : Nat} {n : Node}

/-- An aggregation starts with its operator. -/
lemma operator_of_aggregation (h : Fragment clear (.phrase .aggregation parts)) :
    ∃ l ws, parts = lexeme l :: ws ∧ l.kind = .token .aggregationOperator := by
  cases h with
  | expression he =>
    cases he with
    | number hw | string hw => obtain ⟨l, hl, -⟩ := hw; cases hl
    | postfixed _ _ happended => cases happended
    | aggregation hoperator _ _ _ _ _ =>
      obtain ⟨l, rfl, hkind⟩ := hoperator
      exact ⟨l, _, rfl, hkind⟩
  | labelBlock h => obtain ⟨_, heq, -⟩ := h; cases heq
  | matcher h => cases h
  | grouping h => obtain ⟨_, heq, -⟩ := h; cases heq
  | modifier h => obtain ⟨_, _, heq, -⟩ := h; cases heq
  | matching h => obtain ⟨_, _, _, heq, -⟩ := h; cases heq

/-- A phrase that starts with a token has its leaf as the first child. -/
lemma exists_first_of_item {p : Phrase} {t : Terminal} {l : Lexeme} {ws : List Written}
    (hl : l.kind = .token t) (h : Stands query position [phrase p (lexeme l :: ws)])
    (hn : (phrase p (lexeme l :: ws)).item position = .node n) :
    ∃ o more, n.children = o :: more ∧ o.kind = .leaf t ∧ o.text query = l.text := by
  obtain ⟨o, ho, hkind⟩ := exists_item_of_kind (kind_of_token ⟨l, rfl, hl⟩) position
  refine ⟨o, nodes (position + (lexeme l).text.length) ws, ?_, hkind, ?_⟩
  · cases hn
    show nodes position (lexeme l :: ws) = _
    rw [nodes_cons, ho]
    rfl
  · rw [text_of_item (stands_cons (stands_phrase.1 h)).1 ho]
    simp [bare]

/-- An aggregation operator is written as one, in some letter case, and is a word that ends
there. -/
lemma operator_of_laid {l : Lexeme} {ws : List Written} {rest : List Char}
    (hl : l.kind = .token .aggregationOperator) (h : Laid (lexeme l :: ws) rest) :
    (l.text ++ textAll ws).takeWhile isWordPart = l.text ∧
      ∃ v ∈ aggregationOperators, Folded v l.text := by
  obtain ⟨⟨-, -, hspells⟩, hstops, -⟩ := (laid_cons.1 h).1
  rw [hl] at hspells hstops
  have hlength : Name.anyWordLength? aggregationOperators l.text = some l.text.length :=
    beq_iff_eq.1 hspells
  have hends : endsBefore isWordPart (textAll ws ++ rest) = true := hstops
  constructor
  · apply takeWhile_append_of_endsBefore
    · exact Terminal.isWord_of_anyWordLength Terminal.isSmallWord_aggregationOperators hlength
    · exact endsBefore_of_append hends
  · exact folded_of_anyWordLength hlength

/-- The operator of an aggregation is the word that its text starts with. -/
lemma exists_operator_of_item (hw : Fragment clear w) (h : Stands query position [w])
    (hn : w.item position = .node n) (hkind : n.kind = .phrase .aggregation) :
    ∃ o, n.child? [.leaf .aggregationOperator] = some o ∧
      o.text query = firstWord (Expr.textOf query n) ∧
      ∃ v ∈ aggregationOperators, Folded v (o.text query) := by
  have htext := text_of_item h hn
  obtain ⟨parts, rfl⟩ := exists_parts_of_kind hn hkind
  obtain ⟨l, ws, rfl, hl⟩ := operator_of_aggregation hw
  obtain ⟨o, more, hchildren, hokind, hotext⟩ := exists_first_of_item hl h hn
  obtain ⟨before, rest, -, -, hlaid⟩ := h
  obtain ⟨hword, hfolded⟩ := operator_of_laid hl (laid_phrase.1 hlaid)
  refine ⟨o, ?_, ?_, ?_⟩
  · rw [Node.child?, hchildren]
    exact List.find?_cons_of_pos (by simp [hokind])
  · rw [hotext, firstWord, Expr.textOf, String.toList_ofList, htext, bare, bare, text_phrase,
      textAll_cons, text_lexeme, List.nil_append, hword]
  · rw [hotext]
    exact hfolded

end Written

/-- The operator of an aggregation is read from one of the language. -/
lemma hasOperator_of_aggregation {e : Written} {n s : Node} {a : Expr} {depth : Nat}
    (he : e.Writes depth query) (hn : e.item 0 = .node n) (hs : s ∈ n.preorder)
    (hkind : s.kind = .phrase .aggregation) (h : (Expr.ofTree query s).result = .ok a) :
    a.HasOperator := by
  obtain ⟨w, place, hwithin, hstands, hitem⟩ :=
    exists_within_of_mem_preorder (Query.stands_of_writes he) hn hs
  obtain ⟨o, hfound, htext, hfolded⟩ :=
    exists_operator_of_item (fragment_of_within he.grammatical hwithin) hstands hitem hkind
  rw [Expr.ofTree_aggregation hkind] at h
  obtain ⟨operator, es, rfl, hoperator⟩ := Expr.exists_ofAggregation h
  rw [htext] at hfolded
  refine ⟨?_, isOperatorWord_of_folded (by decide) hfolded⟩
  rw [hoperator o hfound, lowercase, Expr.textOf, String.toList_ofList, htext]

namespace Query

/-- Every aggregation and every binary operation inside the expression of a query has an operator of
the language in some letter case.  In small letters it is one of them exactly if none of its
characters is in disguise. -/
theorem parse_operators {limits : Limits} {a m : Expr} {depth : Nat}
    (h : (parseChars limits query).outcome = .ok a)
    (hm : (depth, m) ∈ a.preorder 0) : m.HasOperator := by
  obtain ⟨e, n, hmeans⟩ := outcome_eq_ok_iff.1 h
  have hread := isRead_of_writes hmeans.writes hmeans.item
  -- The expression was made at a node of the tree, and its operator is read off that node.
  obtain ⟨s, hs, hresult, hkind⟩ := Expr.exists_maker
    (isExpression_of_writes hmeans.writes hmeans.item)
    (ne_wrapper_of_writes hmeans.writes hmeans.item)
    hmeans.result hm
  cases m with
  | aggregation =>
    exact hasOperator_of_aggregation hmeans.writes hmeans.item hs (hkind _ rfl) hresult
  | binary =>
    exact hasOperator_of_binary (fun k hk => hread k (Node.mem_preorder_trans hs hk)) (hkind _ rfl)
      hresult
  | _ => trivial

/-- The expression of `-ſum(a)`. -/
def longSum : Expr :=
  .unary "-ſum(a)" "-" [.aggregation "ſum(a)" "ſum" [] false [.vector "a" "a" [] none]]

/-- In `-ſum(a)`, the operator is read as `sum`, but is not written so. -/
theorem parse_operators_longSum :
    (parseChars .usual ['-', 'ſ', 'u', 'm', '(', 'a', ')']).outcome = .ok longSum ∧
      (1, .aggregation "ſum(a)" "ſum" [] false [.vector "a" "a" [] none]) ∈ longSum.preorder 0 ∧
      Folded ['s', 'u', 'm'] "ſum".toList ∧ "ſum".toList ∉ aggregationOperators ∧
      (Expr.aggregation "ſum(a)" "ſum" [] false [.vector "a" "a" [] none]).HasOperator := by
  have h : (parseChars .usual ['-', 'ſ', 'u', 'm', '(', 'a', ')']).outcome = .ok longSum := rfl
  have hm : (1, .aggregation "ſum(a)" "ſum" [] false [.vector "a" "a" [] none]) ∈
      longSum.preorder 0 := List.mem_cons_of_mem _ List.mem_cons_self
  exact ⟨h, hm, by decide, by decide, parse_operators h hm⟩

end Query

end PromqlGuide
