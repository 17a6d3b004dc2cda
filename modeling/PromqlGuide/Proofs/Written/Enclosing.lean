import PromqlGuide.Proofs.Tree.Shape
import PromqlGuide.Proofs.Written.Spacing

/-!
# Expressions between marks

Expressions of queries are put between marks, to make a larger expression: between parentheses
(`Written.parenOf`), as the arguments of a call (`Written.callOf`), and on both sides of an operator
(`Written.operationOf`).  Whatever blank text a query ends with, a line end closes it, so that it
may stand in front of a mark (`Written.laid_closed`).
-/
namespace PromqlGuide

open Text

namespace Text

/-- A line end closes blank text, whether a comment is open in it or not. -/
lemma closesBlank_of_blankRun {inComment : Bool} {cs : List Char}
    (h : blankRun inComment cs = cs.length) : closesBlank inComment (cs ++ ['\n']) = true := by
  induction cs generalizing inComment with
  | nil => cases inComment <;> rfl
  | cons c cs ih =>
    cases inComment with
    | true => exact ih (Nat.succ.inj h)
    | false =>
      simp only [blankRun] at h
      simp only [List.cons_append, closesBlank]
      split_ifs at h ⊢ with hspace hmark
      · exact ih (Nat.succ.inj h)
      · exact ih (Nat.succ.inj h)

/-- A line end makes the blank text at the end of a query a gap. -/
lemma isGap_of_isTail_append {tail : List Char} (h : isTail tail = true) :
    isGap (tail ++ ['\n']) = true :=
  closesBlank_of_blankRun (of_decide_eq_true h)

end Text

namespace Written

variable {clear : List Written → List Word → Prop} {e left right : Written}
    {tail rest gap : List Char}
  {c : Char} {ws : List Written}

/-! ### Marks -/

/-- A mark with a gap in front of it. -/
def markAfter (gap : List Char) (c : Char) : Written := .lexeme ⟨⟨.mark c, [c]⟩, gap⟩

/-- A mark with a gap is written as the gap and the mark. -/
@[simp] lemma text_markAfter (gap : List Char) (c : Char) :
    (markAfter gap c).text = gap ++ [c] := by
  simp [markAfter]

/-- A mark in front of trees adds no node. -/
lemma nodes_markAfter (gap : List Char) (c : Char) (ws : List Written) (position : Nat) :
    nodes position (markAfter gap c :: ws) = nodes (position + (gap ++ [c]).length) ws := by
  rw [markAfter, nodes_mark rfl, List.length_append, Nat.add_assoc]

/-- A mark with a gap is a mark. -/
lemma of_markAfter (gap : List Char) (c : Char) : Of (.mark c) (markAfter gap c) := ⟨_, rfl, rfl⟩

/-- A lexeme that does not run into what follows is laid out. -/
lemma laid_lexeme {l : Lexeme} (hproper : l.Proper) (hstops : l.kind.stopsAt l.text rest = true) :
    Laid [.lexeme l] rest := ⟨hproper, hstops, trivial⟩

/-- A mark of the grammar is laid out in front of any text. -/
lemma laid_markAfter (hgap : isGap gap = true) (hc : c ∈ Lexical.marks) (rest : List Char) :
    Laid [markAfter gap c] rest :=
  laid_lexeme ⟨hgap, decide_eq_true hc, beq_self_eq_true _⟩ rfl

/-- A mark in front of trees that are laid out is laid out with them. -/
lemma laid_mark_cons (hgap : isGap gap = true) (hc : c ∈ Lexical.marks) (h : Laid ws rest) :
    Laid (markAfter gap c :: ws) rest :=
  laid_cons.2 ⟨laid_markAfter hgap hc _, h⟩

/-- An expression stays laid out in front of other blank text. -/
lemma laid_of_blank (he : Grammatical clear e) (h : Laid [e] tail) {d : Char}
    (hd : isSpace d = true ∨ d = '#') (rest : List Char) : Laid [e] (d :: rest) :=
  laid_of_stops he h fun _ _ hx => Lexical.stopsAt_blank hx hd rest

/-- The mark that closes a query: a line end stands in front of it. -/
def closing (tail : List Char) (c : Char) : Written := markAfter (tail ++ ['\n']) c

/-- The closing mark stands for no node. -/
@[simp] lemma isNode_closing (tail : List Char) (c : Char) : (closing tail c).isNode = false := rfl

/-- An expression and what follows it in a query stay laid out in front of a mark. -/
lemma laid_closed (he : Grammatical clear e) (h : Laid [e] tail) (htail : isTail tail = true)
    (hc : c ∈ Lexical.marks) (hws : Laid ws rest) : Laid (e :: closing tail c :: ws) rest := by
  have hgap := isGap_of_isTail_append htail
  refine laid_cons.2 ⟨?_, laid_mark_cons hgap hc hws⟩
  rw [textAll_cons, closing, text_markAfter, List.append_assoc, List.append_assoc]
  cases htail' : tail ++ ['\n'] with
  | nil => simp at htail'
  | cons d gap =>
    rw [htail'] at hgap
    exact laid_of_blank he h (head_of_isGap hgap) _

/-! ### Parentheses -/

/-- An expression between parentheses, with blank text behind it. -/
def parenOf (e : Written) (tail : List Char) : Written :=
  .phrase .paren [markAfter [] '(', e, closing tail ')']

/-- An expression between parentheses is an expression. -/
lemma grammatical_parenOf (he : Grammatical clear e) : Grammatical clear (parenOf e tail) :=
  .paren (of_markAfter _ _) he (of_markAfter _ _)

/-- The text of an expression between parentheses. -/
lemma text_parenOf (e : Written) (tail : List Char) :
    (parenOf e tail).text = '(' :: (e.text ++ tail ++ ['\n', ')']) := by
  simp [parenOf, closing]

/-- An expression between parentheses is laid out in front of any text. -/
lemma laid_parenOf (he : Grammatical clear e) (h : Laid [e] tail) (htail : isTail tail = true)
    (rest : List Char) : Laid [parenOf e tail] rest :=
  laid_phrase.2 (laid_mark_cons rfl (by decide) (laid_closed he h htail (by decide) trivial))

/-- Parentheses nest an expression two rules deeper. -/
lemma nesting_parenOf (he : Grammatical clear e) :
    (parenOf e tail).nesting = e.nesting + 2 := by
  have hone := one_le_nesting_of_grammatical he
  simp only [parenOf, closing, markAfter, nesting, deepest]
  omega

/-! ### Calls -/

/-- A call of a function, with what stands behind its opening parenthesis. -/
def callOf (function : List Char) (ws : List Written) : Written :=
  .phrase .call
    [.lexeme ⟨⟨.token .functionName, function⟩, []⟩, .phrase .callBody (markAfter [] '(' :: ws)]

/-- The text of a call. -/
lemma text_callOf (function : List Char) (ws : List Written) :
    (callOf function ws).text = function ++ '(' :: textAll ws := by
  simp [callOf]

/-- A call is within a depth exactly if its arguments are within a depth that is two rules less. -/
lemma nesting_callOf_lt {function : List Char} {d : Nat} (hd : 3 < d) :
    (callOf function ws).nesting < d ↔ ∀ w ∈ ws, w.nesting + 2 < d := by
  have hws : deepest ws ≤ d - 3 ↔ ∀ w ∈ ws, w.nesting ≤ d - 3 := deepest_le_iff
  have hparts : ∀ w : Written, w.nesting ≤ d - 3 ↔ w.nesting + 2 < d := by
    intro w
    omega
  simp only [hparts] at hws
  rw [← hws]
  simp only [callOf, markAfter, nesting, deepest]
  omega

/-- A call is laid out if what stands behind its opening parenthesis is. -/
lemma laid_callOf {function : List Char} (h : Terminal.functionName.spells function = true)
    (hws : Laid ws rest) : Laid [callOf function ws] rest := by
  refine laid_phrase.2 (laid_cons.2 ⟨laid_lexeme ⟨rfl, rfl, h⟩ ?_, ?_⟩)
  · have hparen : textAll [.phrase .callBody (markAfter [] '(' :: ws)] ++ rest =
        '(' :: (textAll ws ++ rest) := by simp
    rw [hparen]
    exact (opensCall_cons (by decide) (textAll ws ++ rest)).2 rfl
  · exact laid_phrase.2 (laid_mark_cons rfl (by decide) hws)

/-! ### Operations -/

/-- Two expressions with an operator between them. -/
def operationOf (op : Symbol) (left right : Written) : Written :=
  .phrase .binary [left, .lexeme ⟨⟨.token (.symbol op), op.letters⟩, []⟩, right]

/-- The text of an operation. -/
lemma text_operationOf (op : Symbol) (left right : Written) :
    (operationOf op left right).text = left.text ++ op.letters ++ right.text := by
  simp [operationOf]

/-- Every operator has a level below that of operands. -/
lemma exists_operatorLevel {op : Symbol} (hop : op ≠ .atSign) :
    ∃ k, operatorLevel? (.token (.symbol op)) = some k ∧ k < 7 := by
  cases op with
  | atSign => exact absurd rfl hop
  | _ => exact ⟨_, rfl, by decide⟩

/-- Nothing between an operator and a parenthesis reads as a modifier. -/
lemma clear_parenOf (e : Written) (tail : List Char) : Clear [] (parenOf e tail).words := by
  have hwords : (parenOf e tail).words =
      ⟨.mark '(', ['(']⟩ :: (lexemesAll [e, closing tail ')']).map Lexeme.toWord := rfl
  have hkeyword : ∀ k ∈ [Keyword.bool, .on, .ignoring],
      Word.readsAs ⟨.mark '(', ['(']⟩ (.token (.keyword k)) = false := by decide +kernel
  rw [hwords]
  constructor
  · simp [startsEither, hkeyword]
  · simp [startsMatching, startsEither, hkeyword]

/-- Two expressions between parentheses with an operator between them are an expression. -/
lemma grammatical_operationOf {op : Symbol} {tail' : List Char} (hop : op ≠ .atSign)
    (hleft : Grammatical Clear left) (hright : Grammatical Clear right) :
    Grammatical Clear (operationOf op (parenOf left tail) (parenOf right tail')) := by
  obtain ⟨k, hk, hlevel⟩ := exists_operatorLevel hop
  have hmodifiers : IsModifiers [] := ⟨[], [], rfl, Or.inl rfl, Or.inl rfl⟩
  have hfits : Fits k (parenOf left tail).level (parenOf right tail').level := by
    show Fits k 7 7
    unfold Fits
    split <;> omega
  have hoperator : operatorLevel? (Lexeme.toWord ⟨⟨.token (.symbol op), op.letters⟩, []⟩).kind =
    some k :=
    hk
  exact .binary (grammatical_parenOf hleft) hoperator hmodifiers (clear_parenOf right tail')
    (grammatical_parenOf hright) hfits

/-- An operation is laid out if its left side is in front of any text and its right side is. -/
lemma laid_operationOf {op : Symbol} {tail' : List Char} (hleft : ∀ rest, Laid [left] rest)
    (hright : Laid [parenOf right tail'] rest) :
    Laid [operationOf op left (parenOf right tail')] rest := by
  refine laid_phrase.2 (laid_cons.2 ⟨hleft _, laid_cons.2 ⟨laid_lexeme ⟨rfl, rfl, ?_⟩ ?_, hright⟩⟩)
  · exact beq_iff_eq.2 (Terminal.literalLength_iff.2 rfl)
  · have hparen : textAll [parenOf right tail'] ++ rest =
        '(' :: (right.text ++ tail' ++ ['\n', ')'] ++ rest) := by
      rw [textAll_cons, text_parenOf]
      simp
    rw [hparen]
    exact Lexical.stopsAt_paren (by simp) _

/-- An operation is within a depth exactly if its left side is and its right side, where the right
side of a power is one rule deeper. -/
lemma nesting_operationOf_lt {op : Symbol} {d : Nat} (hd : 1 < d) :
    (operationOf op left right).nesting < d ↔
      left.nesting < d ∧ right.nesting + (if op = .pow then 1 else 0) < d := by
  have hnesting : (operationOf op left right).nesting = _ :=
    nesting_binary left right ⟨⟨.token (.symbol op), op.letters⟩, []⟩ []
  rw [hnesting]
  simp only [List.cons_append, List.nil_append, deepest, nesting, Lexical.token.injEq,
    Terminal.symbol.injEq]
  split <;> omega

end Written

end PromqlGuide
