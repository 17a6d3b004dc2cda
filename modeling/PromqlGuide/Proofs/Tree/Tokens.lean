import PromqlGuide.Proofs.Text.Blank
import PromqlGuide.Proofs.Tree.Nested

/-!
# Text between tokens

The tokens of a syntax tree are its nodes without children, other than lists that happen to be
empty.  In an accepted query they follow one another, and all text outside of them is *filler*:
whitespace, comments, and the marks that only separate (`Node.fillerAround_of_ofQuery`).

The tokens are the nodes of the lexemes of the tree that the query is written as, so the pieces of
text between them are made of gaps and marks.
-/
namespace PromqlGuide

open Text Written

/-! ### Filler -/

/-- The texts that stand for nothing in a tree.  Every comment has the end of its line in the text;
only at the end of a query there may be a last one without it. -/
inductive Text.IsFiller (atEnd : Bool) : List Char → Prop where
  | nil : IsFiller atEnd []
  | space {c : Char} {cs : List Char} : isSpace c = true → IsFiller atEnd cs →
    IsFiller atEnd (c :: cs)
  | mark {c : Char} {cs : List Char} : c ∈ Lexical.marks → IsFiller atEnd cs →
    IsFiller atEnd (c :: cs)
  | comment {body cs : List Char} : '\n' ∉ body → IsFiller atEnd cs →
      IsFiller atEnd ('#' :: (body ++ '\n' :: cs))
  | lastComment {body : List Char} : atEnd = true → '\n' ∉ body → IsFiller atEnd ('#' :: body)

namespace Text

variable {atEnd : Bool} {a b : List Char}

/-- Filler behind filler is filler, if no comment is open between them. -/
lemma IsFiller.append (ha : IsFiller false a) (hb : IsFiller atEnd b) :
    IsFiller atEnd (a ++ b) := by
  induction ha with
  | nil => exact hb
  | space hspace _ ih => exact .space hspace ih
  | mark hmark _ ih => exact .mark hmark ih
  | comment hbody _ ih =>
    rw [List.cons_append, List.append_assoc, List.cons_append]
    exact .comment hbody ih
  | lastComment hend => cases hend

/-- Blank text is filler. -/
lemma isFiller_of_isBlank {cs : List Char} (h : IsBlank atEnd cs) : IsFiller atEnd cs := by
  induction h with
  | nil => exact .nil
  | space hspace _ ih => exact .space hspace ih
  | comment hbody _ ih => exact .comment hbody ih
  | lastComment hend hbody => exact .lastComment hend hbody

end Text

/-! ### Tokens of a tree -/

namespace Node

/-- Whether a node is a token: it has no children, and is no list that is empty. -/
def isToken (n : Node) : Bool :=
  n.children.isEmpty &&
    !decide (n.kind ∈ [.phrase .labelMatchers, .phrase .groupingLabels, .phrase .callBody])

/-- The tokens of a tree, in the order in which they are written. -/
def tokens (n : Node) : List Node := n.preorder.filter isToken

/-- Whether the text of a query from a position on is filler outside of nodes: in front of each of
them and behind the last one. -/
def FillerAround (query : List Char) (position : Nat) : List Node → Prop
  | [] => IsFiller true (query.drop position)
  | n :: ns => IsFiller false (slice query position n.start) ∧ FillerAround query n.stop ns

/-- The tokens of a node are itself, if it is one, and those of its children. -/
lemma tokens_eq (n : Node) :
    n.tokens = (if n.isToken then [n] else []) ++ n.children.flatMap tokens := by
  rw [tokens, preorder_eq, List.filter_cons, List.filter_flatten, List.flatMap]
  simp only [List.map_map, Function.comp_def]
  split <;> rfl

/-- A leaf is a token. -/
lemma isToken_leaf {n : Node} {t : Terminal} (hkind : n.kind = .leaf t) (h : n.children = []) :
    n.isToken = true := by
  simp [isToken, hkind, h]

/-- A phrase with the children that it may have is no token. -/
lemma isToken_phrase {n : Node} {p : Phrase} (hkind : n.kind = .phrase p)
    (h : AreParts p n.children) : n.isToken = false := by
  unfold isToken
  rw [hkind]
  cases hchildren : n.children with
  | cons c cs => rfl
  | nil =>
    rw [hchildren] at h
    cases p with
    | labelMatchers | groupingLabels | callBody => rfl
    | binary => obtain ⟨left, operator, modifiers, right, k, heq, -⟩ := h; cases heq
    | unary => obtain ⟨sign, operand, heq, -⟩ := h; cases heq
    | paren => obtain ⟨e, heq, -⟩ := h; cases heq
    | matrixSelector | subquery | offset | pinned => obtain ⟨base, more, heq, -⟩ := h; cases heq
    | matching => obtain ⟨word, -, group, -, heq⟩ := h; cases heq
    | _ => simp [AreParts] at h

end Node

namespace Written

variable {query : List Char} {w : Written} {ws : List Written} {position : Nat} {n : Node}

/-- Lexemes as trees of their own. -/
def leaves (ls : List Lexeme) : List Written := ls.map lexeme

/-- The text of lexemes is what they write. -/
lemma text_leaves (ls : List Lexeme) : textAll (leaves ls) = Lexeme.writtenAll ls := by
  induction ls with
  | nil => rfl
  | cons l ls ih =>
    have hcons : leaves (l :: ls) = lexeme l :: leaves ls := rfl
    rw [hcons, textAll_cons, ih]
    simp

/-- The nodes of two lists of lexemes follow one another. -/
lemma nodes_leaves_append (ls ms : List Lexeme) (position : Nat) :
    nodes position (leaves (ls ++ ms)) =
      nodes position (leaves ls) ++ nodes (position + (Lexeme.writtenAll ls).length)
        (leaves ms) := by
  rw [← text_leaves, ← nodes_append, leaves, List.map_append]
  rfl

/-- What holds of the trees that are written one after the other holds of all of them together. -/
lemma tokens_nodes (h : ∀ w ∈ ws, ∀ position, (w.item position).node?.toList.flatMap Node.tokens =
    nodes position (leaves w.lexemes)) (position : Nat) :
    (nodes position ws).flatMap Node.tokens = nodes position (leaves (lexemesAll ws)) := by
  induction ws generalizing position with
  | nil => rfl
  | cons w ws ih =>
    rw [nodes_cons, List.flatMap_append, h w List.mem_cons_self,
      ih fun v hv => h v (List.mem_cons_of_mem w hv), lexemesAll, nodes_leaves_append]
    rfl

/-- The tokens of what a tree stands for are the nodes of its lexemes. -/
lemma tokens_item (h : Formed w) (position : Nat) :
    (w.item position).node?.toList.flatMap Node.tokens = nodes position (leaves w.lexemes) := by
  induction w generalizing position with
  | lexeme l =>
    have hleaf : nodes position (leaves (lexeme l).lexemes) =
        ((lexeme l).item position).node?.toList := by
      exact (nodes_cons (lexeme l) [] position).trans (List.append_nil _)
    rw [hleaf]
    cases hitem : (lexeme l).item position with
    | mark => rfl
    | node n =>
      have hchildren := children_of_lexeme hitem
      obtain ⟨t, -, hkind⟩ := exists_token_of_kind (kind_of_item hitem)
      have htoken := Node.isToken_leaf hkind hchildren
      simp [Item.node?, Node.tokens_eq n, htoken, hchildren]
  | phrase p parts ih =>
    have hparts :=
      tokens_nodes (fun w hw position => ih w hw (fun v hv => h v (.part hw hv)) position)
      position
    have htoken := Node.isToken_phrase (n := Item.span (.phrase p) position (items position parts))
      rfl
      ((h _ .refl).1 position _ rfl)
    simp only [item, Item.node?, Option.toList_some, List.flatMap_singleton]
    rw [Node.tokens_eq, htoken]
    exact hparts

/-! ### Text between lexemes -/

/-- A piece of a text lies between its ends. -/
lemma slice_append {before piece after : List Char} :
    slice (before ++ (piece ++ after)) before.length (before.length + piece.length) = piece := by
  rw [slice, List.drop_left, Nat.add_sub_cancel_left, List.take_left]

/-- Outside of the tokens among lexemes there is nothing but filler.  What is pending is the text
since the last token. -/
lemma fillerAround_leaves {ls : List Lexeme} {query before pending tail : List Char}
    (hquery : query = before ++ (pending ++ (Lexeme.writtenAll ls ++ tail)))
    (hpending : IsFiller false pending) (hlaid : Lexeme.LaidOut ls tail)
      (htail : isTail tail = true) :
    Node.FillerAround query before.length
      (nodes (before.length + pending.length) (leaves ls)) := by
  -- `pending` is the filler since the last token; a mark adds to it, a token ends it.
  induction ls generalizing before pending with
  | nil =>
    subst hquery
    show IsFiller true (List.drop before.length (before ++ (pending ++ tail)))
    rw [List.drop_left]
    exact hpending.append (isFiller_of_isBlank (isTail_iff_isBlank.1 htail))
  | cons l ls ih =>
    obtain ⟨hproper, -, hmore⟩ := hlaid
    have hgap : IsFiller false (pending ++ l.gap) := 
      hpending.append (isFiller_of_isBlank (isGap_iff_isBlank.1 hproper.1))
    have hcons : leaves (l :: ls) = lexeme l :: leaves ls := rfl
    rw [hcons]
    cases hkind : l.kind with
    | token t =>
      have hbehind : query = (before ++ (pending ++ (l.gap ++ l.text))) ++
          ([] ++ (Lexeme.writtenAll ls ++ tail)) := by
        rw [hquery]
        simp
      have hbetween : slice query before.length (before.length + pending.length + l.gap.length) =
          pending ++ l.gap := by
        have hsplit : query = before ++ ((pending ++ l.gap) ++
            (l.text ++ (Lexeme.writtenAll ls ++ tail))) := by
          rw [hquery]
          simp
        rw [Nat.add_assoc, ← List.length_append, hsplit, slice_append]
      rw [nodes_token hkind]
      constructor
      · rw [hbetween]
        exact hgap
      · simpa [Nat.add_assoc] using ih hbehind .nil hmore
    | mark c =>
      obtain ⟨hmark, htext⟩ := hproper.mark hkind
      have hbehind : query = before ++ ((pending ++ l.gap ++ l.text) ++
          (Lexeme.writtenAll ls ++ tail)) := by
        rw [hquery]
        simp
      have hmarked : IsFiller false (pending ++ l.gap ++ l.text) :=
        hgap.append (htext ▸ .mark hmark .nil)
      rw [nodes_mark hkind]
      simpa [Nat.add_assoc] using ih hbehind hmarked hmore

end Written

namespace Node

variable {limits : Limits} {query : List Char} {root : Node}

/-- The tree of an accepted query with an expression holds the node of what the query is written
as. -/
lemma exists_writes_of_ofQuery (h : Node.ofQuery? limits query = some root)
    (haccepted : ∀ n ∈ root.preorder, n.isError = false) (hexpression : root.children ≠ []) :
    ∃ (e : Written) (n : Node), e.Writes limits.rules query ∧ e.item 0 = .node n ∧
      root.children = [n] := by
  unfold Node.ofQuery? at h
  cases hread : Reading.ofQuery limits query with
  | tooDeep =>
    rw [hread] at h
    cases h
  | rejected stuck =>
    rw [hread] at h
    cases h
    have herror := haccepted ⟨.error, stuck.position, query.length, []⟩ (by simp [preorder_eq])
    cases herror
  | accepted expression? =>
    rw [hread] at h
    cases h
    cases expression? with
    | none => exact absurd rfl hexpression
    | some n =>
      obtain ⟨e, he, hn⟩ := Reading.within_eq_accepted_iff.1 hread
      exact ⟨e, n, he, hn, rfl⟩

/-- Below the root, the nodes of an accepted query are in the node of what the query is written
as. -/
lemma exists_writes_of_mem_preorder {s : Node} (h : Node.ofQuery? limits query = some root)
    (haccepted : ∀ n ∈ root.preorder, n.isError = false) (hs : s ∈ root.preorder)
    (hroot : s.kind ≠ .root) :
    ∃ (e : Written) (n : Node), e.Writes limits.rules query ∧ e.item 0 = .node n ∧
      s ∈ n.preorder := by
  obtain ⟨hkind, -, -⟩ := Node.ofReading_range h
  rcases mem_preorder_iff.1 hs with rfl | ⟨c, hc, hs⟩
  · exact absurd hkind hroot
  · obtain ⟨e, n, he, hn, hchildren⟩ := exists_writes_of_ofQuery h haccepted (List.ne_nil_of_mem hc)
    rw [hchildren, List.mem_singleton] at hc
    exact ⟨e, n, he, hn, hc ▸ hs⟩

/-- The tokens of the tree of an accepted query follow one another, and what is outside of them is
filler. -/
theorem fillerAround_of_ofQuery (h : Node.ofQuery? limits query = some root)
    (haccepted : ∀ n ∈ root.preorder, n.isError = false) (hexpression : root.children ≠ []) :
    root.tokens.Pairwise (fun t u => t.stop ≤ u.start) ∧ FillerAround query 0 root.tokens := by
  obtain ⟨e, n, he, hn, hchildren⟩ := exists_writes_of_ofQuery h haccepted hexpression
  -- The tokens are the nodes of the lexemes that the query is written with.
  have htokens : root.tokens = nodes 0 (leaves e.lexemes) := by
    have hroot : root.isToken = false := by simp [isToken, hchildren]
    have hitem := tokens_item (formed_of_grammatical he.grammatical) 0
    rw [hn] at hitem
    rw [tokens_eq, hroot, hchildren]
    exact hitem
  rw [htokens]
  obtain ⟨tail, htail, hlaid, hquery⟩ := he.laidOut
  constructor
  · exact pairwise_nodes 0 _
  · have hlexemes : Lexeme.LaidOut e.lexemes tail := by simpa [Laid, lexemesAll] using hlaid
    have hwhole : query = [] ++ ([] ++ (Lexeme.writtenAll e.lexemes ++ tail)) := hquery
    exact fillerAround_leaves hwhole .nil hlexemes htail

/-- The tree of `sum((a))#b`. -/
def commentedSum : Node :=
  ⟨.root, 0, 10, [⟨.phrase .aggregation, 0, 8, [⟨.leaf .aggregationOperator, 0, 3, []⟩,
    ⟨.phrase .callBody, 3, 8, [⟨.phrase .paren, 4, 7,
      [⟨.phrase .vectorSelector, 5, 6, [⟨.leaf .metricName, 5, 6, []⟩]⟩]⟩]⟩]⟩]⟩

/-- Outside of `sum` and `a` there are parentheses and a comment in `sum((a))#b`. -/
theorem fillerAround_commentedSum :
    Node.ofQuery? .usual ['s', 'u', 'm', '(', '(', 'a', ')', ')', '#', 'b'] = some commentedSum ∧
      (∀ n ∈ commentedSum.preorder, n.isError = false) ∧ commentedSum.children ≠ [] ∧
      commentedSum.tokens.Pairwise (fun t u => t.stop ≤ u.start) ∧
      FillerAround ['s', 'u', 'm', '(', '(', 'a', ')', ')', '#', 'b'] 0 commentedSum.tokens := by
  have hread : Node.ofQuery? .usual ['s', 'u', 'm', '(', '(', 'a', ')', ')', '#', 'b'] =
      some commentedSum := rfl
  have haccepted : ∀ n ∈ commentedSum.preorder, n.isError = false := by decide
  have hexpression : commentedSum.children ≠ [] := by simp [commentedSum]
  exact ⟨hread, haccepted, hexpression, fillerAround_of_ofQuery hread haccepted hexpression⟩

end Node

end PromqlGuide
