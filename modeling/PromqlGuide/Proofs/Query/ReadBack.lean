import PromqlGuide.Proofs.Grammar.Accepted
import PromqlGuide.Proofs.Written.Spacing

/-!
# Reading back what was written

An expression that respects the precedences is written down with any gaps that keep its lexemes
apart.  Reading the text gives its syntax tree back (`Node.ofQuery_of_grammatical`), if its right
operands are clear of modifiers.  Without that condition the text may be rejected: in `a + on (x)
group_left (b)` the operand `(b)` is read as a list of labels.
-/
namespace PromqlGuide

open Text Written

/-! ### Sums -/

namespace Written

/-- A token with a space in front of it. -/
def spacedToken (t : Terminal) (text : List Char) : Written := .lexeme ⟨⟨.token t, text⟩, [' ']⟩

/-- A mark with nothing in front of it. -/
def tightMark (c : Char) : Written := .lexeme ⟨⟨.mark c, [c]⟩, []⟩

/-- A sum `a + on (x)` with further parts of the matching and a right operand. -/
def matchedSum (group : List Written) (right : Written) : Written :=
  .phrase .binary
    [.phrase .vectorSelector [spacedToken .metricName ['a']], spacedToken (.symbol .add) ['+'],
      .phrase .matching
        (spacedToken (.keyword .on) ['o', 'n'] ::
          .phrase .groupingLabels [tightMark '(', spacedToken .labelName ['x'], tightMark ')'] ::
          group), right]

/-- A metric. -/
def metric (c : Char) : Written := .phrase .vectorSelector [spacedToken .metricName [c]]

/-- The sum `a + on (x) group_left (b)`, where `(b)` is meant to be the right operand. -/
def swallowingSum : Written :=
  matchedSum [spacedToken (.keyword .groupLeft) ['g', 'r', 'o', 'u', 'p', '_', 'l', 'e', 'f', 't']]
    (.phrase .paren [tightMark '(', metric 'b', tightMark ')'])

/-- A metric is an expression if its name is no number. -/
lemma grammatical_metric {clear : List Written → List Word → Prop} {c : Char}
    (h : Number.tokenLength? [c] = none) : Grammatical clear (metric c) :=
  .named rfl h (Or.inl rfl)

/-- The sum is an expression if its right operand is one and is clear of modifiers. -/
lemma grammatical_matchedSum {clear : List Written → List Word → Prop} {group : List Written}
    {right : Written} (hgroup : IsGroup group)
    (hclear : clear [.phrase .matching
      (spacedToken (.keyword .on) ['o', 'n'] ::
        .phrase .groupingLabels [tightMark '(', spacedToken .labelName ['x'], tightMark ')'] ::
        group)] right.words)
    (hright : Grammatical clear right) (hlevel : 4 ≤ right.level) :
    Grammatical clear (matchedSum group right) := by
  have hlabels : IsGrouping
      (.phrase .groupingLabels [tightMark '(', spacedToken .labelName ['x'], tightMark ')']) :=
    ⟨_, rfl, _, [_], [], _, rfl, ⟨_, rfl, rfl⟩, .one ⟨_, rfl, rfl⟩, Or.inl rfl, ⟨_, rfl, rfl⟩⟩
  have hmodifiers : IsModifiers [.phrase .matching
      (spacedToken (.keyword .on) ['o', 'n'] ::
        .phrase .groupingLabels [tightMark '(', spacedToken .labelName ['x'], tightMark ')'] ::
        group)] :=
    ⟨[], [_], rfl, Or.inl rfl, Or.inr ⟨_, rfl, _, _, _, rfl, Or.inl ⟨_, rfl, rfl⟩, hlabels, hgroup⟩⟩
  refine .binary (k := 3) (grammatical_metric (c := 'a') (by decide +kernel)) rfl hmodifiers hclear
    hright ?_
  exact ⟨by decide, hlevel⟩

end Written

/-! ### Reading back -/

/-- An expression with blank text between all its lexemes is laid out, if there are no comments in
front of parentheses. -/
theorem Written.laidOut_of_spaced {clear : List Written → List Word → Prop} {e : Written}
    {tail : List Char} (he : Grammatical clear e) (hproper : ∀ l ∈ e.lexemes, l.Proper)
    (hspaced : ∀ l ∈ e.lexemes.tail, l.Spaced) (htail : isTail tail = true) :
    Lexeme.LaidOut e.lexemes tail :=
  Lexeme.laidOut_of_spaced hproper hspaced (bracketed_of_grammatical he).calls htail

/-- The syntax tree of an expression is read back from its text wherever there is room for its
nesting. -/
theorem Node.ofQuery_of_grammatical {limits : Limits} {e : Written} {tail : List Char}
    (he : Grammatical Clear e) (hnesting : e.nesting < limits.rules)
    (hlaid : Lexeme.LaidOut e.lexemes tail)
    (htail : isTail tail = true) :
    ∃ n, e.item 0 = .node n ∧
      Node.ofQuery? limits (e.text ++ tail) = some ⟨.root, 0, (e.text ++ tail).length, [n]⟩ := by
  obtain ⟨n, hn⟩ := exists_node_of_isNode (isNode_of_grammatical he) 0
  have hwrites : e.Writes limits.rules (e.text ++ tail) :=
    ⟨he, hnesting, tail, htail, by simpa [Laid, lexemesAll] using hlaid, rfl⟩
  have hread : Reading.ofQuery limits (e.text ++ tail) = .accepted (some n) :=
    Reading.within_eq_accepted_iff.2 ⟨e, hwrites, hn⟩
  exact ⟨n, hn, by simp [Node.ofQuery?, hread, Node.ofReading]⟩

/-- A sum with a matching clause is read back. -/
theorem Node.ofQuery_matchedSum :
    Grammatical Clear (matchedSum [] (metric 'b')) ∧
      (matchedSum [] (metric 'b')).nesting < Limits.usual.rules ∧
      Lexeme.LaidOut (matchedSum [] (metric 'b')).lexemes ['\n'] ∧ isTail ['\n'] = true ∧
      ∃ n, (matchedSum [] (metric 'b')).item 0 = .node n ∧
        Node.ofQuery? .usual ((matchedSum [] (metric 'b')).text ++ ['\n']) =
          some ⟨.root, 0, ((matchedSum [] (metric 'b')).text ++ ['\n']).length, [n]⟩ := by
  have hgrammatical : Grammatical Clear (matchedSum [] (metric 'b')) :=
    grammatical_matchedSum (Or.inl rfl)
      (show startsEither .groupLeft .groupRight (metric 'b').words = false by decide +kernel)
      (grammatical_metric (by decide +kernel)) (by decide)
  have hnesting : (matchedSum [] (metric 'b')).nesting < Limits.usual.rules := by decide +kernel
  have hlaid : Lexeme.LaidOut (matchedSum [] (metric 'b')).lexemes ['\n'] := by decide +kernel
  exact ⟨hgrammatical, hnesting, hlaid, rfl,
    Node.ofQuery_of_grammatical hgrammatical hnesting hlaid rfl⟩

/-- Clear right operands are needed: otherwise a modifier may take the operand. -/
theorem Node.not_ofQuery_of_grammatical_without_clear :
    ¬ ∀ (limits : Limits) (e : Written) (tail : List Char), Grammatical (fun _ _ => True) e →
      e.nesting < limits.rules → Lexeme.LaidOut e.lexemes tail → isTail tail = true →
      ∃ n, e.item 0 = .node n ∧
        Node.ofQuery? limits (e.text ++ tail) = some ⟨.root, 0, (e.text ++ tail).length, [n]⟩ := by
  intro h
  have hgrammatical : Grammatical (fun _ _ => True) swallowingSum :=
    grammatical_matchedSum (Or.inr ⟨_, [], rfl, Or.inl ⟨_, rfl, rfl⟩, Or.inl rfl⟩) trivial
      (.paren ⟨_, rfl, rfl⟩ (grammatical_metric (by decide +kernel)) ⟨_, rfl, rfl⟩) (by decide)
  obtain ⟨n, hn, hread⟩ :=
    h .usual swallowingSum [] hgrammatical (by decide +kernel) (by decide +kernel) rfl
  have hrejected : ∃ stuck, Reading.ofQuery .usual (swallowingSum.text ++ []) = .rejected stuck :=
    ⟨_, rfl⟩
  obtain ⟨stuck, hstuck⟩ := hrejected
  rw [Node.ofQuery?, hstuck] at hread
  obtain rfl : ⟨.error, stuck.position, _, []⟩ = n :=
    (List.cons.inj (congrArg Node.children (Option.some.inj hread))).1
  cases hn

end PromqlGuide
