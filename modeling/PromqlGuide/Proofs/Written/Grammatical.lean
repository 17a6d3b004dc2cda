import PromqlGuide.Proofs.Written.Tree

/-!
# Grammatical trees

The written trees that are expressions, by what they are made of: one constructor of `Grammatical`
for each kind of expression, with the precedences of its operands.  From loosest to tightest binding
the levels are 0 for `or`; 1 for `and` and `unless`; 2 for comparisons; 3 for sums; 4 for products
and `atan2`; 5 for a sign; 6 for `^`; and 7 for everything else.

The modifiers of an operator are optional and are read wherever they can be.  So a right operand
must not start with words that read as a modifier which is still possible there; `Clear` says that
it does not.  The definition of grammatical trees takes any such condition as its parameter.
-/
namespace PromqlGuide

open Text

/-- Whether a word can be read as a lexeme of a kind. -/
def Word.readsAs (w : Word) (x : Lexical) : Bool := x.spells w.text

namespace Written

/-! ### Parts without expressions inside -/

/-- A lexeme of a kind. -/
def Of (x : Lexical) (w : Written) : Prop := ∃ l : Lexeme, w = .lexeme l ∧ l.kind = x

/-- Nothing, or one tree with a property. -/
def Maybe (P : Written → Prop) (ws : List Written) : Prop := ws = [] ∨ ∃ w, ws = [w] ∧ P w

/-- Trees with a property, with commas between them. -/
inductive Separated (P : Written → Prop) : List Written → Prop where
  | nil : Separated P []
  | one {w : Written} : P w → Separated P [w]
  | cons {w comma v : Written} {ws : List Written} : P w → Of (.mark ',') comma →
      Separated P (v :: ws) → Separated P (w :: comma :: v :: ws)

/-- Trees with commas between them and marks around them. -/
def Enclosed (left right : Char) (P : Written → Prop) (parts : List Written) : Prop :=
  ∃ opening inside closing, parts = opening :: inside ++ [closing] ∧ Of (.mark left) opening ∧
    Separated P inside ∧ Of (.mark right) closing

/-- Trees with commas between them and marks around them; a comma may stand behind the last one. -/
def EnclosedLoosely (left right : Char) (P : Written → Prop) (parts : List Written) : Prop :=
  ∃ opening inside comma closing, parts = opening :: inside ++ comma ++ [closing] ∧
    Of (.mark left) opening ∧ Separated P inside ∧ Maybe (Of (.mark ',')) comma ∧
    Of (.mark right) closing

/-- A list has entries with every weaker property. -/
lemma Separated.mono {P Q : Written → Prop} {ws : List Written} (h : Separated P ws)
    (hPQ : ∀ w ∈ ws, P w → Q w) : Separated Q ws := by
  induction h with
  | nil => exact .nil
  | one hw => exact .one (hPQ _ (by simp) hw)
  | cons hw hcomma _ ih =>
    exact .cons (hPQ _ (by simp) hw) hcomma (ih fun v hv =>
      hPQ v (List.mem_cons_of_mem _ (List.mem_cons_of_mem _ hv)))

/-- What stands between marks has entries with every weaker property. -/
lemma Enclosed.mono {left right : Char} {P Q : Written → Prop} {parts : List Written}
    (h : Enclosed left right P parts) (hPQ : ∀ w ∈ parts, P w → Q w) :
    Enclosed left right Q parts := by
  obtain ⟨opening, inside, closing, rfl, hopening, hinside, hclosing⟩ := h
  exact ⟨opening, inside, closing, rfl, hopening,
    hinside.mono fun w hw => hPQ w (by simp [hw]), hclosing⟩

/-- What stands between marks has entries with every weaker property, with a comma behind the last
one or without. -/
lemma EnclosedLoosely.mono {left right : Char} {P Q : Written → Prop} {parts : List Written}
    (h : EnclosedLoosely left right P parts) (hPQ : ∀ w, P w → Q w) :
    EnclosedLoosely left right Q parts := by
  obtain ⟨opening, inside, comma, closing, rfl, hopening, hinside, hcomma, hclosing⟩ := h
  exact ⟨opening, inside, comma, closing, rfl, hopening, hinside.mono fun w _ => hPQ w, hcomma,
    hclosing⟩

/-- A label matcher, or a quoted name alone. -/
inductive IsMatcher : Written → Prop where
  | plain {name operator value : Written} : Of (.token .labelName) name →
      Of (.token .matchOperator) operator → Of (.token .string) value →
      IsMatcher (.phrase .unquotedMatcher [name, operator, value])
  | quoted {name operator value : Written} : Of (.token .string) name →
      Of (.token .matchOperator) operator → Of (.token .string) value →
      IsMatcher (.phrase .quotedMatcher [.phrase .quotedName [name], operator, value])
  | name {name : Written} : Of (.token .string) name → IsMatcher (.phrase .quotedName [name])

/-- Label matchers between braces. -/
def IsLabelBlock (w : Written) : Prop :=
  ∃ parts, w = .phrase .labelMatchers parts ∧ EnclosedLoosely '\x7b' '\x7d' IsMatcher parts

/-- Label names between parentheses. -/
def IsGrouping (w : Written) : Prop :=
  ∃ parts, w = .phrase .groupingLabels parts ∧
    EnclosedLoosely '(' ')' (Of (.token .labelName)) parts

/-- A keyword that is one of two. -/
def IsEither (k k' : Keyword) (w : Written) : Prop :=
  Of (.token (.keyword k)) w ∨ Of (.token (.keyword k')) w

/-- The labels that an aggregation keeps or drops. -/
def IsModifier (w : Written) : Prop :=
  ∃ word labels, w = .phrase .modifier [word, labels] ∧ IsEither .byWord .without word ∧
    IsGrouping labels

/-- Which side of a matching may have several partners, and the labels taken from the other one. -/
def IsGroup (ws : List Written) : Prop :=
  ws = [] ∨ ∃ word labels, ws = word :: labels ∧ IsEither .groupLeft .groupRight word ∧
    Maybe IsGrouping labels

/-- How the series of two operands are matched. -/
def IsMatching (w : Written) : Prop :=
  ∃ word labels group, w = .phrase .matching (word :: labels :: group) ∧
    IsEither .on .ignoring word ∧ IsGrouping labels ∧ IsGroup group

/-- The modifiers of a binary operator. -/
def IsModifiers (ws : List Written) : Prop :=
  ∃ bool matching, ws = bool ++ matching ∧ Maybe (Of (.token (.keyword .bool))) bool ∧
    Maybe IsMatching matching

/-- The parts of a postfix, without what it applies to. -/
inductive IsPostfix : Phrase → List Written → Prop where
  | range {opening range closing : Written} : Of (.mark '[') opening →
      Of (.token .duration) range → Of (.mark ']') closing →
      IsPostfix .matrixSelector [opening, range, closing]
  | subquery {opening range colon closing : Written} {step : List Written} :
      Of (.mark '[') opening → Of (.token .duration) range → Of (.mark ':') colon →
      Maybe (Of (.token .duration)) step → Of (.mark ']') closing →
      IsPostfix .subquery (opening :: range :: colon :: step ++ [closing])
  | offset {word shift : Written} {sign : List Written} : Of (.token (.keyword .offset)) word →
      Maybe (Of (.token (.symbol .sub))) sign → Of (.token .duration) shift →
      IsPostfix .offset (word :: sign ++ [shift])
  | pinned {mark time : Written} : Of (.token (.symbol .atSign)) mark →
      Of (.token .timestamp) time ∨ Of (.token .startOrEnd) time →
      IsPostfix .pinned [mark, time]

/-! ### Expressions -/

/-- The level of a binary operator. -/
def operatorLevel? : Lexical → Option Nat
  | .token (.keyword .or) => some 0
  | .token (.keyword .and) | .token (.keyword .unlessWord) => some 1
  | .token (.symbol .eql) | .token (.symbol .neq) | .token (.symbol .lte) | .token (.symbol .lss)
  | .token (.symbol .gte) | .token (.symbol .gtr) => some 2
  | .token (.symbol .add) | .token (.symbol .sub) => some 3
  | .token (.symbol .mul) | .token (.symbol .div) | .token (.symbol .mod)
  | .token (.keyword .atan2) => some 4
  | .token (.symbol .pow) => some 6
  | _ => none

/-- The level of an expression: how tightly its outermost operator binds. -/
def level : Written → Nat
  | phrase .binary (_ :: lexeme op :: _) => (operatorLevel? op.kind).getD 7
  | phrase .unary _ => 5
  | _ => 7

/-- Whether expressions of two levels may be the operands of an operator: all operators group to the
left but `^`, whose left operand has no operator and whose right operand may be a power or
signed. -/
def Fits (operator left right : Nat) : Prop :=
  if operator = 6 then 7 ≤ left ∧ 5 ≤ right else operator ≤ left ∧ operator < right

/-- The words of a tree. -/
def words (w : Written) : List Word := w.lexemes.map Lexeme.toWord

/-- The written trees that are expressions.  The parameter says which words may stand behind the
modifiers of an operator. -/
inductive Grammatical (clear : List Written → List Word → Prop) : Written → Prop where
  | number {w : Written} : Of (.token .number) w → Grammatical clear w
  | string {w : Written} : Of (.token .string) w → Grammatical clear w
  | named {l : Lexeme} {block : List Written} : l.kind = .token .metricName →
      Number.tokenLength? l.text = none → Maybe IsLabelBlock block →
      Grammatical clear (.phrase .vectorSelector (.lexeme l :: block))
  | unnamed {block : Written} : IsLabelBlock block →
      Grammatical clear (.phrase .vectorSelector [block])
  | call {function : Written} {body : List Written} : Of (.token .functionName) function →
      Enclosed '(' ')' (fun w => w.isNode = true) body →
      (∀ w ∈ body, w.isNode = true → Grammatical clear w) →
      Grammatical clear (.phrase .call [function, .phrase .callBody body])
  | aggregation {operator : Written} {before body after : List Written} :
      Of (.token .aggregationOperator) operator → Maybe IsModifier before →
      Enclosed '(' ')' (fun w => w.isNode = true) body →
      (∀ w ∈ body, w.isNode = true → Grammatical clear w) → Maybe IsModifier after →
      before = [] ∨ after = [] →
      Grammatical clear
        (.phrase .aggregation (operator :: before ++ .phrase .callBody body :: after))
  | paren {opening e closing : Written} : Of (.mark '(') opening → Grammatical clear e →
      Of (.mark ')') closing → Grammatical clear (.phrase .paren [opening, e, closing])
  | postfixed {base : Written} {p : Phrase} {parts : List Written} : Grammatical clear base →
      7 ≤ base.level → IsPostfix p parts → Grammatical clear (.phrase p (base :: parts))
  | unary {sign e : Written} : Of (.token (.symbol .sub)) sign ∨ Of (.token (.symbol .add)) sign →
      Grammatical clear e → 5 ≤ e.level → Grammatical clear (.phrase .unary [sign, e])
  | binary {left right : Written} {operator : Lexeme} {modifiers : List Written} {k : Nat} :
      Grammatical clear left → operatorLevel? operator.kind = some k → IsModifiers modifiers →
      clear modifiers right.words → Grammatical clear right → Fits k left.level right.level →
      Grammatical clear (.phrase .binary (left :: .lexeme operator :: modifiers ++ [right]))

/-! ### Words that read as modifiers -/

/-- Whether words go on with the rest of a list of label names; the first argument says that a name
stands in front. -/
def endsLabels : Bool → List Word → Bool
  | _, [] => false
  | true, w :: ws => w.readsAs (.mark ')') || (w.readsAs (.mark ',') && endsLabels false ws)
  | false, w :: ws =>
    w.readsAs (.mark ')') || (w.readsAs (.token .labelName) && endsLabels true ws)

/-- Whether words start with a comma and the end of a list. -/
def commaOnly : List Word → Bool
  | w :: v :: _ => w.readsAs (.mark ',') && v.readsAs (.mark ')')
  | _ => false

/-- Whether words start with a list of label names between parentheses, which may be a comma
alone. -/
def startsLabels : List Word → Bool
  | [] => false
  | w :: ws => w.readsAs (.mark '(') && (endsLabels false ws || commaOnly ws)

/-- Whether words start with one of two keywords. -/
def startsEither (k k' : Keyword) : List Word → Bool
  | [] => false
  | w :: _ => w.readsAs (.token (.keyword k)) || w.readsAs (.token (.keyword k'))

/-- Whether words start with a clause that matches series. -/
def startsMatching (ws : List Word) : Bool := startsEither .on .ignoring ws && startsLabels ws.tail

/-- Whether words may stand behind a clause with the given parts that matches series. -/
def ClearOfGroup : List Written → List Word → Prop
  | [_, _], ws => startsEither .groupLeft .groupRight ws = false
  | [_, _, _], ws => startsLabels ws = false
  | _, _ => True

/-- Whether words may stand behind the modifiers of an operator: they do not start with a modifier
that is still possible there. -/
def Clear : List Written → List Word → Prop
  | [], ws => startsEither .bool .bool ws = false ∧ startsMatching ws = false
  | [.lexeme _], ws => startsMatching ws = false
  | [.phrase _ parts], ws | [_, .phrase _ parts], ws => ClearOfGroup parts ws
  | _, _ => True

end Written

end PromqlGuide
