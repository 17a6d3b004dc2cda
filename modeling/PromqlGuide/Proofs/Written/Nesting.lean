import PromqlGuide.Proofs.Written.Grammatical

/-!
# Nesting

How many rules deep the reader has to go to read an expression.  Parentheses take two rules, for the
expression inside and its first operand, and a sign or an exponent takes one.  The reader refuses
queries that are nested deeper than its rules may follow one another.
-/
namespace PromqlGuide.Written

/-- Whether the parts of a binary operation are those of a power. -/
def isPower : List Written → Bool
  | _ :: lexeme operator :: _ => decide (operator.kind = .token (.symbol .pow))
  | _ => false

mutual

/-- How many rules deep a tree is nested. -/
def nesting : Written → Nat
  | lexeme _ => 1
  | phrase .paren parts | phrase .callBody parts => deepest parts + 2
  | phrase .unary parts => deepest parts + 1
  | phrase .binary parts =>
    if isPower parts then max (deepest parts) (lastNesting parts + 1) else deepest parts
  | phrase _ parts => deepest parts

/-- The deepest nesting of a list of trees. -/
def deepest : List Written → Nat
  | [] => 0
  | w :: ws => max (nesting w) (deepest ws)

/-- The nesting of the last tree. -/
def lastNesting : List Written → Nat
  | [] => 0
  | [w] => nesting w
  | _ :: v :: ws => lastNesting (v :: ws)

end

/-- The deepest nesting is within a bound if that of each tree is. -/
lemma deepest_le_iff {ws : List Written} {d : Nat} :
    deepest ws ≤ d ↔ ∀ w ∈ ws, w.nesting ≤ d := by
  induction ws with
  | nil => simp [deepest]
  | cons w ws ih => rw [deepest, Nat.max_le, ih, List.forall_mem_cons]

/-- No tree of a list is nested deeper than the deepest. -/
lemma nesting_le_deepest {w : Written} {ws : List Written} (h : w ∈ ws) : w.nesting ≤ deepest ws :=
  deepest_le_iff.1 (Nat.le_refl _) w h

/-- The last nesting of a list is that of its last tree. -/
lemma lastNesting_append (ws : List Written) (w : Written) :
    lastNesting (ws ++ [w]) = w.nesting := by
  induction ws with
  | nil => simp [lastNesting]
  | cons v ws ih =>
    cases ws with
    | nil => simp [lastNesting]
    | cons u ws => simpa [lastNesting] using ih

/-- The exponent of a power is a rule deeper than its base. -/
lemma nesting_binary (left right : Written) (operator : Lexeme) (modifiers : List Written) :
    (phrase .binary (left :: lexeme operator :: modifiers ++ [right])).nesting =
      max (deepest (left :: lexeme operator :: modifiers ++ [right]))
        (if operator.kind = .token (.symbol .pow) then right.nesting + 1 else 0) := by
  have hlast := lastNesting_append (left :: lexeme operator :: modifiers) right
  rw [nesting, hlast]
  simp only [List.cons_append, isPower, decide_eq_true_eq]
  split <;> simp

/-- A part is nested no deeper than the whole. -/
lemma deepest_le_nesting (p : Phrase) (parts : List Written) :
    deepest parts ≤ (phrase p parts).nesting := by
  cases p
  case binary =>
    simp only [nesting]
    split <;> omega
  all_goals simp only [nesting]; omega

/-- No part is nested deeper than its phrase. -/
lemma nesting_le_of_mem {p : Phrase} {parts : List Written} {w : Written} (h : w ∈ parts) :
    w.nesting ≤ (phrase p parts).nesting :=
  Nat.le_trans (nesting_le_deepest h) (deepest_le_nesting p parts)

/-- Phrases that take no rule of their own. -/
def isPlain : Phrase → Bool
  | .paren | .callBody | .unary | .binary => false
  | _ => true

/-- A phrase without a rule of its own is nested as deep as its parts. -/
lemma nesting_of_isPlain {p : Phrase} (h : isPlain p = true) (parts : List Written) :
    (phrase p parts).nesting = deepest parts := by
  cases p
  case paren | callBody | unary | binary => cases h
  all_goals rfl

/-- A phrase without a rule of its own is within a bound if its parts are. -/
lemma nesting_le_of_isPlain {p : Phrase} (h : isPlain p = true) {parts : List Written} {d : Nat}
    (hparts : ∀ w ∈ parts, w.nesting ≤ d) : (phrase p parts).nesting ≤ d := by
  rw [nesting_of_isPlain h]
  exact deepest_le_iff.2 hparts

end PromqlGuide.Written
