import PromqlGuide.Proofs.Written.Lexeme
import PromqlGuide.Grammar.Outcome

/-!
# Written trees

A *written tree* is a syntax tree together with all that is written for it: every mark and every
gap, and no positions.  Its lexemes in order are its text, and at each position of a query it stands
for one node (`Written.item`).

An operator or a postfix builds on what stands in front of it.  `attach` puts a tree in front of the
parts of such a phrase, in the way in which the reader makes a node adopt what was read before it
(`graft_items`).
-/
namespace PromqlGuide

/-- What is written for a node or a mark: a lexeme, or the parts of a phrase. -/
inductive Written where
  | lexeme (l : Lexeme)
  | phrase (p : Phrase) (parts : List Written)
  deriving Repr

namespace Written

/-- A property of lexemes that passes from the parts to a phrase holds of every tree. -/
@[induction_eliminator]
theorem inductionOn {P : Written → Prop} (lexeme : ∀ l, P (lexeme l))
    (phrase : ∀ p parts, (∀ w ∈ parts, P w) → P (phrase p parts)) : ∀ w, P w
  | .lexeme l => lexeme l
  | .phrase p parts => phrase p parts fun w _ => inductionOn lexeme phrase w

mutual

/-- The lexemes of a tree, in order. -/
def lexemes : Written → List Lexeme
  | lexeme l => [l]
  | phrase _ parts => lexemesAll parts

/-- The lexemes of a list of trees. -/
def lexemesAll : List Written → List Lexeme
  | [] => []
  | w :: ws => lexemes w ++ lexemesAll ws

end

/-- The lexemes of two lists of trees follow one another. -/
@[simp] lemma lexemesAll_append (ws vs : List Written) :
    lexemesAll (ws ++ vs) = lexemesAll ws ++ lexemesAll vs := by
  induction ws with
  | nil => rfl
  | cons w ws ih => simp [lexemesAll, ih]

/-- The text of a list of trees. -/
def textAll (ws : List Written) : List Char := Lexeme.writtenAll (lexemesAll ws)

/-- The text of a tree, with the gap in front of it. -/
def text (w : Written) : List Char := Lexeme.writtenAll w.lexemes

/-- No trees have no text. -/
@[simp] lemma textAll_nil : textAll [] = [] := rfl

/-- The text of the first tree stands in front of that of the others. -/
@[simp] lemma textAll_cons (w : Written) (ws : List Written) :
    textAll (w :: ws) = w.text ++ textAll ws := by
  simp [textAll, text, lexemesAll]

/-- The texts of two lists of trees follow one another. -/
@[simp] lemma textAll_append (ws vs : List Written) :
    textAll (ws ++ vs) = textAll ws ++ textAll vs := by
  simp [textAll]

/-- The text of a lexeme is its gap and its word. -/
@[simp] lemma text_lexeme (l : Lexeme) : (lexeme l).text = l.gap ++ l.text := by
  simp [text, lexemes]

/-- The text of a phrase is that of its parts. -/
@[simp] lemma text_phrase (p : Phrase) (parts : List Written) :
    (phrase p parts).text = textAll parts := rfl

/-! ### Nodes -/

/-- What the reader leaves for a lexeme whose gap starts at a position. -/
def leaf (position : Nat) (l : Lexeme) : Item :=
  let start := position + l.gap.length
  match l.kind with
  | .token t => .node ⟨.leaf t, start, start + l.text.length, []⟩
  | .mark c => .mark c start (start + l.text.length)

mutual

/-- What the reader leaves for a tree whose text starts at a position. -/
def item (position : Nat) : Written → Item
  | lexeme l => leaf position l
  | phrase p parts => .node (Item.span (.phrase p) position (items position parts))

/-- What the reader leaves for trees one after the other. -/
def items (position : Nat) : List Written → List Item
  | [] => []
  | w :: ws => item position w :: items (position + w.text.length) ws

end

/-- The items of two lists of trees follow one another. -/
lemma items_append (position : Nat) (ws vs : List Written) :
    items position (ws ++ vs) =
      items position ws ++ items (position + (textAll ws).length) vs := by
  induction ws generalizing position with
  | nil => simp [items]
  | cons w ws ih => simp [items, ih, Nat.add_assoc]

/-- Every tree leaves an item. -/
lemma items_eq_nil_iff {position : Nat} {ws : List Written} : items position ws = [] ↔ ws = [] := by
  cases ws <;> simp [items]

/-- Whether a tree stands for a node. -/
def isNode : Written → Bool
  | lexeme l =>
    match l.kind with
    | .token _ => true
    | .mark _ => false
  | phrase .. => true

/-- A tree that stands for a node has one at every position. -/
lemma exists_node_of_isNode {w : Written} (h : w.isNode = true) (position : Nat) :
    ∃ n, w.item position = .node n := by
  cases w with
  | lexeme l =>
    simp only [item, leaf]
    simp only [isNode] at h
    split at h
    · exact ⟨_, rfl⟩
    · cases h
  | phrase p parts => exact ⟨_, rfl⟩

/-! ### Building on what stands in front -/

/-- Whether a tree is a phrase that a tree can be put in front of. -/
def takesBase : Written → Bool
  | phrase _ (_ :: _) => true
  | _ => false

/-- Puts a tree in front of the parts of a phrase. -/
def attach (base : Written) : Written → Written
  | phrase p parts => phrase p (base :: parts)
  | lexeme l => lexeme l

/-- Puts a tree in front of a phrase, the result in front of the next one, and so on. -/
def attachAll (base : Written) (later : List Written) : Written := later.foldl attach base

/-- Without further phrases the base is left. -/
@[simp] lemma attachAll_nil (base : Written) : attachAll base [] = base := rfl

/-- The base goes in front of the first phrase, then of the others. -/
@[simp] lemma attachAll_cons (base w : Written) (later : List Written) :
    attachAll base (w :: later) = attachAll (attach base w) later := rfl

/-- The lexemes of the base come first. -/
lemma lexemes_attach {base w : Written} (h : w.takesBase = true) :
    (attach base w).lexemes = base.lexemes ++ w.lexemes := by
  cases w with
  | lexeme l => cases h
  | phrase p parts => rfl

/-- The lexemes of the base come first, then those of all phrases. -/
lemma lexemes_attachAll {base : Written} {later : List Written}
    (h : ∀ w ∈ later, w.takesBase = true) :
    (attachAll base later).lexemes = base.lexemes ++ lexemesAll later := by
  induction later generalizing base with
  | nil => simp [lexemesAll]
  | cons w later ih =>
    rw [attachAll_cons, ih fun v hv => h v (List.mem_cons_of_mem w hv),
      lexemes_attach (h w List.mem_cons_self)]
    simp [lexemesAll]

/-- The text of the base comes first, then that of all phrases. -/
lemma text_attachAll {base : Written} {later : List Written}
    (h : ∀ w ∈ later, w.takesBase = true) :
    (attachAll base later).text = base.text ++ textAll later := by
  simp [text, textAll, lexemes_attachAll h]

/-- A phrase with a base stands for a node. -/
lemma isNode_attach {base w : Written} (h : w.takesBase = true) :
    (attach base w).isNode = true := by
  cases w with
  | lexeme l => cases h
  | phrase p parts => rfl

/-- A base with phrases behind it stands for a node. -/
lemma isNode_attachAll {base : Written} {later : List Written} (hbase : base.isNode = true)
    (h : ∀ w ∈ later, w.takesBase = true) : (attachAll base later).isNode = true := by
  induction later generalizing base with
  | nil => exact hbase
  | cons w later ih =>
    exact ih (isNode_attach (h w List.mem_cons_self)) fun v hv => h v (List.mem_cons_of_mem w hv)

/-- A phrase adopts what was read in front of it. -/
lemma adopt_item {base w : Written} {left n : Node} {position : Nat}
    (hleft : base.item position = .node left) (h : w.takesBase = true)
    (hn : w.item (position + base.text.length) = .node n) :
    (attach base w).item position = .node (Item.adopt left n) := by
  cases w with
  | lexeme l => cases h
  | phrase p parts =>
    cases parts with
    | nil => cases h
    | cons v parts =>
      simp only [item, Item.node.injEq] at hn
      subst hn
      obtain ⟨last, hlast⟩ : ∃ last, (items (position + base.text.length) (v :: parts)).getLast? =
          some last := ⟨_, List.getLast?_eq_some_getLast (by simp [items])⟩
      simp only [items] at hlast
      simp [attach, item, items, hleft, Item.span, Item.adopt, Item.start, Item.node?, hlast]

/-- Reading what builds on a tree attaches it. -/
theorem graft_items {base : Written} {later : List Written} (hbase : base.isNode = true)
    (h : ∀ w ∈ later, w.takesBase = true) (position : Nat) :
    Item.graft [base.item position] (items (position + base.text.length) later) =
      [(attachAll base later).item position] := by
  induction later generalizing base with
  | nil => rfl
  | cons w later ih =>
    have hw := h w List.mem_cons_self
    obtain ⟨left, hleft⟩ := exists_node_of_isNode hbase position
    have hnode : w.isNode = true := by
      cases w with
      | lexeme l => cases hw
      | phrase p parts => rfl
    obtain ⟨n, hn⟩ := exists_node_of_isNode hnode (position + base.text.length)
    have hattach : (attach base w).isNode = true := isNode_attach hw
    have hlater := ih hattach fun v hv => h v (List.mem_cons_of_mem w hv)
    have htext : (attach base w).text = base.text ++ w.text := by
      simp [text, lexemes_attach hw]
    rw [adopt_item hleft hw hn, htext, List.length_append, ← Nat.add_assoc] at hlater
    rw [attachAll_cons, ← hlater]
    simp only [Item.graft, items, List.foldl_cons, hleft, hn]

end Written

/-! ### Trees in front of a text -/

open Written

/-- Whether trees in front of a text are laid out. -/
def Laid (ps : List Written) (rest : List Char) : Prop := Lexeme.LaidOut (lexemesAll ps) rest

/-- Trees are laid out if the first part of them is in front of the text of the second one, and this
one is. -/
lemma laid_append {p q : List Written} {rest : List Char} :
    Laid (p ++ q) rest ↔ Laid p (textAll q ++ rest) ∧ Laid q rest := by
  simp only [Laid, lexemesAll_append, Lexeme.laidOut_append, textAll]

/-- Trees are laid out if the first one is in front of the text of the others, and these are. -/
lemma laid_cons {w : Written} {ws : List Written} {rest : List Char} :
    Laid (w :: ws) rest ↔ Laid [w] (textAll ws ++ rest) ∧ Laid ws rest :=
  laid_append (p := [w])

/-- A phrase is laid out where its parts are. -/
lemma laid_phrase {p : Phrase} {parts : List Written} {rest : List Char} :
    Laid [.phrase p parts] rest ↔ Laid parts rest := by
  simp [Laid, lexemesAll, lexemes]

/-- No trees are laid out in front of any text. -/
@[simp] lemma laid_nil (rest : List Char) : Laid [] rest := trivial

end PromqlGuide
