import PromqlGuide.Proofs.Written.Tree

/-!
# Trees inside a tree

The trees inside a written tree, and where each of them stands in a query: every node of a syntax
tree is what one of them stands for (`Written.exists_within_of_mem_preorder`), and the text of a
node is that of its tree without the gap in front of it (`Written.text_of_item`).
-/
namespace PromqlGuide

open Text

namespace Written

/-! ### The first gap -/

/-- The gap in front of a tree. -/
def firstGap : Written → List Char
  | lexeme l => l.gap
  | phrase _ [] => []
  | phrase _ (w :: _) => firstGap w

/-- A tree without the gap in front of it. -/
def bare : Written → Written
  | lexeme l => lexeme { l with gap := [] }
  | phrase p [] => phrase p []
  | phrase p (w :: ws) => phrase p (bare w :: ws)

/-- A tree is written as its first gap and what follows. -/
lemma text_eq_append_bare (w : Written) : w.text = w.firstGap ++ w.bare.text := by
  induction w with
  | lexeme l => simp [firstGap, bare]
  | phrase p parts ih =>
    cases parts with
    | nil => rfl
    | cons w ws => simp [firstGap, bare, ih w List.mem_cons_self]

/-- Without the gap of its first lexeme, the text of a tree is what is left once blank text is
skipped. -/
lemma text_bare_of_firstGap {w : Written} {l : Lexeme} {ls : List Lexeme}
    (hlexemes : w.lexemes = l :: ls)
    (hgap : w.firstGap = l.gap) (hl : l.Proper) : w.bare.text =
      w.text.drop (blankLength w.text) := by
  have htext : w.text = l.gap ++ (l.text ++ Lexeme.writtenAll ls) := by
    rw [text, hlexemes, Lexeme.writtenAll_cons]
  have hbare := text_eq_append_bare w
  rw [hgap, htext, List.append_cancel_left_eq] at hbare
  rw [htext, drop_blankLength_append hl.1 (hl.visible _), hbare]

/-- Without the gap in front of it, a tree stands for the same node further on. -/
lemma item_bare (w : Written) (position : Nat) :
    w.bare.item (position + w.firstGap.length) = w.item position := by
  induction w with
  | lexeme l => simp [firstGap, bare, item, leaf]
  | phrase p parts ih =>
    cases parts with
    | nil => rfl
    | cons w ws =>
      have htext := congrArg List.length (text_eq_append_bare w)
      have hnext : position + w.firstGap.length + w.bare.text.length =
        position + w.text.length := by
        rw [htext, List.length_append, Nat.add_assoc]
      simp only [firstGap, bare, item, items, ih w List.mem_cons_self, hnext, Item.span,
        List.head?_cons, Option.map_some, Option.getD_some]
      simp [List.getLast?_cons]

/-- A tree without its first gap is laid out where the tree is. -/
lemma laid_bare {w : Written} {rest : List Char} (h : Laid [w] rest) : Laid [w.bare] rest := by
  induction w generalizing rest with
  | lexeme l =>
    obtain ⟨⟨-, hproper⟩, hstops, -⟩ := h
    exact ⟨⟨rfl, hproper⟩, hstops, trivial⟩
  | phrase p parts ih =>
    cases parts with
    | nil => exact h
    | cons w ws =>
      obtain ⟨hfirst, hmore⟩ := laid_cons.1 (laid_phrase.1 h)
      exact laid_phrase.2 (laid_cons.2 ⟨ih w List.mem_cons_self hfirst, hmore⟩)

/-! ### The range of a node -/

/-- A tree stands for something that starts behind its first gap. -/
lemma start_item (w : Written) (position : Nat) :
    (w.item position).start = position + w.firstGap.length := by
  induction w with
  | lexeme l =>
    simp only [item, leaf, firstGap]
    split <;> rfl
  | phrase p parts ih =>
    cases parts with
    | nil => rfl
    | cons w ws =>
      simpa [item, items, Item.start, Item.span, firstGap] using ih w List.mem_cons_self

/-- The last of several items stops where the last of the others does, or where the first one
does. -/
lemma stop_getLast? (i : Item) (is : List Item) (position : Nat) :
    ((i :: is).getLast?.map Item.stop).getD position = (is.getLast?.map Item.stop).getD i.stop := by
  rw [List.getLast?_cons]
  cases is.getLast? <;> rfl

/-- The last item of trees stops at the end of their text, if each stops at the end of its own. -/
lemma stop_items {ws : List Written} (h : ∀ w ∈ ws, ∀ position, (w.item position).stop =
    position + w.text.length) (position : Nat) :
    ((items position ws).getLast?.map Item.stop).getD position =
      position + (textAll ws).length := by
  induction ws generalizing position with
  | nil => rfl
  | cons w ws ih =>
    rw [items, stop_getLast?, h w List.mem_cons_self, ih fun v hv =>
      h v (List.mem_cons_of_mem w hv)]
    simp [Nat.add_assoc]

/-- A tree stands for something that stops at the end of its text. -/
lemma stop_item (w : Written) (position : Nat) :
    (w.item position).stop = position + w.text.length := by
  induction w generalizing position with
  | lexeme l =>
    simp only [item, leaf, text_lexeme, List.length_append, ← Nat.add_assoc]
    split <;> rfl
  | phrase p parts ih => exact stop_items ih position

end Written

open Written

/-! ### Places in a query -/

/-- Whether trees are written from a position of a query on. -/
def Stands (query : List Char) (position : Nat) (ws : List Written) : Prop :=
  ∃ before rest, query = before ++ (textAll ws ++ rest) ∧ before.length = position ∧ Laid ws rest

section

variable {query : List Char} {position : Nat} {w : Written} {ws : List Written}

/-- Trees behind trees are written behind them. -/
lemma stands_append {vs : List Written} (h : Stands query position (ws ++ vs)) :
    Stands query position ws ∧ Stands query (position + (textAll ws).length) vs := by
  obtain ⟨before, rest, rfl, rfl, hlaid⟩ := h
  obtain ⟨hfirst, hmore⟩ := laid_append.1 hlaid
  exact ⟨⟨before, textAll vs ++ rest, by simp, rfl, hfirst⟩,
    ⟨before ++ textAll ws, rest, by simp, by simp, hmore⟩⟩

/-- The first tree is written in front of the others. -/
lemma stands_cons (h : Stands query position (w :: ws)) :
    Stands query position [w] ∧ Stands query (position + w.text.length) ws := by
  have h : Stands query position ([w] ++ ws) := h
  simpa using stands_append h

/-- A phrase is written where its parts are. -/
lemma stands_phrase {p : Phrase} :
    Stands query position [.phrase p ws] ↔ Stands query position ws := by
  simp only [Stands, laid_phrase, textAll_cons, text_phrase, textAll_nil, List.append_nil]

/-- Without its first gap a tree is written behind that gap. -/
lemma stands_bare (h : Stands query position [w]) :
    Stands query (position + w.firstGap.length) [w.bare] := by
  obtain ⟨before, rest, rfl, rfl, hlaid⟩ := h
  refine ⟨before ++ w.firstGap, rest, ?_, by simp, laid_bare hlaid⟩
  simp [text_eq_append_bare w]

namespace Written

/-- The text of a node is that of its tree without the gap in front. -/
theorem text_of_item {n : Node} (h : Stands query position [w]) (hn : w.item position = .node n) :
    n.text query = w.bare.text := by
  have hstart := start_item w position
  have hstop := stop_item w position
  rw [hn] at hstart hstop
  obtain ⟨before, rest, rfl, rfl, -⟩ := h
  simp only [Item.start, Item.stop] at hstart hstop
  have hlength := congrArg List.length (text_eq_append_bare w)
  rw [List.length_append] at hlength
  have hcount : n.stop - n.start = w.bare.text.length := by omega
  rw [Node.text, slice, hcount, hstart, textAll_cons, textAll_nil, List.append_nil,
    text_eq_append_bare w, List.append_assoc, ← List.append_assoc before, ← List.length_append,
    List.drop_left, List.take_left]

/-! ### Trees inside -/

/-- Whether a tree is inside another one, or the same. -/
inductive Within (w : Written) : Written → Prop where
  | refl : Within w w
  | part {p : Phrase} {parts : List Written} {v : Written} : v ∈ parts → Within w v →
      Within w (phrase p parts)

/-- A lexeme stands for a node without children. -/
lemma children_of_lexeme {l : Lexeme} {position : Nat} {n : Node}
    (h : (lexeme l).item position = .node n) : n.children = [] := by
  simp only [item, leaf] at h
  split at h
  · cases h
    rfl
  · cases h

/-- Whether a property of places in a query holds behind what is written at a place where it
holds. -/
def PassesOn (query : List Char) (Q : Nat → Prop) : Prop :=
  ∀ place ws, Stands query place ws → Q place → Q (place + (textAll ws).length)

/-- Every item of trees is that of one of them at its place, which has what passes on from the first
place. -/
lemma exists_stands_of_mem_items {Q : Nat → Prop} (hQ : PassesOn query Q) {i : Item}
    (h : Stands query position ws) (hposition : Q position) (hi : i ∈ items position ws) :
    ∃ v ∈ ws, ∃ place, Stands query place [v] ∧ Q place ∧ v.item place = i := by
  induction ws generalizing position with
  | nil => cases hi
  | cons w ws ih =>
    obtain ⟨hfirst, hmore⟩ := stands_cons h
    rcases List.mem_cons.1 hi with rfl | hi
    · exact ⟨w, List.mem_cons_self, position, hfirst, hposition, rfl⟩
    · have hbehind : Q (position + w.text.length) := by simpa using hQ position [w] hfirst hposition
      obtain ⟨v, hv, place, hstands, hplace, hitem⟩ := ih hmore hbehind hi
      exact ⟨v, List.mem_cons_of_mem w hv, place, hstands, hplace, hitem⟩

/-- Every node of a tree is what a tree inside stands for, at a place with what passes on. -/
theorem exists_place_of_mem_preorder {Q : Nat → Prop} (hQ : PassesOn query Q) {e : Written}
    {n m : Node}
    (h : Stands query position [e]) (hposition : Q position) (hn : e.item position = .node n)
    (hm : m ∈ n.preorder) :
    ∃ w place, Within w e ∧ Stands query place [w] ∧ Q place ∧ w.item place = .node m := by
  induction e generalizing position n with
  | lexeme l =>
    rw [Node.preorder_eq, children_of_lexeme hn] at hm
    obtain rfl : m = n := by simpa using hm
    exact ⟨_, position, .refl, h, hposition, hn⟩
  | phrase p parts ih =>
    cases hn
    rw [Node.preorder_eq] at hm
    rcases List.mem_cons.1 hm with rfl | hm
    · exact ⟨_, position, .refl, h, hposition, rfl⟩
    · obtain ⟨ns, hns, hm⟩ := List.mem_flatten.1 hm
      obtain ⟨c, hc, rfl⟩ := List.mem_map.1 hns
      obtain ⟨i, hi, hic⟩ := List.mem_filterMap.1 hc
      obtain ⟨v, hv, place, hstands, hplace, hitem⟩ :=
        exists_stands_of_mem_items hQ (stands_phrase.1 h) hposition hi
      cases i with
      | mark => cases hic
      | node c' =>
        cases hic
        obtain ⟨w, place', hwithin, hw⟩ := ih v hv hstands hplace hitem hm
        exact ⟨w, place', .part hv hwithin, hw⟩

/-- Every node of a tree is what a tree inside stands for. -/
theorem exists_within_of_mem_preorder {e : Written} {n m : Node} (h : Stands query position [e])
    (hn : e.item position = .node n) (hm : m ∈ n.preorder) :
    ∃ w place, Within w e ∧ Stands query place [w] ∧ w.item place = .node m := by
  obtain ⟨w, place, hwithin, hstands, -, hitem⟩ :=
    exists_place_of_mem_preorder (Q := fun _ => True) (fun _ _ _ _ => trivial) h trivial hn hm
  exact ⟨w, place, hwithin, hstands, hitem⟩

end Written

end

end PromqlGuide
