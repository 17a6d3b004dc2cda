import PromqlGuide.Proofs.Written.Fragment

/-!
# Nodes of accepted queries

What can be said about each node of an accepted query by itself (`Node.IsRead`): it has its shape, a
token is spelled as one of its kind, and where a call has no arguments there is nothing but blank
text between its parentheses.  Every tree inside an expression stands for such a node
(`Written.isRead_of_within`).
-/
namespace PromqlGuide

open Text Written

namespace Node

variable {query : List Char} {n c : Node}

/-- Whether a node covers parentheses with blank text between them. -/
def HasEmptyParentheses (query : List Char) (n : Node) : Prop :=
  ∃ gap, isGap gap = true ∧ n.text query = '(' :: (gap ++ [')'])

/-- Whether a node is as the reader leaves it. -/
structure IsRead (query : List Char) (n : Node) : Prop where
  shape : n.HasShape
  spelled : ∀ t, n.kind = .leaf t → t.spells (n.text query) = true
  empty : n.kind = .phrase .callBody → n.children = [] → n.HasEmptyParentheses query

/-- The children of a phrase that was read are those that it may have. -/
lemma IsRead.areParts {p : Phrase} (h : n.IsRead query) (hkind : n.kind = .phrase p) :
    AreParts p n.children := by
  have hshape := h.shape
  rwa [HasShape, hkind] at hshape

/-! ### Children of a kind -/

/-- A child of one of the kinds is found, if there is one of a kind among them. -/
lemma exists_child (k : Kind) (kinds : List Kind) (h : k ∈ n.children.map Node.kind)
    (hk : k ∈ kinds) : ∃ c, n.child? kinds = some c := by
  obtain ⟨d, hd, rfl⟩ := List.mem_map.1 h
  cases hfound : n.child? kinds with
  | none =>
    have hnone := List.find?_eq_none.1 hfound d hd
    simp [hk] at hnone
  | some c => exact ⟨c, rfl⟩

/-- A child of certain kinds is a child, and of one of them. -/
lemma mem_of_child {kinds : List Kind} (h : n.child? kinds = some c) :
    c ∈ n.children ∧ c.kind ∈ kinds :=
  ⟨List.mem_of_find?_eq_some h, by simpa using List.find?_some h⟩

end Node

/-! ### Spelling -/

/-- A duration lasts at least a millisecond. -/
lemma Duration.one_le_of_read {cs : List Char} {ms : Nat} (h : Duration.read cs = .ok ms) :
    1 ≤ ms := by
  unfold Duration.read at h
  cases htotal : Duration.total (Duration.parts cs) with
  | error e => rw [htotal] at h; cases h
  | ok n =>
    rw [htotal] at h
    simp only [Except.map, Except.ok.injEq] at h
    split_ifs at h with hzero
    · rw [← h]
      decide
    · omega

/-! ### Trees inside an expression -/

namespace Written

variable {clear : List Written → List Word → Prop} {query : List Char} {w e : Written}
  {ws parts : List Written} {position : Nat} {n : Node}

/-- The text of a leaf is a token of its kind. -/
lemma spells_of_item {t : Terminal} (h : Stands query position [w]) (hn : w.item position = .node n)
    (hkind : n.kind = .leaf t) : t.spells (n.text query) = true := by
  have hkinds := kind_of_item hn
  rw [hkind] at hkinds
  cases w with
  | phrase p parts => cases hkinds
  | lexeme l =>
    have htext : n.text query = l.text := by
      rw [text_of_item h hn]
      simp [bare]
    rw [htext]
    obtain ⟨before, rest, -, -, ⟨-, -, hspells⟩, -⟩ := h
    obtain ⟨s, hs, hleaf⟩ := exists_token_of_kind hkinds
    cases hleaf
    rwa [hs] at hspells

/-- Where no nodes are, nothing is written between commas. -/
lemma eq_nil_of_separated (h : Separated (fun w => w.isNode = true) ws)
    (hnodes : nodes position ws = []) : ws = [] := by
  have hfirst : ∀ {w : Written} {ws : List Written}, w.isNode = true →
    nodes position (w :: ws) ≠ [] := by
    intro w ws hw
    obtain ⟨n, hn⟩ := exists_node_of_isNode hw position
    rw [nodes_cons, hn]
    exact List.cons_ne_nil _ _
  cases h with
  | nil => rfl
  | one hw => exact absurd hnodes (hfirst hw)
  | cons hw _ _ => exact absurd hnodes (hfirst hw)

/-- What the parts of a list look like: arguments, label matchers, or label names. -/
lemma enclosed_of_fragment {p : Phrase} (h : Fragment clear (.phrase p parts)) :
    (p = .callBody → Enclosed '(' ')' (fun w => w.isNode = true) parts) ∧
      (p = .labelMatchers → EnclosedLoosely '\x7b' '\x7d' IsMatcher parts) ∧
      (p = .groupingLabels → EnclosedLoosely '(' ')' (Of (.token .labelName)) parts) := by
  cases h with
  | expression he =>
    cases he with
    | number hw | string hw => obtain ⟨l, hl, -⟩ := hw; cases hl
    | postfixed _ _ happended => cases happended <;> exact ⟨nofun, nofun, nofun⟩
    | _ => exact ⟨nofun, nofun, nofun⟩
  | body hbody _ => exact ⟨fun _ => hbody, nofun, nofun⟩
  | labelBlock h => obtain ⟨_, heq, hparts⟩ := h; cases heq; exact ⟨nofun, fun _ => hparts, nofun⟩
  | matcher h => cases h <;> exact ⟨nofun, nofun, nofun⟩
  | grouping h => obtain ⟨_, heq, hparts⟩ := h; cases heq; exact ⟨nofun, nofun, fun _ => hparts⟩
  | modifier h => obtain ⟨_, _, heq, -⟩ := h; cases heq; exact ⟨nofun, nofun, nofun⟩
  | matching h => obtain ⟨_, _, _, heq, -⟩ := h; cases heq; exact ⟨nofun, nofun, nofun⟩

/-- Call arguments without children are empty parentheses. -/
lemma hasEmptyParentheses_of_item (hw : Fragment clear w) (h : Stands query position [w])
    (hn : w.item position = .node n) (hkind : n.kind = .phrase .callBody)
    (hchildren : n.children = []) : n.HasEmptyParentheses query := by
  have htext := text_of_item h hn
  obtain ⟨parts, rfl⟩ := exists_parts_of_kind hn hkind
  obtain ⟨opening, inside, closing, rfl, ⟨l, rfl, hl⟩, hinside, ⟨r, rfl, hr⟩⟩ :=
    (enclosed_of_fragment hw).1 rfl
  obtain ⟨before, rest, -, -, hlaid⟩ := h
  have hnone : nodes (position + (lexeme l).text.length) inside = [] := by
    cases hn
    have happend : nodes position (lexeme l :: inside ++ [lexeme r]) = [] := hchildren
    rw [List.cons_append, nodes_cons, nodes_append] at happend
    exact (List.append_eq_nil_iff.1 (List.append_eq_nil_iff.1 happend).2).1
  obtain rfl := eq_nil_of_separated hinside hnone
  obtain ⟨⟨-, -, hleft⟩, -, ⟨hgap, -, hright⟩, -⟩ := laid_phrase.1 hlaid
  rw [hl] at hleft
  rw [hr] at hright
  refine ⟨r.gap, hgap, ?_⟩
  rw [htext]
  simp [bare, beq_iff_eq.1 hleft, beq_iff_eq.1 hright]

/-- What is inside an expression stands for nodes as the reader leaves them. -/
theorem isRead_of_within (he : Grammatical clear e) (hw : Within w e)
    (h : Stands query position [w]) (hn : w.item position = .node n) : n.IsRead query :=
  ⟨(formed_of_grammatical he w hw).1 position n hn, fun _ => spells_of_item h hn,
    hasEmptyParentheses_of_item (fragment_of_within he hw) h hn⟩

end Written

end PromqlGuide
