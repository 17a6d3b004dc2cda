import PromqlGuide.Proofs.Token.Recased
import PromqlGuide.Proofs.Tree.Tokens
import PromqlGuide.Proofs.Written.Similar

/-!
# Queries in another letter case

Keywords and numbers may be written in any letter case.  If the letter case of a query is changed in
such tokens only, then the new query is written as a tree of the same shape, with the same gaps and
with lexemes in another letter case (`Written.Writes.exists_recased`).  So it stands for the same
syntax tree.
-/
namespace PromqlGuide

open Text Written

/-! ### Lexemes -/

namespace Lexical

/-- Whether the lexemes of a kind are written with keywords and numbers only. -/
def isCaseless : Lexical → Bool
  | token t => t.isCaseless
  | mark _ => false

/-- A recased text is a lexeme of the same kind, unless it is a duration. -/
lemma spells_of_recased {x : Lexical} (hx : x ≠ .token .duration) (hused : x.isUsed = true)
    {v w : List Char} (h : Text.Recased v w) : x.spells v = x.spells w := by
  cases x with
  | token t => exact Terminal.spells_of_recased (fun ht => hx (ht ▸ rfl)) h
  | mark c =>
    have signs : ∀ c ∈ marks, c.isAlpha = false := by decide
    have hc := signs c (of_decide_eq_true hused)
    rw [spells, spells, Bool.eq_iff_iff, beq_iff_eq, beq_iff_eq]
    exact h.eq_iff (by simpa using hc)

/-- A recased lexeme runs into what follows it exactly if the lexeme does. -/
lemma stopsAt_of_recased (x : Lexical) {v w rest rest' : List Char} (h : Text.Recased v w)
    (hrest : Text.Recased rest rest') : x.stopsAt v rest = x.stopsAt w rest' := by
  cases x with
  | token t => exact Terminal.stopsAt_of_recased t h hrest
  | mark c => rfl

end Lexical

namespace Lexeme

/-- Whether two lexemes are the same but for letter case, and the same if letter case may count. -/
structure Recased (l l' : Lexeme) : Prop where
  kind : l'.kind = l.kind
  gap : l'.gap = l.gap
  text : Text.Recased l.text l'.text
  fixed : l.kind.isCaseless = false → l'.text = l.text

variable {l l' : Lexeme} {ls ms : List Lexeme} {tail : List Char}

/-- The grammar does not look at letter case. -/
lemma Recased.similar (h : l.Recased l') : l.toWord.Similar l'.toWord where
  kind := h.kind
  readsAs := fun _ hused hx => (Lexical.spells_of_recased hx hused h.text).symm
  number := (Number.readsAnyCase_tokenLength _ _ h.text).symm

/-- A recased lexeme is a lexeme. -/
lemma Recased.proper (h : l.Recased l') (hl : l.Proper) : l'.Proper := by
  obtain ⟨hgap, hused, hspells⟩ := hl
  refine ⟨h.gap ▸ hgap, h.kind ▸ hused, ?_⟩
  rw [h.kind]
  by_cases hduration : l.kind = .token .duration
  · rw [h.fixed (by rw [hduration]; rfl)]
    exact hspells
  · rw [← Lexical.spells_of_recased hduration hused h.text]
    exact hspells

/-- Recased lexemes write recased texts. -/
lemma recased_writtenAll (h : List.Forall₂ Recased ls ms) :
    Text.Recased (writtenAll ls) (writtenAll ms) := by
  induction h with
  | nil => exact .nil
  | cons hl _ ih =>
    rw [writtenAll_cons, writtenAll_cons, hl.gap]
    exact Text.Recased.rfl.append (hl.text.append ih)

/-- Lexemes stay laid out in another letter case. -/
lemma laidOut_recased (h : List.Forall₂ Recased ls ms) (hlaid : LaidOut ls tail) :
    LaidOut ms tail := by
  induction h with
  | nil => trivial
  | @cons l l' ls ms hl h ih =>
    obtain ⟨hproper, hstops, hmore⟩ := hlaid
    refine ⟨hl.proper hproper, ?_, ih hmore⟩
    rw [hl.kind, ← Lexical.stopsAt_of_recased l.kind hl.text
      ((recased_writtenAll h).append Text.Recased.rfl)]
    exact hstops

end Lexeme

/-! ### Dividing a query -/

/-- Whether a node is a token that is written with keywords and numbers only. -/
def Node.isCaseless (n : Node) : Bool :=
  match n.kind with
  | .leaf t => t.isCaseless
  | _ => false

/-- Whether a place is inside of a token among some nodes that is written with keywords and numbers
only. -/
def InCaseless (ns : List Node) (place : Nat) : Prop :=
  ∃ n ∈ ns, n.isCaseless = true ∧ n.start ≤ place ∧ place < n.stop

instance (ns : List Node) (place : Nat) : Decidable (InCaseless ns place) :=
  inferInstanceAs (Decidable (∃ n ∈ ns, _))

/-- Whether a query is another one after changes of letter case, which are all inside tokens of a
tree that are written with keywords and numbers only. -/
def Node.Recases (root : Node) (query query' : List Char) : Prop :=
  Text.Recased query query' ∧ ∀ i, query[i]? ≠ query'[i]? → InCaseless root.preorder i

namespace Written

/-- No node starts in front of the place from which the trees are written. -/
lemma start_of_mem_nodes {n : Node} {ws : List Written} {position : Nat}
    (h : n ∈ nodes position ws) : position ≤ n.start := by
  obtain ⟨i, hi, hn⟩ := List.mem_filterMap.1 h
  cases i with
  | mark => cases hn
  | node m =>
    cases hn
    exact (range_of_mem_items hi).1

/-- A place in a token of lexemes is in the first one, or in a later one. -/
lemma inCaseless_cons {l : Lexeme} {ls : List Lexeme} {position place : Nat}
    (h : InCaseless (nodes position (leaves (l :: ls))) place) :
    (l.kind.isCaseless = true ∧ position + l.gap.length ≤ place ∧
        place < position + l.gap.length + l.text.length) ∨
      (position + l.gap.length + l.text.length ≤ place ∧
        InCaseless (nodes (position + l.gap.length + l.text.length) (leaves ls)) place) := by
  obtain ⟨n, hn, hcaseless, hstart, hstop⟩ := h
  have hcons : leaves (l :: ls) = lexeme l :: leaves ls := rfl
  have later : n ∈ nodes (position + l.gap.length + l.text.length) (leaves ls) →
      position + l.gap.length + l.text.length ≤ place ∧
        InCaseless (nodes (position + l.gap.length + l.text.length) (leaves ls))
          place := fun hmem =>
    ⟨Nat.le_trans (start_of_mem_nodes hmem) hstart, n, hmem, hcaseless, hstart, hstop⟩
  rw [hcons] at hn
  cases hkind : l.kind with
  | mark c =>
    rw [nodes_mark hkind] at hn
    exact Or.inr (later hn)
  | token t =>
    rw [nodes_token hkind] at hn
    rcases List.mem_cons.1 hn with rfl | hn
    · exact Or.inl ⟨hcaseless, hstart, hstop⟩
    · exact Or.inr (later hn)

/-- Recased texts are equal if they are equal at each place. -/
lemma eq_of_recased {cs ds : List Char} (h : Text.Recased cs ds)
    (hplaces : ∀ i < cs.length, ¬ cs[i]? ≠ ds[i]?) : cs = ds := by
  refine List.ext_getElem? fun i => ?_
  by_cases hi : i < cs.length
  · exact not_not.1 (hplaces i hi)
  · rw [List.getElem?_eq_none (Nat.le_of_not_lt hi),
      List.getElem?_eq_none (h.length_eq ▸ Nat.le_of_not_lt hi)]

section

variable {as as' bs bs' : List Char} {i : Nat}

/-- A difference between the front parts is one between the whole texts. -/
lemma ne_append_left (hlength : as.length = as'.length) (hi : i < as.length)
    (h : as[i]? ≠ as'[i]?) :
    (as ++ bs)[i]? ≠ (as' ++ bs')[i]? := by
  rwa [List.getElem?_append_left hi, List.getElem?_append_left (hlength ▸ hi)]

/-- A difference between the back parts is one between the whole texts. -/
lemma ne_append_right (hlength : as.length = as'.length) (h : bs[i]? ≠ bs'[i]?) :
    (as ++ bs)[as.length + i]? ≠ (as' ++ bs')[as.length + i]? := by
  rwa [List.getElem?_append_right (Nat.le_add_right _ _), Nat.add_sub_cancel_left, hlength,
    List.getElem?_append_right (Nat.le_add_right _ _), Nat.add_sub_cancel_left]

end

/-- Lexemes in front of a text are found again when the letter case of their tokens changes. -/
lemma exists_recased {ls : List Lexeme} {tail query' : List Char} {position : Nat}
    (h : Text.Recased (Lexeme.writtenAll ls ++ tail) query')
    (hinside : ∀ i, (Lexeme.writtenAll ls ++ tail)[i]? ≠ query'[i]? →
      InCaseless (nodes position (leaves ls)) (position + i)) :
    ∃ ms, List.Forall₂ Lexeme.Recased ls ms ∧ query' = Lexeme.writtenAll ms ++ tail := by
  induction ls generalizing query' position with
  | nil =>
    have hsame := eq_of_recased h fun i _ hne => by
      obtain ⟨n, hn, -⟩ := hinside i hne
      cases hn
    exact ⟨[], .nil, hsame.symm⟩
  | cons l ls ih =>
    rw [Lexeme.writtenAll_cons, List.append_assoc, List.append_assoc] at h hinside
    obtain ⟨gap, query', rfl, hgap, h⟩ := exists_of_forall₂_append h
    obtain ⟨text, query', rfl, htext, hmore⟩ := exists_of_forall₂_append h
    have hgaps : l.gap.length = gap.length := List.Forall₂.length_eq hgap
    have htexts : l.text.length = text.length := List.Forall₂.length_eq htext
    -- In the gap there is no token, and in the text there is no other one.
    obtain rfl : l.gap = gap := by
      refine eq_of_recased hgap fun i hi hne => ?_
      rcases inCaseless_cons (hinside i (ne_append_left hgaps hi hne)) with ⟨-, hstart, -⟩ |
        ⟨hstart, -⟩ <;>
        omega
    have hfixed : l.kind.isCaseless = false → text = l.text := by
      intro hcaseless
      refine (eq_of_recased htext fun i hi hne => ?_).symm
      have hplace := hinside _ (ne_append_right rfl (ne_append_left htexts hi hne))
      rcases inCaseless_cons hplace with ⟨hyes, -, -⟩ | ⟨hstart, -⟩
      · simp [hcaseless] at hyes
      · omega
    have hlater : ∀ i, (Lexeme.writtenAll ls ++ tail)[i]? ≠ query'[i]? → InCaseless
        (nodes (position + l.gap.length + l.text.length) (leaves ls))
        (position + l.gap.length + l.text.length + i) := by
      intro i hne
      have hplace := hinside _ (ne_append_right rfl (ne_append_right htexts hne))
      rcases inCaseless_cons hplace with ⟨-, -, hstop⟩ | ⟨-, hplace⟩
      · omega
      · simpa only [Nat.add_assoc] using hplace
    obtain ⟨ms, hms, rfl⟩ := ih hmore hlater
    exact ⟨⟨⟨l.kind, text⟩, l.gap⟩ :: ms, .cons ⟨rfl, rfl, htext, hfixed⟩ hms, by simp⟩

variable {depth : Nat} {e : Written} {n : Node} {query query' : List Char}

/-- A token of a tree that is written with keywords and numbers only is one of its lexemes. -/
lemma mem_nodes_of_isCaseless {m : Node} (he : e.Writes depth query) (hn : e.item 0 = .node n)
    (hm : m ∈ n.preorder) (hcaseless : m.isCaseless = true) :
    m ∈ nodes 0 (leaves e.lexemes) := by
  obtain ⟨w, place, -, -, hitem⟩ := exists_within_of_mem_preorder (Query.stands_of_writes he) hn hm
  have hitems := tokens_item (formed_of_grammatical he.grammatical) 0
  rw [hn] at hitems
  have htokens : n.tokens = nodes 0 (leaves e.lexemes) := by simpa [Item.node?] using hitems
  rw [← htokens]
  refine List.mem_filter.2 ⟨hm, ?_⟩
  cases w with
  | lexeme l =>
    obtain ⟨t, -, hkind⟩ := exists_token_of_kind (kind_of_item hitem)
    exact Node.isToken_leaf hkind (children_of_lexeme hitem)
  | phrase p parts =>
    have hkind : m.kind = .phrase p := (Option.some.inj (kind_of_item hitem)).symm
    simp [Node.isCaseless, hkind] at hcaseless

/-- In another letter case a query is written as a tree with lexemes in another letter case. -/
theorem Writes.exists_recased (he : e.Writes depth query) (hn : e.item 0 = .node n)
    (h : Text.Recased query query') (hinside : ∀ i, query[i]? ≠ query'[i]? →
      InCaseless n.preorder i) :
    ∃ e', Matched Lexeme.Recased e e' ∧ e'.Writes depth query' := by
  obtain ⟨tail, htail, hlaid, hquery⟩ := he.laidOut
  have hwritten : query = Lexeme.writtenAll e.lexemes ++ tail := hquery
  have hlexemes : Lexeme.LaidOut e.lexemes tail := by simpa [Laid, lexemesAll] using hlaid
  subst hwritten
  have hplaces : ∀ i, (Lexeme.writtenAll e.lexemes ++ tail)[i]? ≠ query'[i]? →
      InCaseless (nodes 0 (leaves e.lexemes)) (0 + i) := by
    intro i hne
    obtain ⟨m, hm, hcaseless, hrange⟩ := hinside i hne
    rw [Nat.zero_add]
    exact ⟨m, mem_nodes_of_isCaseless he hn hm hcaseless, hcaseless, hrange⟩
  obtain ⟨ms, hms, rfl⟩ := Written.exists_recased h hplaces
  obtain ⟨e', hmatched, rfl⟩ := exists_matched e hms
  have hsimilar : Similar e e' := hmatched.mono fun _ _ => Lexeme.Recased.similar
  refine ⟨e', hmatched, hsimilar.grammatical he.grammatical, ?_, tail, htail, ?_, rfl⟩
  · rw [hsimilar.nesting]
    exact he.nesting_lt
  · simpa [Laid, lexemesAll] using Lexeme.laidOut_recased hms hlexemes

/-- The same syntax tree is read from it. -/
lemma item_of_recased {e' : Written} (h : Matched Lexeme.Recased e e') (position : Nat) :
    e'.item position = e.item position :=
  h.item_eq (fun _ _ hl => ⟨hl.kind, congrArg List.length hl.gap, hl.text.length_eq.symm⟩) position

end Written

end PromqlGuide
