import PromqlGuide.Proofs.Tree.Read
import PromqlGuide.Proofs.Tree.Tokens
import PromqlGuide.Proofs.Written.Comment

/-!
# Commas of lists

The commas that separate the items of a list leave no nodes: they are found in the text of the list,
outside of its children, of comments and of strings (`Node.IsSeparator`).  A visible character there
is a mark of the written list (`Written.exists_mark_of_apart`), so what stands in front of a comma
and behind it is seen in the grammar of the list.

Main statement: a comma between arguments has an argument on either side, and a comma between label
matchers or label names has one in front of it exactly if there is one at all
(`Node.separators_of_ofQuery`).
-/
namespace PromqlGuide

open Text Written ScanState

namespace Text

/-- Whether there is nothing but a gap between two positions. -/
def BlankBetween (query : List Char) (i j : Nat) : Prop := i ≤ j ∧ isGap (slice query i j) = true

instance (query : List Char) (i j : Nat) : Decidable (BlankBetween query i j) :=
  inferInstanceAs (Decidable (_ ∧ _))

/-- No visible character is in a gap in front of which the scanner stands outside, as it does in
front of the character. -/
lemma not_visible_in_gap {gap before more : List Char} {c : Char} (hgap : isGap gap = true)
    (hc : isSpace c = false ∧ c ≠ '#') (hscan : outside.scan before = outside)
    (heq : gap = before ++ c :: more) : False := by
  subst heq
  have hbefore := isGap_of_scan hgap hscan
  rw [isGap, isGap_append_left hbefore, isGap, closesBlank, if_neg (by simp [hc.1]),
    if_neg hc.2] at hgap
  cases hgap

end Text

namespace Node

/-- Whether a comma stands at a position of a node, outside of its children and where the scanner is
outside of comments and strings. -/
structure IsSeparator (query : List Char) (n : Node) (i : Nat) : Prop where
  start_le : n.start ≤ i
  lt_stop : i < n.stop
  comma : query[i]? = some ','
  apart : ∀ c ∈ n.children, i < c.start ∨ c.stop ≤ i
  scan : outside.scan (query.take i) = outside

end Node

namespace Written

variable {clear : List Written → List Word → Prop} {query : List Char} {w v : Written}
  {ws us vs parts : List Written} {position i : Nat} {l : Lexeme}

/-! ### Visible characters outside of nodes -/

/-- What stands in front of a tree is a gap. -/
lemma isGap_firstGap {rest : List Char} (h : Laid [w] rest) : isGap w.firstGap = true := by
  induction w generalizing rest with
  | lexeme l => exact h.1.1
  | phrase p parts ih =>
    cases parts with
    | nil => rfl
    | cons w ws => exact ih w List.mem_cons_self (laid_cons.1 (laid_phrase.1 h)).1

/-- Behind what is written, the scanner stands outside again. -/
lemma passesOn_scan (query : List Char) :
    PassesOn query fun place => outside.scan (query.take place) = outside := by
  rintro place ws ⟨before, rest, rfl, rfl, hlaid⟩ hscan
  have hproper := Lexeme.LaidOut.proper hlaid
  rw [List.take_left] at hscan
  rw [← List.append_assoc, ← List.length_append, List.take_left, scan_append, hscan]
  exact Lexeme.scan_writtenAll hproper

/-- A visible character is not in front of the first tree that it is behind, unless it is in a
comment. -/
lemma firstGap_le_of_visible {c : Char} (h : Stands query position [w])
    (hstart : outside.scan (query.take position) = outside) (hc : query[i]? = some c)
    (hvisible : isSpace c = false ∧ c ≠ '#') (hscan : outside.scan (query.take i) = outside)
    (hle : position ≤ i) : position + w.firstGap.length ≤ i := by
  by_contra hlt
  obtain ⟨before, rest, hquery, rfl, hlaid⟩ := h
  obtain ⟨k, rfl⟩ := Nat.exists_eq_add_of_le hle
  have hk : k < w.firstGap.length := by omega
  rw [textAll_cons, textAll_nil, List.append_nil, text_eq_append_bare, List.append_assoc] at hquery
  subst hquery
  rw [List.take_left] at hstart
  rw [List.take_length_add_append, scan_append, hstart,
    List.take_append_of_le_length (Nat.le_of_lt hk)] at hscan
  rw [List.getElem?_append_right (Nat.le_add_right _ _), Nat.add_sub_cancel_left,
    List.getElem?_append_left hk, List.getElem?_eq_some_iff] at hc
  obtain ⟨hk', rfl⟩ := hc
  -- the gap would go on with the character
  have hdivided := (List.take_append_drop k w.firstGap).symm
  rw [List.drop_eq_getElem_cons hk] at hdivided
  exact not_visible_in_gap (isGap_firstGap hlaid) hvisible hscan hdivided

/-- A mark stands for the lexeme that it is. -/
lemma kind_of_item_mark {m : Char} {start stop : Nat}
    (h : (lexeme l).item position = .mark m start stop) : l.kind = .mark m := by
  simp only [item, leaf] at h
  split at h
  · cases h
  · next heq =>
    cases h
    exact heq

/-- Right behind the gap of a mark is the mark itself. -/
lemma eq_of_mark {m : Char} (h : Stands query position [lexeme l]) (hl : l.kind = .mark m) :
    l.text = [m] ∧ query[position + l.gap.length]? = some m := by
  obtain ⟨before, rest, rfl, rfl, hproper, -⟩ := h
  obtain ⟨-, htext⟩ := hproper.mark hl
  have hquery : before ++ (textAll [lexeme l] ++ rest) = (before ++ l.gap) ++ m :: rest := by
    simp [htext]
  refine ⟨htext, ?_⟩
  rw [hquery, ← List.length_append, List.getElem?_append_right (Nat.le_refl _), Nat.sub_self]
  rfl

/-- A visible character outside of nodes and comments is a mark. -/
lemma exists_mark_of_apart {c : Char} (h : Stands query position ws)
    (hstart : outside.scan (query.take position) = outside) (hc : query[i]? = some c)
    (hvisible : isSpace c = false ∧ c ≠ '#') (hscan : outside.scan (query.take i) = outside)
    (hle : position ≤ i) (hlt : i < position + (textAll ws).length)
    (hapart : ∀ n ∈ nodes position ws, i < n.start ∨ n.stop ≤ i) :
    ∃ us l vs, ws = us ++ lexeme l :: vs ∧ l.kind = .mark c ∧
      i = position + (textAll us).length + l.gap.length := by
  induction ws generalizing position with
  | nil => exact absurd hle (Nat.not_le.2 hlt)
  | cons w ws ih =>
    obtain ⟨hfirst, hmore⟩ := stands_cons h
    by_cases hin : i < position + w.text.length
    · have hgap := firstGap_le_of_visible hfirst hstart hc hvisible hscan hle
      cases hitem : w.item position with
      | node n =>
        -- the character would be inside a node
        have hn := hapart n (by rw [nodes_cons, hitem]; exact List.mem_cons_self)
        have hnstart := start_item w position
        have hnstop := stop_item w position
        rw [hitem] at hnstart hnstop
        simp only [Item.start, Item.stop] at hnstart hnstop
        omega
      | mark m start stop =>
        cases w with
        | phrase p parts => cases hitem
        | lexeme l =>
          have hl := kind_of_item_mark hitem
          obtain ⟨htext, hm⟩ := eq_of_mark hfirst hl
          rw [text_lexeme, List.length_append, htext, List.length_singleton] at hin
          obtain rfl : i = position + l.gap.length := Nat.le_antisymm (by omega) hgap
          obtain rfl : m = c := Option.some.inj (hm.symm.trans hc)
          exact ⟨[], l, ws, rfl, hl, rfl⟩
    · have hbehind := passesOn_scan query position [w] hfirst hstart
      rw [textAll_cons, List.length_append, ← Nat.add_assoc] at hlt
      simp only [textAll_cons, textAll_nil, List.append_nil] at hbehind
      obtain ⟨us, l, vs, rfl, hl, hi⟩ := ih hmore hbehind (Nat.not_lt.1 hin) hlt fun n hn =>
        hapart n (by rw [nodes_cons]; exact List.mem_append_right _ hn)
      refine ⟨w :: us, l, vs, rfl, hl, ?_⟩
      rw [hi, textAll_cons, List.length_append]
      omega

/-! ### Commas in the grammar -/

section Commas

variable {P : Written → Prop} {opening closing : Written} {left right : Char}

/-- A mark of another kind is no comma. -/
lemma ne_of_mark {m : Char} (hw : Of (.mark m) w) (hl : l.kind = .mark ',') (hm : m ≠ ',') :
    w ≠ lexeme l := by
  rintro rfl
  obtain ⟨l', heq, hl'⟩ := hw
  cases heq
  rw [hl] at hl'
  cases hl'
  exact hm rfl

/-- A label matcher stands for a node. -/
lemma isNode_of_matcher (hw : IsMatcher w) : w.isNode = true := by cases hw <;> rfl

/-- What stands for a node is no comma. -/
lemma ne_of_isNode (hw : w.isNode = true) (hl : l.kind = .mark ',') : w ≠ lexeme l := by
  rintro rfl
  simp [isNode, hl] at hw

/-- What is divided at a tree that is not the first one is divided behind the first one. -/
lemma divided_tail (hopening : opening ≠ lexeme l) (heq : opening :: ws = us ++ lexeme l :: vs) :
    ∃ us', us = opening :: us' ∧ ws = us' ++ lexeme l :: vs := by
  cases us with
  | nil => exact absurd (List.cons.inj heq).1 hopening
  | cons u us =>
    obtain ⟨rfl, hws⟩ := List.cons.inj heq
    exact ⟨us, rfl, hws⟩

/-- What is divided at a tree is divided at the last one or in front of it. -/
lemma divided_front (heq : ws ++ [closing] = us ++ lexeme l :: vs) :
    (closing = lexeme l ∧ us = ws ∧ vs = []) ∨
      ∃ vs', vs = vs' ++ [closing] ∧ ws = us ++ lexeme l :: vs' := by
  rcases List.eq_nil_or_concat vs with rfl | ⟨vs', v, rfl⟩
  · obtain ⟨hws, hlast⟩ := List.append_inj' heq rfl
    exact Or.inl ⟨(List.cons.inj hlast).1, hws.symm, rfl⟩
  · have hdivided : ws ++ [closing] = (us ++ lexeme l :: vs') ++ [v] := by simpa using heq
    obtain ⟨hws, hv⟩ := List.append_inj' hdivided rfl
    exact Or.inr ⟨vs', by rw [hv]; simp, hws⟩

/-- Between items, a comma has an item on either side. -/
lemma Separated.exists_around (h : Separated P ws) (hP : ∀ w ∈ ws, P w → w ≠ lexeme l)
    (heq : ws = us ++ lexeme l :: vs) :
    ∃ us' w v vs', us = us' ++ [w] ∧ vs = v :: vs' ∧ P w ∧ P v := by
  have hhead : ∀ {v : Written} {ws : List Written}, Separated P (v :: ws) → P v := by
    intro v ws hv
    cases hv <;> assumption
  induction h generalizing us with
  | nil => cases us <;> cases heq
  | one hw =>
    obtain ⟨us', rfl, hnil⟩ := divided_tail (hP _ (by simp) hw) heq
    cases us' <;> cases hnil
  | @cons w comma v ws hw hcomma hmore ih =>
    obtain ⟨us', rfl, hrest⟩ := divided_tail (hP _ (by simp) hw) heq
    cases us' with
    | nil =>
      obtain ⟨-, rfl⟩ := List.cons.inj hrest
      exact ⟨[], w, v, ws, rfl, rfl, hw, hhead hmore⟩
    | cons u us' =>
      obtain ⟨rfl, hbehind⟩ := List.cons.inj hrest
      obtain ⟨us'', w', v', vs', rfl, rfl, hw', hv'⟩ :=
        ih (fun u hu => hP u (List.mem_cons_of_mem _ (List.mem_cons_of_mem _ hu))) hbehind
      exact ⟨w :: comma :: us'', w', v', vs', rfl, rfl, hw', hv'⟩

/-- A list that is not empty ends with an entry. -/
lemma Separated.exists_last (h : Separated P ws) (hne : ws ≠ []) :
    ∃ us w, ws = us ++ [w] ∧ P w := by
  induction h with
  | nil => exact absurd rfl hne
  | one hw => exact ⟨[], _, rfl, hw⟩
  | cons _ _ _ ih =>
    obtain ⟨us, w, hws, hw⟩ := ih (List.cons_ne_nil _ _)
    exact ⟨_ :: _ :: us, w, by rw [hws]; rfl, hw⟩

/-- A comma between marks that belong together has an item on either side. -/
lemma exists_around_of_comma (h : Enclosed left right (fun w => w.isNode = true) parts)
    (hleft : left ≠ ',') (hright : right ≠ ',') (hl : l.kind = .mark ',')
    (heq : parts = us ++ lexeme l :: vs) :
    ∃ us' w v vs', us = us' ++ [w] ∧ vs = v :: vs' ∧ w.isNode = true ∧ v.isNode = true := by
  obtain ⟨opening, inside, closing, rfl, hopening, hinside, hclosing⟩ := h
  obtain ⟨us', rfl, hrest⟩ := divided_tail (ne_of_mark hopening hl hleft) heq
  obtain ⟨vs', rfl, rfl⟩ :=
    (divided_front hrest).resolve_left fun h => ne_of_mark hclosing hl hright h.1
  obtain ⟨us'', w, v, vs'', rfl, rfl, hw, hv⟩ :=
    hinside.exists_around (fun w _ hw => ne_of_isNode hw hl) rfl
  exact ⟨opening :: us'', w, v, vs'' ++ [closing], rfl, rfl, hw, hv⟩

/-- A comma between marks where a comma may stand behind the last item has an item in front of it,
or else it is alone. -/
lemma exists_before_of_comma (h : EnclosedLoosely left right (fun w => w.isNode = true) parts)
    (hleft : left ≠ ',') (hright : right ≠ ',') (hl : l.kind = .mark ',')
    (heq : parts = us ++ lexeme l :: vs) :
    (∃ us' w, us = us' ++ [w] ∧ w.isNode = true) ∨
      ∃ opening closing, us = [opening] ∧ vs = [closing] ∧ Of (.mark left) opening ∧
        Of (.mark right) closing := by
  obtain ⟨opening, inside, comma, closing, rfl, hopening, hinside, hcomma, hclosing⟩ := h
  obtain ⟨us', rfl, hrest⟩ := divided_tail (ne_of_mark hopening hl hleft) heq
  obtain ⟨vs', rfl, hlist⟩ :=
    (divided_front hrest).resolve_left fun h => ne_of_mark hclosing hl hright h.1
  -- the comma is one between items, or the one that may stand behind the last of them
  have hbetween : ∀ {vs}, inside = us' ++ lexeme l :: vs →
      ∃ us'' w, opening :: us' = us'' ++ [w] ∧ w.isNode = true := by
    intro vs hvs
    obtain ⟨us'', w, -, -, rfl, -, hw, -⟩ :=
      hinside.exists_around (fun w _ hw => ne_of_isNode hw hl) hvs
    exact ⟨opening :: us'', w, rfl, hw⟩
  rcases hcomma with rfl | ⟨k, rfl, hk⟩
  · exact Or.inl (hbetween (by simpa using hlist))
  · rcases divided_front hlist with ⟨-, rfl, rfl⟩ | ⟨vs'', -, hvs⟩
    · by_cases hnone : us' = []
      · subst hnone
        exact Or.inr ⟨opening, closing, rfl, rfl, hopening, hclosing⟩
      · obtain ⟨us'', w, rfl, hw⟩ := hinside.exists_last hnone
        exact Or.inl ⟨opening :: us'', w, rfl, hw⟩
    · exact Or.inl (hbetween hvs)

end Commas

/-! ### Text around a comma -/

/-- In front of the gap of a tree, there is nothing but a gap up to what is behind. -/
lemma blankBetween_append {before gap rest : List Char} (hgap : isGap gap = true) :
    BlankBetween (before ++ (gap ++ rest)) before.length (before.length + gap.length) :=
  ⟨Nat.le_add_right _ _, by rwa [slice_append]⟩

/-- Behind a place where a tree stands, there is nothing but a gap in front of its node. -/
lemma blankBetween_firstGap (h : Stands query position (w :: vs)) :
    BlankBetween query position (position + w.firstGap.length) := by
  obtain ⟨before, rest, rfl, rfl, hlaid⟩ := h
  rw [textAll_cons, text_eq_append_bare, List.append_assoc, List.append_assoc]
  exact blankBetween_append (isGap_firstGap (laid_cons.1 hlaid).1)

/-- What stands in front of a comma is a child, with nothing but a gap behind it. -/
lemma exists_child_before (h : Stands query position (us ++ [w] ++ lexeme l :: vs))
    (hw : w.isNode = true) (hi : i = position + (textAll (us ++ [w])).length + l.gap.length) :
    ∃ c, nodes position (us ++ [w]) = nodes position us ++ [c] ∧ BlankBetween query c.stop i := by
  obtain ⟨c, hc⟩ := exists_node_of_isNode hw (position + (textAll us).length)
  have hstop := stop_item w (position + (textAll us).length)
  rw [hc] at hstop
  have hbehind : c.stop = position + (textAll (us ++ [w])).length := by
    rw [textAll_append, textAll_cons, textAll_nil, List.append_nil,
      List.length_append, ← Nat.add_assoc]
    exact hstop
  refine ⟨c, ?_, ?_⟩
  · rw [nodes_append, nodes_cons, hc]
    rfl
  · rw [hi, hbehind]
    exact blankBetween_firstGap (stands_append h).2

/-- What stands behind a comma is a child, with nothing but a gap in front of it. -/
lemma exists_child_behind (h : Stands query position (v :: vs)) (hv : v.isNode = true) :
    ∃ d, nodes position (v :: vs) = d :: nodes (position + v.text.length) vs ∧
      BlankBetween query position d.start := by
  obtain ⟨d, hd⟩ := exists_node_of_isNode hv position
  have hstart := start_item v position
  rw [hd] at hstart
  refine ⟨d, ?_, ?_⟩
  · rw [nodes_cons, hd]
    rfl
  · rw [show d.start = position + v.firstGap.length from hstart]
    exact blankBetween_firstGap h

/-! ### Separators of a node -/

variable {p : Phrase} {n : Node}

/-- A separator is a comma among the parts of what is written for the node. -/
lemma exists_comma (h : Stands query position [.phrase p parts])
    (hstart : outside.scan (query.take position) = outside)
    (hn : (phrase p parts).item position = .node n) (hi : n.IsSeparator query i) :
    ∃ us l vs, parts = us ++ lexeme l :: vs ∧ l.kind = .mark ',' ∧
      i = position + (textAll us).length + l.gap.length ∧ Stands query (i + 1) vs := by
  have hnstart := start_item (phrase p parts) position
  have hnstop := stop_item (phrase p parts) position
  rw [hn] at hnstart hnstop
  simp only [Item.start, Item.stop, text_phrase] at hnstart hnstop
  have hle : position ≤ i := by
    have := hi.start_le
    omega
  have hlt : i < position + (textAll parts).length := hnstop ▸ hi.lt_stop
  have hapart : ∀ c ∈ nodes position parts, i < c.start ∨ c.stop ≤ i := by
    cases hn
    exact hi.apart
  have hparts := stands_phrase.1 h
  obtain ⟨us, l, vs, rfl, hl, rfl⟩ :=
    exists_mark_of_apart hparts hstart hi.comma (by decide) hi.scan hle hlt hapart
  refine ⟨us, l, vs, rfl, hl, rfl, ?_⟩
  obtain ⟨hcomma, hbehind⟩ := stands_cons (stands_append hparts).2
  obtain ⟨htext, -⟩ := eq_of_mark hcomma hl
  rwa [text_lexeme, List.length_append, htext, List.length_singleton, ← Nat.add_assoc] at hbehind

/-- A separator between arguments has an argument on either side. -/
lemma separator_of_body (hparts : Enclosed '(' ')' (fun w => w.isNode = true) parts)
    (h : Stands query position [.phrase p parts])
    (hstart : outside.scan (query.take position) = outside)
    (hn : (phrase p parts).item position = .node n) (hi : n.IsSeparator query i) :
    ∃ before c d after, n.children = before ++ c :: d :: after ∧ BlankBetween query c.stop i ∧
      BlankBetween query (i + 1) d.start := by
  obtain ⟨us, l, vs, rfl, hl, hplace, hbehind⟩ := exists_comma h hstart hn hi
  obtain ⟨us, w, v, vs, rfl, rfl, hw, hv⟩ :=
    exists_around_of_comma hparts (by decide) (by decide) hl rfl
  have hstands := stands_phrase.1 h
  obtain ⟨c, hc, hblank⟩ := exists_child_before hstands hw hplace
  obtain ⟨d, hd, hblank'⟩ := exists_child_behind hbehind hv
  refine ⟨nodes position us, c, d, nodes (i + 1 + v.text.length) vs, ?_, hblank, hblank'⟩
  obtain ⟨htext, -⟩ := eq_of_mark (stands_cons (stands_append hstands).2).1 hl
  have hnext : position + (textAll (us ++ [w])).length + l.gap.length + l.text.length = i + 1 := by
    rw [htext, List.length_singleton, hplace]
  cases hn
  show nodes position (us ++ [w] ++ lexeme l :: v :: vs) = _
  rw [nodes_append, nodes_mark hl, hnext, hc, hd]
  simp

/-- A separator in a list of labels or matchers has one of them in front of it, or else it is alone
in the list. -/
lemma separator_of_block {left right : Char}
    (hparts : EnclosedLoosely left right (fun w => w.isNode = true) parts) (hleft : left ≠ ',')
    (hright : right ≠ ',') (h : Stands query position [.phrase p parts])
    (hstart : outside.scan (query.take position) = outside)
    (hn : (phrase p parts).item position = .node n) (hi : n.IsSeparator query i) :
    (∃ c ∈ n.children, BlankBetween query c.stop i) ∨
      n.children = [] ∧ BlankBetween query (n.start + 1) i ∧
      BlankBetween query (i + 1) (n.stop - 1) := by
  obtain ⟨us, l, vs, rfl, hl, hplace, hbehind⟩ := exists_comma h hstart hn hi
  have hstands := stands_phrase.1 h
  rcases exists_before_of_comma hparts hleft hright hl rfl with
    ⟨us, w, rfl, hw⟩ | ⟨opening, closing, rfl, rfl, ⟨o, rfl, ho⟩, ⟨r, rfl, hr⟩⟩
  · obtain ⟨c, hc, hblank⟩ := exists_child_before hstands hw hplace
    refine Or.inl ⟨c, ?_, hblank⟩
    cases hn
    show c ∈ nodes position (us ++ [w] ++ lexeme l :: vs)
    rw [nodes_append, hc]
    simp
  · obtain ⟨hopening, -⟩ := eq_of_mark (stands_append hstands).1 ho
    obtain ⟨hclosing, -⟩ := eq_of_mark hbehind hr
    have hfront := blankBetween_firstGap (stands_append hstands).2
    have hback := blankBetween_firstGap hbehind
    have hnstart := start_item (phrase p ([lexeme o] ++ lexeme l :: [lexeme r])) position
    have hnstop := stop_item (phrase p ([lexeme o] ++ lexeme l :: [lexeme r])) position
    have hnone : nodes position ([lexeme o] ++ lexeme l :: [lexeme r]) = [] := by
      rw [List.singleton_append, nodes_mark ho, nodes_mark hl, nodes_mark hr]
      rfl
    obtain ⟨hcomma, -⟩ := eq_of_mark (stands_cons (stands_append hstands).2).1 hl
    rw [hn] at hnstart hnstop
    simp only [Item.start, Item.stop, firstGap, List.cons_append, List.nil_append, text_phrase,
      textAll_cons, textAll_nil, text_lexeme, List.length_append, hopening, hclosing, hcomma,
      List.length_singleton, List.append_nil] at hnstart hnstop hplace hfront hback
    refine Or.inr ⟨by cases hn; exact hnone, ?_, ?_⟩
    · rwa [hplace, hnstart, Nat.add_assoc position]
    · rwa [show n.stop - 1 = i + 1 + r.gap.length by omega]

end Written

namespace Node

variable {limits : Limits} {query : List Char} {root s : Node} {i : Nat}

/-- A phrase in the tree of an accepted query is what a fragment of an expression stands for, at a
place where the scanner is outside of comments and strings. -/
lemma exists_fragment {p : Phrase} (h : Node.ofQuery? limits query = some root)
    (haccepted : ∀ n ∈ root.preorder, n.isError = false) (hs : s ∈ root.preorder)
    (hkind : s.kind = .phrase p) :
    ∃ parts place, Fragment Clear (.phrase p parts) ∧ Stands query place [.phrase p parts] ∧
      outside.scan (query.take place) = outside ∧
      (Written.phrase p parts).item place = .node s := by
  obtain ⟨e, n, he, hn, hs⟩ := exists_writes_of_mem_preorder h haccepted hs (by simp [hkind])
  obtain ⟨w, place, hwithin, hstands, hscan, hitem⟩ :=
    exists_place_of_mem_preorder (passesOn_scan query) (Query.stands_of_writes he) rfl hn hs
  obtain ⟨parts, rfl⟩ := exists_parts_of_kind hitem hkind
  exact ⟨parts, place, fragment_of_within he.grammatical hwithin, hstands, hscan, hitem⟩

/-- Of the commas that separate the items of a list in an accepted query, one between arguments has
an argument on either side.  One in a list of label matchers or label names has an item in front of
it exactly if the list has items; in a list without any it stands alone. -/
theorem separators_of_ofQuery (h : Node.ofQuery? limits query = some root)
    (haccepted : ∀ n ∈ root.preorder, n.isError = false) (hs : s ∈ root.preorder)
    (hi : s.IsSeparator query i) :
    (s.kind = .phrase .callBody → ∃ before c d after, s.children = before ++ c :: d :: after ∧
      BlankBetween query c.stop i ∧ BlankBetween query (i + 1) d.start) ∧
    (s.kind = .phrase .labelMatchers ∨ s.kind = .phrase .groupingLabels →
      ((∃ c ∈ s.children, BlankBetween query c.stop i) ↔ s.children ≠ []) ∧
      (s.children = [] → BlankBetween query (s.start + 1) i ∧
        BlankBetween query (i + 1) (s.stop - 1))) := by
  constructor
  · intro hkind
    obtain ⟨parts, place, hfragment, hstands, hscan, hitem⟩ := exists_fragment h haccepted hs hkind
    exact separator_of_body ((enclosed_of_fragment hfragment).1 rfl) hstands hscan hitem hi
  · intro hkind
    -- A list in braces and one in parentheses differ in their marks and entries only.
    have hblock : (∃ c ∈ s.children, BlankBetween query c.stop i) ∨ s.children = [] ∧
        BlankBetween query (s.start + 1) i ∧ BlankBetween query (i + 1) (s.stop - 1) := by
      rcases hkind with hkind | hkind
      · obtain ⟨parts, place, hfragment, hstands, hscan, hitem⟩ :=
          exists_fragment h haccepted hs hkind
        have hparts := ((enclosed_of_fragment hfragment).2.1 rfl).mono fun _ => isNode_of_matcher
        exact separator_of_block hparts (by decide) (by decide) hstands hscan hitem hi
      · obtain ⟨parts, place, hfragment, hstands, hscan, hitem⟩ :=
          exists_fragment h haccepted hs hkind
        have hparts := ((enclosed_of_fragment hfragment).2.2 rfl).mono fun _ => isNode_of_token
        exact separator_of_block hparts (by decide) (by decide) hstands hscan hitem hi
    rcases hblock with ⟨c, hc, hblank⟩ | ⟨hnone, hfront, hback⟩
    · have hne := List.ne_nil_of_mem hc
      exact ⟨iff_of_true ⟨c, hc, hblank⟩ hne, fun hnone => absurd hnone hne⟩
    · exact ⟨iff_of_false (by simp [hnone]) (not_not.2 hnone), fun _ => ⟨hfront, hback⟩⟩

/-- The list of label matchers of the first argument, with a comma and nothing else in it. -/
def emptyBlock : Node := ⟨.phrase .labelMatchers, 3, 6, []⟩

/-- The list of label matchers of the second argument, with a comma in a comment and one behind
it. -/
def commentedBlock : Node :=
  ⟨.phrase .labelMatchers, 8, 19, [⟨.phrase .unquotedMatcher, 9, 14,
    [⟨.leaf .labelName, 9, 10, []⟩, ⟨.leaf .matchOperator, 10, 11, []⟩,
      ⟨.leaf .string, 11, 14, []⟩]⟩]⟩

/-- The arguments, which are selectors with these lists. -/
def commaBody : Node :=
  ⟨.phrase .callBody, 1, 20,
    [⟨.phrase .vectorSelector, 2, 6, [⟨.leaf .metricName, 2, 3, []⟩, emptyBlock]⟩,
      ⟨.phrase .vectorSelector, 7, 19, [⟨.leaf .metricName, 7, 8, []⟩, commentedBlock]⟩]⟩

/-- The tree of the call. -/
def commaCall : Node :=
  ⟨.root, 0, 20, [⟨.phrase .call, 0, 20, [⟨.leaf .functionName, 0, 1, []⟩, commaBody]⟩]⟩

/-- The text of the call. -/
def commaQuery : List Char :=
  ['f', '(', 'x', '\x7b', ',', '\x7d', ',', 'y', '\x7b', 'a', '=', '"', 'b', '"', '#', ',', '\n',
    ',', '\x7d', ')']

/-- The comma between the arguments has one on either side, the last one has a matcher in front of
it, and the first one nothing at all. -/
theorem separators_commaCall :
    Node.ofQuery? .usual commaQuery = some commaCall ∧
    (∀ n ∈ commaCall.preorder, n.isError = false) ∧
      (∃ before c d after, commaBody.children = before ++ c :: d :: after ∧
        BlankBetween commaQuery c.stop 6 ∧ BlankBetween commaQuery 7 d.start) ∧
      (∃ c ∈ commentedBlock.children, BlankBetween commaQuery c.stop 17) ∧
      (¬∃ c ∈ emptyBlock.children, BlankBetween commaQuery c.stop 4) ∧
      BlankBetween commaQuery 4 4 ∧ BlankBetween commaQuery 5 5 := by
  have hread : Node.ofQuery? .usual commaQuery = some commaCall := rfl
  have haccepted : ∀ n ∈ commaCall.preorder, n.isError = false := by decide
  have hbody : commaBody.IsSeparator commaQuery 6 :=
    ⟨by decide, by decide, rfl, by decide, by decide⟩
  have hcommented : commentedBlock.IsSeparator commaQuery 17 :=
    ⟨by decide, by decide, rfl, by decide, by decide⟩
  have hempty : emptyBlock.IsSeparator commaQuery 4 :=
    ⟨by decide, by decide, rfl, by decide, by decide⟩
  have hinside : ∀ k n, commaCall.preorder[k]? = some n → n ∈ commaCall.preorder :=
    fun _ _ => List.mem_of_getElem?
  obtain ⟨hiff, halone⟩ :=
    (separators_of_ofQuery hread haccepted (hinside 6 _ rfl) hempty).2 (Or.inl rfl)
  refine ⟨hread, haccepted, ?_, ?_, fun h => hiff.1 h rfl, halone rfl⟩
  · exact (separators_of_ofQuery hread haccepted (hinside 3 _ rfl) hbody).1 rfl
  · have hlast := (separators_of_ofQuery hread haccepted (hinside 9 _ rfl) hcommented).2
      (Or.inl rfl)
    exact hlast.1.2 (List.cons_ne_nil _ _)

end Node

end PromqlGuide
