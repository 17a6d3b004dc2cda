import PromqlGuide.Proofs.Expr.Congruence
import PromqlGuide.Proofs.Tree.Shape
import PromqlGuide.Proofs.Written.Alike

/-!
# Expressions of written trees

Matched trees stand for pairs of nodes (`Written.paired_of_matched`), whose texts correspond as the
lexemes do.  In particular a written tree stands for twins wherever it is written, and so do trees
that differ in their gaps.  So the expression that a query stands for does not depend on where its
tree stands, nor, but for the texts in it, on the gaps.
-/
namespace PromqlGuide.Written

variable {S : Lexeme → Lexeme → Prop} {A : Kind → List Char → List Char → Prop}
  {f : String → String} {query query' : List Char}

/-- Without the gap in front of it a lexeme is its own text. -/
lemma text_bare_lexeme (l : Lexeme) : (bare (.lexeme l)).text = l.text := by
  simp [bare]

/-- What is read for a phrase is a node that holds the nodes of its parts. -/
lemma exists_node_phrase {place : Nat} {p : Phrase} {parts : List Written}
    (hstands : Stands query place [phrase p parts]) :
    ∃ m, (phrase p parts).item place = .node m ∧ m.kind = .phrase p ∧
      m.children = nodes place parts ∧
      Expr.textOf query m = String.ofList (phrase p parts).bare.text := by
  obtain ⟨m, hm⟩ : ∃ m, (phrase p parts).item place = .node m := ⟨_, rfl⟩
  refine ⟨m, hm, ?_, ?_, congrArg String.ofList (text_of_item hstands hm)⟩
  all_goals
    cases hm
    rfl

/-- What is read for a token is a leaf with its text. -/
lemma exists_node_token {place : Nat} {l : Lexeme} {t : Terminal} {cs : List Char}
    (h : l.toWord = ⟨.token t, cs⟩) (hstands : Stands query place [lexeme l]) :
    ∃ m, (lexeme l).item place = .node m ∧ m.kind = .leaf t ∧ m.children = [] ∧
      m.text query = cs := by
  have hkind : l.kind = .token t := congrArg Word.kind h
  obtain ⟨m, hm, hmkind⟩ := exists_item_of_kind (kind_of_token ⟨l, rfl, hkind⟩) place
  refine ⟨m, hm, hmkind, children_of_lexeme hm, ?_⟩
  rw [text_of_item hstands hm, text_bare_lexeme]
  exact congrArg Word.text h

/-- A quoted name is a string and nothing else. -/
lemma Formed.quotedName {parts : List Written} (h : Formed (.phrase .quotedName parts)) :
    ∃ l : Lexeme, parts = [.lexeme l] ∧ l.kind = .token .string := by
  obtain ⟨hshape, hname⟩ := h _ .refl
  obtain ⟨l, rfl⟩ := hname parts rfl
  have hkinds : (nodes 0 [.lexeme l]).map Node.kind = [.leaf .string] := hshape 0 _ rfl
  rw [kinds_nodes] at hkinds
  cases hkind : (lexeme l).kind? with
  | none => simp [hkind] at hkinds
  | some k =>
    obtain ⟨t, ht, rfl⟩ := exists_token_of_kind hkind
    simp only [List.filterMap_cons, hkind, List.filterMap_nil, List.cons.injEq, Kind.leaf.injEq,
      and_true] at hkinds
    exact ⟨l, rfl, hkinds ▸ ht⟩

/-- Matched trees are of the same kind. -/
lemma kind_of_matched (hS : ∀ l l', S l l' → l'.kind = l.kind) {w v : Written} (h : Matched S w v) :
    v.kind? = w.kind? := by
  cases h with
  | lexeme hl => simp only [kind?, hS _ _ hl]
  | phrase => rfl

/-- What holds of the nodes of matched trees holds of those of matched lists. -/
lemma forall₂_nodes (hS : ∀ l l', S l l' → l'.kind = l.kind) {R : Node → Node → Prop}
    {ws vs : List Written} {position position' : Nat} (h : List.Forall₂ (Matched S) ws vs)
    (hws : Stands query position ws) (hvs : Stands query' position' vs)
    (hR : ∀ w ∈ ws, ∀ v, Matched S w v → ∀ place place' n n', Stands query place [w] →
      Stands query' place' [v] → w.item place = .node n → v.item place' = .node n' → R n n') :
    List.Forall₂ R (nodes position ws) (nodes position' vs) := by
  induction h generalizing position position' with
  | nil => exact .nil
  | @cons w v ws vs hwv _ ih =>
    obtain ⟨hw, hws⟩ := stands_cons hws
    obtain ⟨hv, hvs⟩ := stands_cons hvs
    have hkind := kind_of_matched hS hwv
    rw [nodes_cons, nodes_cons]
    refine List.rel_append ?_ (ih hws hvs fun u hu => hR u (List.mem_cons_of_mem w hu))
    cases hk : w.kind? with
    | none =>
      rw [node?_item_eq_none hk, node?_item_eq_none (hkind.trans hk)]
      exact .nil
    | some k =>
      obtain ⟨n, hn, -⟩ := exists_item_of_kind hk position
      obtain ⟨n', hn', -⟩ := exists_item_of_kind (hkind.trans hk) position'
      rw [hn, hn']
      exact .cons (hR w List.mem_cons_self v hwv _ _ n n' hw hv hn hn') .nil

/-- Matched trees stand for pairs of nodes. -/
theorem paired_of_matched (hlexeme : ∀ l l', S l l' → l'.kind = l.kind ∧
      ∀ t, l.kind = .token t → A (.leaf t) l.text l'.text)
    (hphrase : ∀ p ws vs, Formed (.phrase p ws) → Matched S (.phrase p ws) (.phrase p vs) →
      A (.phrase p) (bare (.phrase p ws)).text (bare (.phrase p vs)).text)
    {w v : Written} {position position' : Nat} {n n' : Node} (h : Matched S w v)
      (hformed : Formed w)
    (hw : Stands query position [w]) (hv : Stands query' position' [v])
    (hn : w.item position = .node n) (hn' : v.item position' = .node n') :
    Node.Paired A query query' n n' := by
  have hkinds : ∀ l l', S l l' → l'.kind = l.kind := fun l l' hl => (hlexeme l l' hl).1
  induction w generalizing v position position' n n' with
  | lexeme l =>
    have hkind := kind_of_matched hkinds h
    rw [kind_of_item hn, kind_of_item hn'] at hkind
    cases h with
    | @lexeme _ l' hl =>
      obtain ⟨t, ht, hleaf⟩ := exists_token_of_kind (kind_of_item hn)
      refine .intro (Option.some.inj hkind).symm ?_ ?_
      · rw [text_of_item hw hn, text_of_item hv hn', text_bare_lexeme, text_bare_lexeme, hleaf]
        exact (hlexeme l l' hl).2 t ht
      · rw [children_of_lexeme hn, children_of_lexeme hn']
        exact .nil
  | phrase p parts ih =>
    have hmatched := h
    cases h with
    | phrase hparts =>
      have htexts := hphrase p _ _ hformed hmatched
      rw [← text_of_item hw hn, ← text_of_item hv hn'] at htexts
      cases hn
      cases hn'
      exact .intro rfl htexts
        (forall₂_nodes hkinds hparts (stands_phrase.1 hw) (stands_phrase.1 hv)
          fun u hu v hv _ _ _ _ => ih u hu hv fun x hx => hformed x (.part hu hx))

/-! ### Twins -/

/-- A quoted name without the gap in front of it is the text of its lexeme. -/
lemma text_quotedName {l : Lexeme} :
    (bare (.phrase .quotedName [.lexeme l])).text = l.text := by
  simp [bare]

/-- Trees with the same words stand for twins, if what becomes of the texts is the same. -/
lemma twin_of_matched (hS : ∀ l l', S l l' → l'.toWord = l.toWord)
    (hf : ∀ w v, Matched S w v → f (String.ofList w.bare.text) = f (String.ofList v.bare.text))
    {w v : Written} {position position' : Nat} {n n' : Node} (h : Matched S w v)
      (hformed : Formed w)
    (hw : Stands query position [w]) (hv : Stands query' position' [v])
    (hn : w.item position = .node n) (hn' : v.item position' = .node n') :
    Node.Twin f query query' n n' := by
  rw [Node.twin_iff_paired]
  refine paired_of_matched (fun l l' hl => ?_) (fun p ws vs hws hmatched => ⟨hf _ _ hmatched, ?_⟩) h
    hformed hw hv hn hn'
  · have htext : l'.text = l.text := congrArg Word.text (hS l l' hl)
    refine ⟨congrArg Word.kind (hS l l' hl), fun t _ => ⟨?_, fun _ => htext.symm⟩⟩
    rw [htext]
  · intro hspelled
    obtain rfl : p = .quotedName := beq_iff_eq.1 hspelled
    obtain ⟨l, rfl, -⟩ := hws.quotedName
    cases hmatched with
    | phrase hparts =>
      obtain ⟨name, rfl, hname⟩ := exists_of_forall₂_singleton hparts
      cases hname with
      | lexeme hl => rw [text_quotedName, text_quotedName, hS _ _ hl]

/-- A tree stands for twins wherever it is written. -/
lemma twin_of_stands {w : Written} {position position' : Nat} {n n' : Node} (hformed : Formed w)
    (hw : Stands query position [w]) (hv : Stands query' position' [w])
    (hn : w.item position = .node n) (hn' : w.item position' = .node n') :
    Node.Twin id query query' n n' := by
  refine twin_of_matched (S := Eq) (fun l l' hl => hl ▸ rfl) (fun u v h => ?_)
    (Matched.refl (fun _ => rfl) w) hformed hw hv hn hn'
  rw [Matched.eq h]

/-- Trees that differ in their gaps stand for twins, if the texts are forgotten. -/
lemma twin_of_alike {w v : Written} {position position' : Nat} {n n' : Node} (h : Alike w v)
    (hformed : Formed w) (hw : Stands query position [w]) (hv : Stands query' position' [v])
    (hn : w.item position = .node n) (hn' : v.item position' = .node n') :
    Node.Twin (fun _ => "") query query' n n' :=
  twin_of_matched (fun _ _ hl => hl) (fun _ _ _ => rfl) (Alike.iff_matched.1 h) hformed hw hv hn hn'

end PromqlGuide.Written
