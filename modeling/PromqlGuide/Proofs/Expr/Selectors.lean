import PromqlGuide.Proofs.Expr.Ranges
import PromqlGuide.Proofs.Expr.Written
import PromqlGuide.Proofs.Written.Selectors

/-!
# What written selectors stand for

The node of a selector has the name and the matchers that are written, one by one and in order
(`SelectorText.IsTree.exists_node`).  With a range behind it, it stands for a range selector with
the same name and matchers (`SelectorText.IsRangeTree.exists_node`).
-/
namespace PromqlGuide

open Text Written

variable {query : List Char} {place : Nat} {w : Written}

/-! ### Matchers -/

namespace MatcherText

variable {m : MatcherText} {ms : List MatcherText} {ws : List Written}

/-- Whether a node is read as a matcher. -/
def IsRead (query : List Char) (m : MatcherText) (c : Node) : Prop :=
  c.kind.isMatcher = true ∧ c.matcher? query = some m.matcher

/-- A name between quotes is read without them. -/
lemma exists_node_quotedName {q : QuotedText} {l : Lexeme} (h : l.toWord = q.word)
    (hstands : Stands query place [.phrase .quotedName [.lexeme l]]) :
    ∃ k, (Written.phrase .quotedName [.lexeme l]).item place = .node k ∧
      k.kind = .phrase .quotedName ∧ k.text query = q.text := by
  obtain ⟨k, hk, hkind, -, htext⟩ := exists_node_phrase hstands
  refine ⟨k, hk, hkind, (String.ofList_injective htext).trans ?_⟩
  have hl : l.text = q.text := congrArg Word.text h
  simpa [Written.bare] using hl

/-- The node of a matcher is read as it is written. -/
lemma IsTree.exists_node (h : m.IsTree w) (hstands : Stands query place [w]) :
    ∃ c, w.item place = .node c ∧ m.IsRead query c := by
  cases h with
  | @intro l o v hl ho hv =>
    obtain ⟨hlabel, hmore⟩ := stands_cons (stands_phrase.1 hstands)
    obtain ⟨hoperator, hvalue⟩ := stands_cons hmore
    obtain ⟨c, hc, hkind, hnodes, -⟩ := exists_node_phrase hstands
    obtain ⟨on, hon, hokind, -, hotext⟩ := exists_node_token ho hoperator
    obtain ⟨vn, hvn, hvkind, -, hvtext⟩ := exists_node_token hv hvalue
    have hchildren : ∀ k, (m.label.tree l).item place = .node k → c.children = [k, on, vn] := by
      intro k hk
      rw [hnodes, nodes_cons, nodes_cons, nodes_cons, hk, hon, hvn]
      rfl
    refine ⟨c, hc, ?_⟩
    cases hmlabel : m.label with
    | plain name proper =>
      rw [hmlabel] at hl hlabel hkind hchildren
      obtain ⟨k, hk, hkkind, -, hktext⟩ := exists_node_token hl hlabel
      refine ⟨hkind ▸ rfl, ?_⟩
      simp [Node.matcher?, Node.matcherName?, Node.child?, hchildren k hk, hkkind, hokind, hvkind,
        hktext, hotext, hvtext, matcher, hmlabel, LabelText.name, ofWritten_operator]
    | quoted q =>
      rw [hmlabel] at hl hlabel hkind hchildren
      obtain ⟨k, hk, hkkind, hktext⟩ := exists_node_quotedName hl hlabel
      refine ⟨hkind ▸ rfl, ?_⟩
      simp [Node.matcher?, Node.matcherName?, Node.child?, hchildren k hk, hkkind, hokind, hvkind,
        hktext, hotext, hvtext, matcher, hmlabel, LabelText.name, ofWritten_operator]

/-- The nodes of matchers are read as they are written, one by one. -/
lemma AreTrees.forall₂_nodes (h : AreTrees ms ws) (hstands : Stands query place ws) :
    List.Forall₂ (IsRead query) ms (Written.nodes place ws) := by
  induction h generalizing place with
  | nil => exact .nil
  | one hw =>
    obtain ⟨c, hc, hread⟩ := hw.exists_node hstands
    rw [nodes_cons, hc]
    exact .cons hread .nil
  | @cons m m' ms w comma ws hw hcomma _ ih =>
    obtain ⟨hfirst, hmore⟩ := stands_cons hstands
    obtain ⟨c, hc, hread⟩ := hw.exists_node hfirst
    rw [nodes_cons, hc, nodes_mark (congrArg Word.kind hcomma)]
    refine .cons hread ?_
    have hnext := ih (stands_cons hmore).2
    rwa [text_lexeme, List.length_append, ← Nat.add_assoc] at hnext

/-- Nodes that are read as matchers give these matchers, in order. -/
lemma filterMap_matcher {cs : List Node} (h : List.Forall₂ (IsRead query) ms cs) :
    (cs.filter fun c => c.kind.isMatcher).filterMap (fun c => c.matcher? query) =
      ms.map matcher := by
  induction h with
  | nil => rfl
  | cons hread _ ih => simp [hread.1, hread.2, ih]

end MatcherText

/-! ### Selectors -/

namespace SelectorText

variable {s : SelectorText} {d : DurationText}

/-- The matchers of a selector. -/
def written (s : SelectorText) : List Matcher := s.matchers.map MatcherText.matcher

/-- Marks stand for no nodes. -/
lemma nodes_marks {ls : List Lexeme} (h : ∀ l ∈ ls, ∃ c, l.kind = .mark c) (position : Nat) :
    Written.nodes position (ls.map .lexeme) = [] := by
  induction ls generalizing position with
  | nil => rfl
  | cons l ls ih =>
    rw [List.forall_mem_cons] at h
    obtain ⟨⟨c, hc⟩, hls⟩ := h
    rw [List.map_cons, nodes_mark hc, ih hls]

/-- The braces of a selector hold the nodes of the matchers, and nothing else. -/
lemma exists_node_block {ms : List MatcherText} {cs : List Lexeme} {opening closing : Lexeme}
    {ws : List Written} (hopening : opening.toWord = .ofMark '\x7b')
    (hws : MatcherText.AreTrees ms ws)
    (hcs : cs.map Lexeme.toWord = s.commaWords) (hclosing : closing.toWord = .ofMark '\x7d')
    (hstands : Stands query place
      [.phrase .labelMatchers (.lexeme opening :: ws ++ cs.map .lexeme ++ [.lexeme closing])]) :
    ∃ b, (Written.phrase .labelMatchers
        (.lexeme opening :: ws ++ cs.map .lexeme ++ [.lexeme closing])).item place = .node b ∧
      b.kind = .phrase .labelMatchers ∧ (b.matchers query).result =
        .ok (ms.map MatcherText.matcher) := by
  obtain ⟨b, hb, hkind, hnodes, -⟩ := exists_node_phrase hstands
  refine ⟨b, hb, hkind, congrArg Except.ok ?_⟩
  have hcomma : ∀ l ∈ cs, ∃ c, l.kind = .mark c := by
    intro l hl
    have hmem := hcs ▸ List.mem_map_of_mem (f := Lexeme.toWord) hl
    unfold commaWords at hmem
    split at hmem
    · exact ⟨',', congrArg Word.kind (List.mem_singleton.1 hmem)⟩
    · cases hmem
  rw [List.cons_append, List.cons_append, List.append_assoc] at hstands hnodes
  obtain ⟨hinside, -⟩ := stands_append (stands_cons (stands_phrase.1 hstands)).2
  have hchildren : b.children = Written.nodes (place + (lexeme opening).text.length) ws := by
    have hmark : (lexeme opening).kind? = none :=
      kind_of_mark ⟨opening, rfl, congrArg Word.kind hopening⟩
    rw [hnodes, nodes_cons, node?_item_eq_none hmark, nodes_append, nodes_append,
      nodes_marks hcomma, nodes_mark (congrArg Word.kind hclosing)]
    exact List.append_nil _
  rw [hchildren]
  exact MatcherText.filterMap_matcher (hws.forall₂_nodes hinside)

/-- The node of a selector has the name and the matchers that are written. -/
theorem IsTree.exists_node (h : s.IsTree w) (hstands : Stands query place [w]) :
    ∃ n, w.item place = .node n ∧ n.kind = .phrase .vectorSelector ∧
      Expr.selectorName query n = s.name ∧ (Expr.selectorMatchers query n).result =
        .ok s.written := by
  cases h with
  | @intro ns cs opening closing ws hns hopening hws hcs hclosing =>
    obtain ⟨n, hn, hkind, hnodes, -⟩ := exists_node_phrase hstands
    refine ⟨n, hn, hkind, ?_⟩
    have hblock := exists_node_block hopening hws hcs hclosing
      (stands_append (stands_phrase.1 hstands)).2
    obtain ⟨b, hb, hbkind, hmatchers⟩ := hblock
    have hends : n.children = Written.nodes place (ns.map .lexeme) ++ [b] := by
      rw [hnodes, nodes_append, nodes_cons, hb]
      rfl
    unfold nameWords at hns
    cases hmetric : s.metric with
    | none =>
      rw [hmetric] at hns
      obtain rfl := List.map_eq_nil_iff.1 hns
      have hchildren : n.children = [b] := hends
      constructor
      · simp [Expr.selectorName, Node.child?, hchildren, hbkind, name, hmetric]
      · simp [Expr.selectorMatchers, Node.child?, hchildren, hbkind, hmatchers, written]
    | some m =>
      rw [hmetric] at hns
      obtain ⟨l, rfl, hl⟩ := List.map_eq_singleton_iff.1 hns
      obtain ⟨k, hk, hkkind, -, hktext⟩ :=
        exists_node_token hl (stands_cons (stands_phrase.1 hstands)).1
      have hchildren : n.children = [k, b] := by
        rw [hends, List.map_singleton, nodes_cons, hk]
        rfl
      constructor
      · simp [Expr.selectorName, Node.child?, hchildren, hkkind, Expr.textOf, hktext, name, hmetric]
      · simp [Expr.selectorMatchers, Node.child?, hchildren, hkkind, hbkind, hmatchers, written]

/-- A selector stands for a vector selector with its name and its matchers. -/
lemma IsTree.exists_vector (h : s.IsTree w) (hstands : Stands query place [w]) :
    ∃ n, w.item place = .node n ∧ n.kind = .phrase .vectorSelector ∧
      (Expr.ofTree query n).result = .ok (.vector (Expr.textOf query n) s.name s.written none) := by
  obtain ⟨n, hn, hkind, hname, hmatchers⟩ := h.exists_node hstands
  refine ⟨n, hn, hkind, ?_⟩
  rw [Expr.ofTree_eq_ofBranches, Expr.ofBranches, hkind]
  dsimp only
  rw [Expr.ofVector, Noted.result_bind_eq hmatchers, hname]
  rfl

/-- The duration of a range over a selector is read before the matchers. -/
lemma result_of_range {n base k : Node} {ms : List Matcher} (h : base.IsRange n)
    (hbase : base.kind = .phrase .vectorSelector) (hchildren : n.children = [base, k])
    (hmatchers : (Expr.selectorMatchers query base).result = .ok ms) :
    (Expr.ofTree query n).result = (Expr.duration query k >>= fun range =>
      pure (.matrix (Expr.textOf query n) (Expr.selectorName query base) ms
        (range : Int) none)).result := by
  have hfound : n.child? [.phrase .vectorSelector] = some base := by
    simp [Node.child?, hchildren, hbase]
  obtain ⟨d, hparts, -, hduration⟩ := h.exists_duration
  obtain rfl : k = d := by simpa using hchildren.symm.trans hparts
  rw [Expr.ofTree_eq_ofBranches, Expr.ofBranches, h.kind]
  dsimp only
  rw [Expr.ofMatrix, hduration, hfound]
  cases hrange : (Expr.duration query k).result with
  | error cause =>
    exact (Noted.result_bind_error hrange _).trans (Noted.result_bind_error hrange _).symm
  | ok range =>
    refine (Noted.result_bind_eq hrange _).trans (.trans ?_ (Noted.result_bind_eq hrange _).symm)
    dsimp only
    rw [Noted.result_bind_eq hmatchers]

/-- A selector with a range behind it stands for a range selector with its name and its matchers,
unless the digits of a part of the duration are too many to be read. -/
theorem IsRangeTree.exists_matrix (h : s.IsRangeTree d w) (hstands : Stands query place [w]) :
    ∃ n base : Node, w.item place = .node n ∧ base.IsRange n ∧ base.kind = .phrase .vectorSelector ∧
      n.Yields query d.parts fun a =>
        a = .matrix (Expr.textOf query n) s.name s.written (Duration.span d.parts) none := by
  cases h with
  | @intro v opening l closing hv hopening hl hclosing =>
    have hparts := stands_phrase.1 hstands
    obtain ⟨hselector, hmore⟩ := stands_cons hparts
    obtain ⟨n, hn, hkind, hnodes, -⟩ := exists_node_phrase hstands
    obtain ⟨base, hbase, hbkind, hname, hmatchers⟩ := hv.exists_node hselector
    obtain ⟨k, hk, hkkind, -, hktext⟩ := exists_node_token hl (stands_cons (stands_cons hmore).2).1
    have hchildren : n.children = [base, k] := by
      have hopen : (lexeme opening).kind? = none :=
        kind_of_mark ⟨opening, rfl, congrArg Word.kind hopening⟩
      rw [hnodes, nodes_cons, hbase, nodes_cons, node?_item_eq_none hopen, nodes_cons, hk,
        nodes_mark (congrArg Word.kind hclosing)]
      rfl
    have hrange : base.IsRange n := ⟨hkind, hbkind ▸ rfl, k, hchildren, hkkind⟩
    have hresult := result_of_range hrange hbkind hchildren hmatchers
    rw [hname] at hresult
    refine ⟨n, base, hn, hrange, hbkind, ?_⟩
    refine ⟨fun hshort => ⟨_, rfl, ?_⟩, fun hlong => ?_⟩
    · have hread : (Expr.duration query k).result = .ok (Duration.span d.parts) :=
        Duration.read_of_writes (hktext ▸ d.writes) hshort
      rw [hresult, Noted.result_bind_eq hread]
      rfl
    · obtain ⟨digits, hdigits, hread⟩ := Duration.read_eq_error (hktext ▸ d.writes) hlong
      refine ⟨digits, hdigits, ?_⟩
      rw [hresult]
      exact Noted.result_bind_error (m := Expr.duration query k) hread _

end SelectorText

end PromqlGuide
