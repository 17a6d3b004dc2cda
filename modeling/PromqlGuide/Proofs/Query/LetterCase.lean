import PromqlGuide.Proofs.Expr.Written
import PromqlGuide.Proofs.Query.Expression
import PromqlGuide.Proofs.Written.Recased

/-!
# Keywords in another letter case

Keywords and numbers may be written in any letter case: changing it leaves the syntax tree of a
query as it is, and in the expression nothing changes but the letter case of texts, of the operators
of binary expressions and of the values of numbers (`Query.parse_recased`).
-/
namespace PromqlGuide

open Text Written

/-! ### Texts without letter case -/

/-- A text with the capitals of ASCII written small. -/
def Text.small (s : String) : String := String.ofList (s.toList.map Char.toLower)

/-- Texts that differ in letter case are the same in small letters. -/
lemma Text.small_of_recased {cs ds : List Char} (h : Text.Recased cs ds) :
    small (String.ofList cs) = small (String.ofList ds) := by
  simp only [small, String.toList_ofList, h.map_eq (f := Char.toLower) fun _ _ hcd => hcd]

/-- The view in which letter case does not count where keywords and numbers may be. -/
def Expr.View.caseless : Expr.View := ⟨small, small, small⟩

/-- In this view, lexemes in another letter case agree. -/
lemma agrees_of_recased {l l' : Lexeme} {t : Terminal} (h : l.Recased l') (ht : l.kind = .token t) :
    Expr.View.caseless.Agrees (.leaf t) l.text l'.text where
  text := small_of_recased h.text
  verbatim := fun hverbatim => by
    refine (h.fixed ?_).symm
    rw [ht]
    cases t <;> first | rfl | cases hverbatim
  operator := fun _ => small_of_recased h.text
  value := fun _ => small_of_recased h.text
  aggregation := fun _ => lowercase_of_recased h.text

namespace Written

/-- Trees that differ in letter case are written with different letter case. -/
lemma recased_textAll {ws vs : List Written} (h : List.Forall₂ (Matched Lexeme.Recased) ws vs) :
    Text.Recased (textAll ws) (textAll vs) :=
  Lexeme.recased_writtenAll (Matched.lexemesAll h fun _ _ _ hw => hw.lexemes)

/-- The text of a tree without the gap in front is recased with its lexemes. -/
lemma recased_bare {w v : Written} (h : Matched Lexeme.Recased w v) :
    Text.Recased w.bare.text v.bare.text := by
  induction w generalizing v with
  | lexeme l =>
    cases h with
    | lexeme hl => simpa [bare] using hl.text
  | phrase p parts ih =>
    cases h with
    | phrase hparts =>
      cases hparts with
      | nil => exact Text.Recased.rfl
      | cons hw hws =>
        simp only [bare, text_phrase, textAll_cons]
        exact (ih _ List.mem_cons_self hw).append (recased_textAll hws)

/-- Trees with lexemes in another letter case stand for kin. -/
lemma kin_of_recased {w v : Written} {query query' : List Char} {position position' : Nat}
    {n n' : Node} (h : Matched Lexeme.Recased w v) (hformed : Formed w)
    (hw : Stands query position [w]) (hv : Stands query' position' [v])
    (hn : w.item position = .node n) (hn' : v.item position' = .node n') :
    Node.Kin .caseless query query' n n' := by
  refine paired_of_matched (fun l l' hl => ⟨hl.kind, fun t => agrees_of_recased hl⟩) ?_ h hformed hw
    hv
    hn hn'
  intro p ws vs hws hmatched
  have htext := recased_bare hmatched
  refine ⟨small_of_recased htext, fun hverbatim => ?_, nofun, nofun, nofun⟩
  -- Of phrases only quoted names are looked at, and these are strings.
  obtain rfl : p = .quotedName := beq_iff_eq.1 hverbatim
  obtain ⟨l, rfl, hkind⟩ := hws.quotedName
  cases hmatched with
  | phrase hparts =>
    obtain ⟨name, rfl, hname⟩ := exists_of_forall₂_singleton hparts
    cases hname with
    | lexeme hl => rw [text_quotedName, text_quotedName, hl.fixed (by rw [hkind]; rfl)]

end Written

namespace Query

variable {limits : Limits} {query query' : List Char}

/-- Kin are made into expressions that are the same in the view, or fail alike. -/
lemma ofExpression_of_kin {view : Expr.View} {n n' : Node} (h : Node.Kin view query query' n n') :
    (ofExpression limits query' n').outcome.map (Expr.seenAs view) =
      (ofExpression limits query n).outcome.map (Expr.seenAs view) := by
  unfold ofExpression
  rw [h.depth]
  split
  · rfl
  · dsimp only
    rcases Expr.agree_ofTree_of_kin h with ⟨cause, hcause, hcause'⟩ | ⟨a, a', ha, ha', hsame⟩
    · rw [hcause, hcause']
    · rw [ha, ha']
      exact congrArg Except.ok hsame.symm

/-- Keywords and numbers may be written in any letter case: a query has the same syntax tree, and
the same expression but for the letter case of texts, of the operators of binary expressions and of
the values of numbers. -/
theorem parse_recased {root : Node} (h : Node.ofQuery? limits query = some root)
    (haccepted : ∀ n ∈ root.preorder, n.isError = false) (hrecases : root.Recases query query') :
    Node.ofQuery? limits query' = some root ∧
      (parseChars limits query').outcome.map (Expr.seenAs .caseless) =
        (parseChars limits query).outcome.map (Expr.seenAs .caseless) := by
  obtain ⟨hrecased, hinside⟩ := hrecases
  obtain ⟨hkind, hstart, hstop⟩ := Node.ofReading_range h
  have hroot : root.isCaseless = false := by rw [Node.isCaseless, hkind]
  by_cases hexpression : root.children = []
  · -- Without an expression there are no tokens, so nothing changes.
    obtain rfl : query = query' := eq_of_recased hrecased fun i _ hne => by
      obtain ⟨n, hn, hcaseless, -⟩ := hinside i hne
      obtain rfl : n = root := by simpa [Node.preorder_of_nil hexpression] using hn
      simp [hroot] at hcaseless
    exact ⟨h, rfl⟩
  · obtain ⟨e, n, he, hn, hchildren⟩ := Node.exists_writes_of_ofQuery h haccepted hexpression
    obtain ⟨e', hmatched, he'⟩ := he.exists_recased hn hrecased fun i hne => by
      obtain ⟨m, hm, hcaseless, hrange⟩ := hinside i hne
      rw [Node.preorder_eq, hchildren] at hm
      rcases List.mem_cons.1 hm with rfl | hm
      · simp [hroot] at hcaseless
      · exact ⟨m, by simpa using hm, hcaseless, hrange⟩
    have hn' : e'.item 0 = .node n := (item_of_recased hmatched 0).trans hn
    have hkin := kin_of_recased hmatched (formed_of_grammatical he.grammatical)
      (stands_of_writes he)
      (stands_of_writes he') hn hn'
    obtain ⟨htree, hparse⟩ := parse_of_writes he hn
    obtain ⟨htree', hparse'⟩ := parse_of_writes he' hn'
    rw [hparse, hparse']
    refine ⟨?_, ofExpression_of_kin hkin⟩
    rw [htree', ← hrecased.length_eq, ← htree, h]

/-- The tree of `sum(a)or inf`. -/
def sumOrInf : Node :=
  ⟨.root, 0, 12, [⟨.phrase .binary, 0, 12, [⟨.phrase .aggregation, 0, 6,
    [⟨.leaf .aggregationOperator, 0, 3, []⟩, ⟨.phrase .callBody, 3, 6,
      [⟨.phrase .vectorSelector, 4, 5, [⟨.leaf .metricName, 4, 5, []⟩]⟩]⟩]⟩,
    ⟨.leaf (.keyword .or), 6, 8, []⟩, ⟨.leaf .number, 9, 12, []⟩]⟩]⟩

/-- `SuM(a)OR Inf` has the tree of `sum(a)or inf`. -/
theorem parse_recased_sumOrInf :
    Node.ofQuery? .usual ['s', 'u', 'm', '(', 'a', ')', 'o', 'r', ' ', 'i', 'n', 'f'] =
      some sumOrInf ∧
      (∀ n ∈ sumOrInf.preorder, n.isError = false) ∧
      sumOrInf.Recases ['s', 'u', 'm', '(', 'a', ')', 'o', 'r', ' ', 'i', 'n', 'f']
        ['S', 'u', 'M', '(', 'a', ')', 'O', 'R', ' ', 'I', 'n', 'f'] ∧
      Node.ofQuery? .usual ['S', 'u', 'M', '(', 'a', ')', 'O', 'R', ' ', 'I', 'n', 'f'] =
        some sumOrInf ∧
      (parseChars .usual ['S', 'u', 'M', '(', 'a', ')', 'O', 'R', ' ', 'I', 'n', 'f']).outcome.map
          (Expr.seenAs .caseless) =
        (parseChars .usual ['s', 'u', 'm', '(', 'a', ')', 'o', 'r', ' ', 'i', 'n', 'f']).outcome.map
          (Expr.seenAs .caseless) := by
  have hread : Node.ofQuery? .usual ['s', 'u', 'm', '(', 'a', ')', 'o', 'r', ' ', 'i', 'n', 'f'] =
      some sumOrInf := rfl
  have haccepted : ∀ n ∈ sumOrInf.preorder, n.isError = false := by decide
  have hrecases : sumOrInf.Recases ['s', 'u', 'm', '(', 'a', ')', 'o', 'r', ' ', 'i', 'n', 'f']
      ['S', 'u', 'M', '(', 'a', ')', 'O', 'R', ' ', 'I', 'n', 'f'] := by
    refine ⟨by decide, fun i hne => ?_⟩
    have listed : ∀ i < 12, ['s', 'u', 'm', '(', 'a', ')', 'o', 'r', ' ', 'i', 'n', 'f'][i]? ≠
        ['S', 'u', 'M', '(', 'a', ')', 'O', 'R', ' ', 'I', 'n', 'f'][i]? →
          InCaseless sumOrInf.preorder i := by decide
    by_cases hi : i < 12
    · exact listed i hi hne
    · rw [List.getElem?_eq_none (Nat.le_of_not_lt hi), List.getElem?_eq_none (Nat.le_of_not_lt hi)]
        at hne
      exact absurd rfl hne
  exact ⟨hread, haccepted, hrecases, parse_recased hread haccepted hrecases⟩

end Query

end PromqlGuide
