import PromqlGuide.Proofs.Display.PlainText
import PromqlGuide.Proofs.Expr.Makers
import PromqlGuide.Proofs.Lists
import PromqlGuide.Proofs.Query.Grouping

/-!
# The tree view with and without colour

The tokens of a query end neither with backslashes nor with ends of lines, and so neither do the
texts and the explanations in the tree view of its expression.  What colour changes in such a tree
is known: a backslash in front of a bracket that does not look like a tag is lost, as in `'\[5]'`.

Main statement: there are a tree with and a tree without colour if all parts of the expression can
be explained, and these have the same text exactly if none of the texts and the explanations in them
loses a backslash (`Query.sameText_of_parse`).
-/
namespace PromqlGuide

open Markup Text

/-! ### The end of an explanation -/

namespace Expr

/-- The words of the query that the explanation of an expression may end with. -/
def lastWords : Expr → List String
  | aggregation _ _ grouping _ _ => grouping
  | number _ value => [value]
  | _ => []

/-- Words with a separator between them end cleanly if all of them do. -/
lemma cleanEnd_intercalate {separator : String} {words : List String}
    (hseparator : CleanEnd separator.toList) (h : ∀ w ∈ words, CleanEnd w.toList) :
    CleanEnd (String.intercalate separator words).toList := by
  induction words with
  | nil =>
    rw [String.intercalate_nil]
    decide
  | cons w words ih =>
    rw [List.forall_mem_cons] at h
    cases words with
    | nil =>
      rw [String.intercalate_singleton]
      exact h.1
    | cons v words =>
      rw [String.intercalate_cons_cons, String.toList_append, String.toList_append]
      exact cleanEnd_append (fun _ => cleanEnd_append (fun _ => h.1) hseparator) (ih h.2)

/-- The phrase for a function ends cleanly. -/
lemma cleanEnd_functionPhrase {function other : String} (hother : CleanEnd other.toList) :
    CleanEnd ((phraseFor? functionPhrases function).getD other).toList := by
  have htable : ∀ entry ∈ functionPhrases, CleanEnd entry.2.toList := by
    unfold functionPhrases
    repeat refine List.forall_mem_cons.2 ⟨cleanEnd_ofList (by decide), ?_⟩
    exact List.forall_mem_nil _
  exact of_lookup_getD (P := fun phrase : String => CleanEnd phrase.toList) htable hother

/-- A duration in words ends cleanly. -/
lemma cleanEnd_durationWords {ms : Int} {words : String} (h : durationWords ms = .ok words) :
    CleanEnd words.toList := by
  have hletters : ∀ u : TimeUnit, u.letters ≠ [] ∧ CleanEnd u.letters := by
    intro u
    cases u <;> decide
  rw [durationWords_eq] at h
  split_ifs at h
  cases h
  rw [String.toList_append, String.toList_ofList]
  exact cleanEnd_append (fun hnil => absurd hnil (hletters _).1) (hletters _).2

/-- An offset in words ends cleanly. -/
lemma cleanEnd_offsetWords {offset : Option Int} {words : String}
    (h : offsetWords offset = .ok words) :
    CleanEnd words.toList := by
  cases offset with
  | none =>
    cases h
    decide
  | some ms =>
    obtain ⟨intro, hintro, heq⟩ := offsetWords_some ms
    have hclean : ∀ s ∈ [", offset forward by ", ", offset by "], CleanEnd s.toList := by decide
    rw [heq] at h
    cases hwords : durationWords ms.natAbs with
    | error cause =>
      rw [hwords] at h
      cases h
    | ok words' =>
      rw [hwords] at h
      cases h
      rw [String.toList_append]
      exact cleanEnd_append (fun _ => hclean intro hintro) (cleanEnd_durationWords hwords)

/-- Text behind other text ends it. -/
lemma cleanEnd_behind {s t : String} (hne : t.toList ≠ []) (ht : CleanEnd t.toList) :
    CleanEnd (s ++ t).toList := by
  rw [String.toList_append]
  exact cleanEnd_append (fun hnil => absurd hnil hne) ht

/-- Two texts in a row end cleanly if both do. -/
lemma cleanEnd_both {s t : String} (hs : CleanEnd s.toList) (ht : CleanEnd t.toList) :
    CleanEnd (s ++ t).toList := by
  rw [String.toList_append]
  exact cleanEnd_append (fun _ => hs) ht

/-- An explanation ends neither with a backslash nor with the end of a line if no word of the query
at its end does. -/
lemma cleanEnd_explain {e : Expr} {explanation : String} (h : e.explain = .ok explanation)
    (hlast : ∀ w ∈ e.lastWords, CleanEnd w.toList) : CleanEnd explanation.toList := by
  cases e with
  | aggregation text operator grouping without children =>
    cases h
    have hlabels := @cleanEnd_intercalate ", " _ (by decide) hlast
    refine cleanEnd_both (cleanEnd_behind (by decide) (by decide)) ?_
    split_ifs
    · decide
    · exact cleanEnd_both (by decide) hlabels
    · exact cleanEnd_both (by decide) hlabels
  | call text function arguments =>
    cases h
    have happlies : CleanEnd ("applies " ++ function ++ "()").toList :=
      cleanEnd_behind (by decide) (by decide)
    exact cleanEnd_both (cleanEnd_behind (by decide) (by decide)) (cleanEnd_functionPhrase happlies)
  | vector text name matchers offset =>
    obtain ⟨conditions, hconditions, h⟩ := exists_of_bind_eq_ok h
    obtain ⟨shift, hshift, h⟩ := exists_of_bind_eq_ok h
    cases h
    have hconditions' : ∀ condition ∈ conditions, CleanEnd condition.toList := by
      intro condition hmem
      obtain ⟨m, -, hm⟩ := exists_mem_of_forall₂ (forall₂_of_mapM_eq_ok hconditions).flip hmem
      obtain ⟨relation, -, hm⟩ := exists_of_bind_eq_ok hm
      cases hm
      exact cleanEnd_behind (by decide) (by decide)
    refine cleanEnd_both (cleanEnd_both (cleanEnd_behind (by decide) (by decide)) ?_)
      (cleanEnd_offsetWords hshift)
    split_ifs
    · decide
    · exact cleanEnd_both (by decide) (cleanEnd_intercalate (by decide) hconditions')
  | matrix text name matchers range offset =>
    obtain ⟨window, -, h⟩ := exists_of_bind_eq_ok h
    obtain ⟨shift, hshift, h⟩ := exists_of_bind_eq_ok h
    cases h
    refine cleanEnd_both (cleanEnd_both (cleanEnd_behind (by decide) (by decide)) ?_)
      (cleanEnd_offsetWords hshift)
    split_ifs <;> decide
  | number text value =>
    cases h
    exact cleanEnd_both (by decide) (hlast value List.mem_cons_self)
  | binary text operator operands | string text value =>
    cases h
    exact cleanEnd_behind (by decide) (by decide)
  | unary text operator children =>
    cases h
    exact cleanEnd_behind (by decide) (by decide)
  | paren | subquery | unknown | bare =>
    cases h
    exact cleanEnd_ofList (by decide)

end Expr

/-! ### Queries -/

namespace Query

open Written

variable {limits : Limits} {query : List Char} {a : Expr}

/-- What is written in a query ends neither with a backslash nor with the end of a line. -/
lemma cleanEnd_of_stands {w : Written} {place : Nat} (h : Stands query place [w]) :
    CleanEnd w.bare.text := by
  have hmarks : ∀ d ∈ Lexical.marks, d ≠ '\\' ∧ d ≠ '\n' := by decide
  obtain ⟨before, rest, -, -, hlaid⟩ := h
  have hbare : Lexeme.LaidOut w.bare.lexemes rest := by
    simpa [Laid, lexemesAll] using laid_bare hlaid
  intro c hc
  obtain ⟨l, hl, hlast⟩ := Lexeme.mem_getLast_of_laidOut hbare c hc
  have hproper := hbare.proper l hl
  cases hkind : l.kind with
  | token t => exact Terminal.ne_of_getLast (t := t) (hkind ▸ hproper.2.2 :) c hlast
  | mark d =>
    obtain ⟨hmem, htext⟩ := hproper.mark hkind
    rw [htext] at hlast
    cases hlast
    exact hmarks _ hmem

/-- The label names that an aggregation is grouped by end neither with backslashes nor with ends of
lines. -/
lemma cleanEnd_grouping {s : Node} (hread : ∀ k ∈ s.preorder, k.IsRead query) :
    ∀ label ∈ (((s.child? [.phrase .modifier]).bind fun m =>
      m.child? [.phrase .groupingLabels]).map fun l => l.labels query).getD [],
      CleanEnd label.toList := by
  intro label hlabel
  cases hfound : (s.child? [.phrase .modifier]).bind fun m =>
    m.child? [.phrase .groupingLabels] with
  | none =>
    rw [hfound] at hlabel
    cases hlabel
  | some list =>
    rw [hfound, Option.map_some, Option.getD_some] at hlabel
    obtain ⟨m, hm, hlist⟩ := Option.bind_eq_some_iff.1 hfound
    obtain ⟨c, hc, rfl⟩ := List.mem_map.1 hlabel
    obtain ⟨hc, hkind⟩ := List.mem_filter.1 hc
    have hin : c ∈ s.preorder :=
      Node.mem_preorder_trans (Node.mem_preorder_of_mem_children (Node.mem_of_child hm).1)
        (Node.mem_preorder_trans (Node.mem_preorder_of_mem_children (Node.mem_of_child hlist).1)
          (Node.mem_preorder_of_mem_children hc))
    rw [String.toList_ofList]
    exact Terminal.ne_of_getLast ((hread c hin).spelled _ (of_decide_eq_true hkind))

/-- The texts and the explanations of the expressions inside that of a query end neither with
backslashes nor with the end of a line. -/
lemma cleanEnds_of_parse (h : (parseChars limits query).outcome = .ok a) :
    Expr.Throughout (fun m => CleanEnd m.text.toList ∧
      ∀ explanation, m.explain = .ok explanation → CleanEnd explanation.toList) a := by
  obtain ⟨e, n, hmeans⟩ := outcome_eq_ok_iff.1 h
  have hread := isRead_of_writes hmeans.writes hmeans.item
  have hexpr := isExpression_of_writes hmeans.writes hmeans.item
  have hwrapper := ne_wrapper_of_writes hmeans.writes hmeans.item
  intro depth place m hm
  have htext : CleanEnd m.text.toList := by
    obtain ⟨s, hs, -, -, htext⟩ := Expr.exists_source hexpr hwrapper hmeans.result hm
    obtain ⟨w, place, -, hstands, hitem⟩ :=
      exists_within_of_mem_preorder (stands_of_writes hmeans.writes) hmeans.item hs
    rw [htext, Expr.textOf, String.toList_ofList, text_of_item hstands hitem]
    exact cleanEnd_of_stands hstands
  refine ⟨htext, fun explanation hexplain => Expr.cleanEnd_explain hexplain ?_⟩
  obtain ⟨s, hs, hresult, hmade⟩ := Expr.exists_made hexpr hwrapper hmeans.result hm
  cases m with
  | aggregation =>
    rw [Expr.ofTree_aggregation (hmade.isOfKind _ rfl)] at hresult
    obtain ⟨operator, es, heq, -⟩ := Expr.exists_ofAggregation hresult
    cases heq
    exact cleanEnd_grouping fun k hk => hread k (Node.mem_preorder_trans hs hk)
  | number text value =>
    obtain rfl := hmade.number_eq
    exact List.forall_mem_singleton.2 htext
  | _ => exact List.forall_mem_nil _

/-- The texts and the explanations of the expressions inside that of a query do not end with
backslashes. -/
lemma endsPlainly_of_parse (h : (parseChars limits query).outcome = .ok a) :
    Expr.Throughout LabelTree.EndsPlainly a := by
  intro depth place m hm
  obtain ⟨htext, hexplanation⟩ := cleanEnds_of_parse h depth place m hm
  refine ⟨htext.plainEnd, ?_⟩
  rw [Expr.explanation]
  cases hexplain : m.explain with
  | error cause => exact (by decide : PlainEnd "".toList)
  | ok explanation => exact (hexplanation explanation hexplain).plainEnd

/-- If all parts of the expression of a query can be explained, there are a tree view with and one
without colour, and these have the same text exactly if the texts and the explanations of the parts
lose no backslash.  Otherwise there is neither. -/
theorem sameText_of_parse (h : (parseChars limits query).outcome = .ok a) :
    (∃ steps colored uncolored, a.steps limits = .ok steps ∧
      LabelTree.ofExpr limits true a = .ok colored ∧
      LabelTree.ofExpr limits false a = .ok uncolored ∧
      (colored.SameText uncolored ↔
        ∀ s ∈ steps, ¬ LosesBackslash s.text.toList ∧ ¬ LosesBackslash s.explanation.toList)) ∨
    ∃ fault, a.steps limits = .error fault ∧
      ∀ color, LabelTree.ofExpr limits color a = .error fault := by
  cases hsteps : a.steps limits with
  | ok steps =>
    obtain ⟨colored, uncolored, hcolored, huncolored, hiff⟩ :=
      LabelTree.sameText_iff hsteps (endsPlainly_of_parse h)
    exact Or.inl ⟨steps, colored, uncolored, rfl, hcolored, huncolored, hiff⟩
  | error fault => exact Or.inr ⟨fault, rfl, fun color => LabelTree.ofExpr_eq_error color hsteps⟩

/-- The text of `-'\[5]'`. -/
def negatedBracket : List Char := ['-', '\'', '\\', '[', '5', ']', '\'']

/-- The expression of `-'\[5]'`. -/
def negatedString : Expr := .unary "-'\\[5]'" "-" [.string "'\\[5]'" "\\[5]"]

/-- With colour, a backslash of `-'\[5]'` is lost. -/
theorem not_sameText_negatedBracket :
    (parseChars .usual negatedBracket).outcome = .ok negatedString ∧
      ∃ colored uncolored, LabelTree.ofExpr .usual true negatedString = .ok colored ∧
        LabelTree.ofExpr .usual false negatedString = .ok uncolored ∧
        ¬ colored.SameText uncolored := by
  have h : (parseChars .usual negatedBracket).outcome = .ok negatedString := rfl
  have hsteps : negatedString.steps .usual =
      .ok [⟨0, "UnaryExpr", "-'\\[5]'", "Unary negation operator"⟩,
        ⟨1, "StringLiteral", "'\\[5]'", "A string value: \"\\[5]\""⟩] := by decide +kernel
  have hloses : LosesBackslash "'\\[5]'".toList := ⟨['\''], ['5', ']', '\''], by decide, by decide⟩
  refine ⟨h, ?_⟩
  rcases sameText_of_parse h with
    ⟨steps, colored, uncolored, hok, hcolored, huncolored, hiff⟩ | ⟨fault, herror, -⟩
  · cases hsteps.symm.trans hok
    refine ⟨colored, uncolored, hcolored, huncolored, fun hsame => ?_⟩
    exact (hiff.1 hsame _ (List.mem_cons_of_mem _ List.mem_cons_self)).1 hloses
  · cases hsteps.symm.trans herror

end Query

end PromqlGuide
