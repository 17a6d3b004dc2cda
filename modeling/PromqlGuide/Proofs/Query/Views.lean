import PromqlGuide.Display.Output
import PromqlGuide.Proofs.Expr.Numbers
import PromqlGuide.Proofs.Query.Expression

/-!
# Views of accepted queries

An accepted query has an explanation, a list of explained parts, and text and JSON output, as long
as the numbers in them have few enough digits and there is room for its levels.  Reading a query
limits the digits of each amount of a duration, but not those of their sum in milliseconds, nor
those of that sum in a smaller unit.  So the limit on what is written can be met only by queries
that come close to the limit on what is read.  The levels are another matter: the room for making an
expression is greater than the room for going through it afterwards, and a chain of operators has a
level for each.

Main statement: each view of an accepted query is there exactly if its numbers can be written and
there is room for its levels, otherwise one of the two is the reason, and the numbers of a query of
at most 4290 characters can all be written (`Query.views_of_parse`).
-/
namespace PromqlGuide

open Text

variable {limits : Limits} {P : Prop} {k : Int} {query : List Char} {a : Expr}

/-! ### Numbers that can be written -/

/-- A number that can be written can be shown as a duration. -/
lemma Duration.isShowable_of_isWritable (h : isWritable k = true) : IsShowable k := by
  have hle : (k / (displayUnit k).milliseconds).natAbs ≤ k.natAbs := Int.natAbs_ediv_le_natAbs k _
  exact decide_eq_true (hle.trans_lt (of_decide_eq_true h))

namespace Expr

/-- Whether the numbers in the object of an expression can be written. -/
def IsNumbered (a : Expr) : Prop := ∀ k ∈ a.integers, isWritable k = true

/-- What can be written in milliseconds can be explained. -/
lemma IsNumbered.isShown (h : a.IsNumbered) : a.IsShown := by
  have habs : ∀ {ms : Int}, isWritable ms = true → Duration.IsShowable ms.natAbs := by
    intro ms hms
    exact Duration.isShowable_of_isWritable hms
  cases a with
  | vector text name matchers offset =>
    intro ms hms
    obtain ⟨k, hk, rfl⟩ := List.mem_map.1 hms
    exact habs (h k hk)
  | matrix text name matchers range offset =>
    obtain ⟨hrange, hoffset⟩ := List.forall_mem_cons.1 h
    refine List.forall_mem_cons.2 ⟨Duration.isShowable_of_isWritable hrange, ?_⟩
    intro ms hms
    obtain ⟨k, hk, rfl⟩ := List.mem_map.1 hms
    exact habs (hoffset k hk)
  | _ => exact List.forall_mem_nil _

/-- Where the text is short, all numbers are. -/
lemma isNumbered_of_isBelow (hlength : query.length + 10 ≤ numeralLimit)
    (h : Throughout (IsBelow (durationBound query)) a) : Throughout IsNumbered a := by
  have hmono : ∀ i j, i ≤ j → 10 ^ i ≤ Nat.pow 10 j := fun _ _ => Nat.pow_le_pow_right (by decide)
  have hbound : durationBound query ≤ numeralBound := by
    unfold durationBound numeralBound
    exact hmono _ _ hlength
  exact fun depth place m hm k hk => decide_eq_true ((h depth place m hm k hk).trans_le hbound)

end Expr

/-! ### Output -/

namespace OutputFormat

/-- Text output is the explanation of an expression. -/
lemma yieldsIff_prepare_text {theme : String} {color : Bool} {fault : Unexplained}
    (h : YieldsIff a.explain P fault) :
    YieldsIff (text.prepare limits a color theme) P (.unexplained fault) := by
  rcases h with ⟨hP, words, hwords⟩ | ⟨hP, herror⟩
  · exact Or.inl ⟨hP, [.ofText words], by rw [prepare, hwords]⟩
  · exact Or.inr ⟨hP, by rw [prepare, herror]⟩

/-- JSON output holds the JSON text of an expression. -/
lemma yieldsIffBoth_prepare_json (theme : String) (color : Bool) :
    YieldsIffBoth (json.prepare limits a color theme) (Expr.Throughout Expr.IsNumbered a)
      (.unexplained (.numeral .writing)) (a.FitsJson limits) .tooDeep :=
  ((Expr.yieldsIffBoth_jsonText limits a).congr Expr.isWritable_toJson_iff Iff.rfl).map

end OutputFormat

namespace Query

/-- If a query has an expression, this is explained exactly if its own durations can be written in
the units in which they are shown, and so it has text output.  Its parts are explained exactly if
this holds of all of them and there is room for all levels, and it has JSON output exactly if all
numbers in it can be written and there is room for its nesting.  Otherwise the digit limit on what
is written or the room is the reason.  The numbers of a query of at most 4290 characters can be
written, and the room that the nesting takes is about twice that of the levels. -/
theorem views_of_parse (h : (parseChars limits query).outcome = .ok a) (theme : String) :
    YieldsIff a.explain a.IsShown (.numeral .writing) ∧
      YieldsIffBoth (a.steps limits) (a.Throughout Expr.IsShown) (.unexplained (.numeral .writing))
        (a.height ≤ limits.explaining) .tooDeep ∧
      YieldsIff (OutputFormat.text.prepare limits a false theme) a.IsShown
        (.unexplained (.numeral .writing)) ∧
      YieldsIffBoth (OutputFormat.json.prepare limits a false theme) (a.Throughout Expr.IsNumbered)
        (.unexplained (.numeral .writing)) (a.FitsJson limits) .tooDeep ∧
      (a.Throughout Expr.IsNumbered → a.Throughout Expr.IsShown) ∧
      (query.length ≤ 4290 → a.Throughout Expr.IsNumbered) ∧
      (a.height ≤ limits.converting → 2 * a.height + 1 ≤ limits.writing → a.FitsJson limits) := by
  obtain ⟨e, n, hmeans⟩ := outcome_eq_ok_iff.1 h
  have hknown := Expr.hasKnownOperators_ofTree n n n.mem_preorder_self a hmeans.result
  have hexplain : YieldsIff a.explain a.IsShown (.numeral .writing) :=
    Expr.yieldsIff_explain hknown.self
  refine ⟨hexplain, Expr.yieldsIffBoth_steps limits hknown,
    OutputFormat.yieldsIff_prepare_text hexplain,
    OutputFormat.yieldsIffBoth_prepare_json theme false, fun hnumbered => ?_, fun hlength =>
      ?_, Expr.fitsJson_of_height_le⟩
  · exact fun depth place m hm => (hnumbered depth place m hm).isShown
  · -- A sum of durations has at most ten digits more than the query has characters.
    have hbelow := Expr.isBelow_ofTree n n n.mem_preorder_self a hmeans.result
    exact Expr.isNumbered_of_isBelow (Nat.add_le_add_right hlength 10) hbelow

/-- The negation of a range of five milliseconds. -/
def negatedInstant : Expr := .unary "-x[5ms]" "-" [.matrix "x[5ms]" "x" [] 5 none]

/-- Room for the objects and the explanations of one level only. -/
def flatLimits : Limits := { Limits.usual with explaining := 1, converting := 1 }

/-- All views of `-x[5ms]` are there where there is room for its two levels; where there is room for
one, its parts are not explained, and it has no JSON output. -/
theorem views_of_parse_negatedInstant :
    (parseChars .usual ['-', 'x', '[', '5', 'm', 's', ']']).outcome = .ok negatedInstant ∧
      (∃ words, negatedInstant.explain = .ok words) ∧
      (∃ steps, negatedInstant.steps .usual = .ok steps) ∧
      (∃ operations, OutputFormat.text.prepare .usual negatedInstant false "" = .ok operations) ∧
      (∃ operations, OutputFormat.json.prepare .usual negatedInstant false "" = .ok operations) ∧
      (parseChars flatLimits ['-', 'x', '[', '5', 'm', 's', ']']).outcome = .ok negatedInstant ∧
      negatedInstant.steps flatLimits = .error .tooDeep ∧
      OutputFormat.json.prepare flatLimits negatedInstant false "" = .error .tooDeep := by
  have h : (parseChars .usual ['-', 'x', '[', '5', 'm', 's', ']']).outcome = .ok negatedInstant :=
    rfl
  have hflat : (parseChars flatLimits ['-', 'x', '[', '5', 'm', 's', ']']).outcome =
      .ok negatedInstant := rfl
  have hheight : ¬ negatedInstant.height ≤ 1 := by decide +kernel
  obtain ⟨hexplain, hsteps, htext, hjson, hshown, hshort, hfits⟩ := views_of_parse h ""
  obtain ⟨-, hnosteps, -, hnojson, -⟩ := views_of_parse hflat ""
  have hnumbered := hshort (by decide)
  refine ⟨h, hexplain.exists_ok (hshown hnumbered).self, hsteps.exists_ok (hshown hnumbered) ?_,
    htext.exists_ok (hshown hnumbered).self, hjson.exists_ok hnumbered (hfits ?_ ?_), hflat,
    hnosteps.eq_error_right (hshown hnumbered) hheight,
    hnojson.eq_error_right hnumbered fun hroom => hheight hroom.1⟩
  · decide +kernel
  · decide +kernel
  · decide +kernel

end Query

end PromqlGuide
