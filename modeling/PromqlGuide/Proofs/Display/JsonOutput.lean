import PromqlGuide.Display.Output
import PromqlGuide.Proofs.Expr.Height
import PromqlGuide.Proofs.Json.RoundTrip

/-!
# JSON output of expressions

The JSON output of an expression, if there is room for its nesting, holds all of it.  Its text is
read as the object that it was written from, since the objects of expressions hold plain text, whole
numbers and distinct keys only, and the object determines the expression, since it names the kind of
the expression and has a field for each of its parts.

Main statement: what is printed is read back, and only one expression is printed so
(`Expr.prepare_json_recovers`).
-/
namespace PromqlGuide

/-- An operator that the query language has, or one with a symbol of its own. -/
def MatchOperator.IsCanonical (o : MatchOperator) : Prop := ofSymbol o.symbol = o

/-- Canonical operators differ in their symbols. -/
lemma MatchOperator.symbol_inj {o o' : MatchOperator} (ho : o.IsCanonical) (ho' : o'.IsCanonical)
    (h : o.symbol = o'.symbol) : o = o' := by
  rw [← ho, ← ho', h]

namespace Expr

open Json

/-- Whether an expression has a kind, and its matchers have canonical operators. -/
def IsConcrete : Expr → Prop
  | vector _ _ matchers _ | matrix _ _ matchers _ _ => ∀ m ∈ matchers, m.operator.IsCanonical
  | bare .. => False
  | _ => True

/-- The whole numbers that an expression holds itself. -/
def integers : Expr → List Int
  | vector _ _ _ offset => offset.toList
  | matrix _ _ _ range offset => range :: offset.toList
  | subquery _ _ range step => range.toList ++ step.toList
  | _ => []

/-! ### Objects are read back -/

/-- A number within the limit, or nothing, is read back. -/
lemma readable_intOrNull (depth : Nat) {o : Option Int}
    (ho : ∀ n ∈ o.toList, Text.isWritable n = true) : Readable depth (intOrNull o) := by
  cases o with
  | none => exact .null
  | some n => exact .int (ho n List.mem_cons_self)

/-- A list of strings is read back. -/
lemma readable_strings (depth : Nat) (ss : List String) :
    Readable (depth + 1) (.arr (ss.map .str)) := by
  refine .arr fun v hv => ?_
  obtain ⟨s, -, rfl⟩ := List.mem_map.1 hv
  exact .str s

/-- A list of matchers is read back. -/
lemma readable_matchers (depth : Nat) (ms : List Matcher) :
    Readable (depth + 2) (.arr (ms.map Matcher.toJson)) := by
  refine .arr fun v hv => ?_
  obtain ⟨m, -, rfl⟩ := List.mem_map.1 hv
  refine .obj (by simp) fun field hfield => ?_
  simp only [List.mem_cons, List.not_mem_nil, or_false] at hfield
  rcases hfield with rfl | rfl | rfl <;> exact .str _

/-- The object of an expression is readable if its numbers and the objects of its children are. -/
lemma readable_object {depth : Nat} {e : Expr} {children : List Json}
    (hintegers : ∀ n ∈ e.integers, Text.isWritable n = true)
    (hchildren : ∀ v ∈ children, Readable (depth + 1) v) :
    Readable (depth + 3) (e.object children) := by
  have hbelow : Readable (depth + 2) (.arr children) := .arr hchildren
  cases e with
  | aggregation text operator grouping without =>
    have hgrouping := readable_strings (depth + 1) grouping
    exact .obj (by simp) (by simp [hbelow, hgrouping, Readable.str, Readable.bool])
  | vector text name matchers offset =>
    have hmatchers := readable_matchers depth matchers
    have hoffset := readable_intOrNull (depth + 2) hintegers
    exact .obj (by simp) (by simp [hmatchers, hoffset, Readable.str])
  | matrix text name matchers range offset =>
    have hmatchers := readable_matchers depth matchers
    obtain ⟨hrange, hrest⟩ := List.forall_mem_cons.1 hintegers
    have hoffset := readable_intOrNull (depth + 2) hrest
    exact .obj (by simp) (by simp [hmatchers, hoffset, Readable.str, Readable.int hrange])
  | subquery text below range step =>
    obtain ⟨hrange, hstep⟩ := List.forall_mem_append.1 hintegers
    have hrange := readable_intOrNull (depth + 2) hrange
    have hstep := readable_intOrNull (depth + 2) hstep
    exact .obj (by simp) (by simp [hbelow, hrange, hstep, Readable.str])
  | number | string => exact .obj (by simp) (by simp [Readable.str])
  | call | binary | paren | unary | unknown | bare =>
    exact .obj (by simp) (by simp [hbelow, Readable.str])

/-- The object of an expression is readable where there is room for twice its levels. -/
lemma readable_toJson {e : Expr}
    (h : Throughout (fun m => ∀ n ∈ m.integers, Text.isWritable n = true) e) :
    Readable (2 * e.height + 1) e.toJson := by
  induction e using Expr.inductionOn with
  | step e ih =>
    obtain ⟨levels, hheight⟩ : ∃ levels, e.height = levels + 1 := ⟨_, height_eq e⟩
    rw [toJson_eq, hheight]
    refine readable_object h.self fun v hv => (?_ : Readable (2 * levels + 1) v)
    obtain ⟨c, hc, rfl⟩ := List.mem_map.1 hv
    have hlow : c.height ≤ levels := height_le_succ_iff.1 hheight.le c hc
    exact (ih c hc (h.child hc)).mono (by omega)

/-! ### Objects determine the expression -/

/-- Different numbers, or a number and nothing, are written differently. -/
lemma intOrNull_inj {o o' : Option Int} : intOrNull o = intOrNull o' ↔ o = o' := by
  cases o <;> cases o' <;> simp [intOrNull]

/-- Different lists of strings are written differently. -/
lemma strings_inj {ss ss' : List String} : ss.map Json.str = ss'.map Json.str ↔ ss = ss' := by
  refine ⟨eq_of_map_eq fun s _ s' _ h => ?_, fun h => h ▸ rfl⟩
  cases h
  rfl

/-- Different lists of matchers with canonical operators are written differently. -/
lemma matchers_inj {ms ms' : List Matcher} (hms : ∀ m ∈ ms, m.operator.IsCanonical)
    (hms' : ∀ m ∈ ms', m.operator.IsCanonical) :
    ms.map Matcher.toJson = ms'.map Matcher.toJson ↔ ms = ms' := by
  refine ⟨eq_of_map_eq fun m hm m' hm' h => ?_, fun h => h ▸ rfl⟩
  obtain ⟨name, operator, value⟩ := m
  obtain ⟨name', operator', value'⟩ := m'
  simp only [Matcher.toJson, obj.injEq, List.cons.injEq, Prod.mk.injEq, text.injEq,
    LooseText.plain.injEq, true_and, and_true] at h
  obtain ⟨hoperator, rfl, rfl⟩ := h
  rw [Matcher.mk.injEq]
  exact ⟨rfl, MatchOperator.symbol_inj (hms _ hm) (hms' _ hm') hoperator, rfl⟩

/-- Expressions with the same object are equal once their children are. -/
lemma eq_of_object {e e' : Expr} (he : e.IsConcrete) (he' : e'.IsConcrete)
    (hchildren : e.children.map toJson = e'.children.map toJson → e.children = e'.children)
    (h : e.object (e.children.map toJson) = e'.object (e'.children.map toJson)) : e = e' := by
  -- two objects of different kinds differ in their types
  cases e <;> cases e' <;>
    simp only [object, children, IsConcrete, obj.injEq, List.cons.injEq, Prod.mk.injEq, text.injEq,
      LooseText.plain.injEq, String.reduceEq, false_and, and_false, true_and, and_true, bool.injEq,
      int.injEq, arr.injEq, strings_inj, intOrNull_inj] at h he he' hchildren
  case vector.vector => simp_all [matchers_inj he he']
  case matrix.matrix => simp_all [matchers_inj he he']
  all_goals simp_all

/-- Different expressions have different objects. -/
lemma toJson_inj {e e' : Expr} (he : Throughout IsConcrete e) (he' : Throughout IsConcrete e')
    (h : e.toJson = e'.toJson) : e = e' := by
  induction e using Expr.inductionOn generalizing e' with
  | step e ih =>
    rw [toJson_eq, toJson_eq] at h
    refine eq_of_object he.self he'.self (eq_of_map_eq fun c hc c' hc' => ?_) h
    exact ih c hc (he.child hc) (he'.child hc')

/-! ### Output -/

/-- The JSON text of an expression is there exactly if the numbers in its object can be written and
there is room for its nesting. -/
lemma yieldsIffBoth_jsonText (limits : Limits) (e : Expr) :
    YieldsIffBoth (jsonText limits e) (e.toJson.isWritable = true)
      (.unexplained (.numeral .writing))
      (e.FitsJson limits) .tooDeep := by
  unfold jsonText
  rw [toJsonWithin_eq]
  split_ifs with hroom
  · have hwrite := (yieldsIffBoth_write limits.writing e.toJson).mapError (r := ViewFault.ofWriting)
    exact hwrite.congr Iff.rfl (and_iff_right hroom).symm
  · exact Or.inr (Or.inr ⟨fun hfits => hroom hfits.1, rfl⟩)

/-- The JSON text of an expression is the indented text of its object. -/
lemma jsonText_eq {limits : Limits} {e : Expr} (hwritable : e.toJson.isWritable = true)
    (hfits : e.FitsJson limits) : jsonText limits e =
      .ok (String.ofList (indented 0 e.toJson)) := by
  rw [jsonText, toJsonWithin_eq, if_pos hfits.1]
  dsimp only
  rw [write_eq_of_le hwritable hfits.2]
  rfl

/-- The JSON output of an expression with writable numbers is its object's text as long as there is
room for its nesting, and a reader with room for it reads the object from the text; where there is
no room the output fails for that.  No other expression has that object. -/
theorem prepare_json_recovers {e : Expr} (limits : Limits) (theme : String)
    (hconcrete : Throughout IsConcrete e)
    (hintegers : Throughout (fun m => ∀ n ∈ m.integers, Text.isWritable n = true) e) :
    (e.FitsJson limits → ∃ text, OutputFormat.json.prepare limits e false theme =
      .ok [.ofText text] ∧
        ∀ depth, e.toJson.nesting ≤ depth →
          readText Text.readNumeral depth text.toList = .ok e.toJson) ∧
      (¬ e.FitsJson limits → OutputFormat.json.prepare limits e false theme = .error .tooDeep) ∧
      e.toJson.nesting ≤ 2 * e.height + 1 ∧
      ∀ e', Throughout IsConcrete e' → e'.toJson = e.toJson → e' = e := by
  have hreadable := readable_toJson hintegers
  refine ⟨fun hfits => ⟨String.ofList (indented 0 e.toJson), ?_, fun depth hdepth => ?_⟩,
    fun hfits => ?_, e.nesting_toJson_le, fun e' hconcrete' h => toJson_inj hconcrete' hconcrete h⟩
  · rw [OutputFormat.prepare, jsonText_eq hreadable.isWritable hfits]
    rfl
  · rw [String.toList_ofList]
    exact readText_indented (hreadable.of_nesting_le hdepth)
  · rw [OutputFormat.prepare,
      (yieldsIffBoth_jsonText limits e).eq_error_right hreadable.isWritable hfits]
    rfl

/-- An aggregation with quotes, backslashes and control characters in its strings. -/
def escapedSum : Expr :=
  .aggregation "sum without (a) (x\x7bl!~\"\\d\u0001\"\x7d[5m] offset -1s)" "sum" ["a\"", "\\"] true
    [.matrix "x\t[5m]" "x" [⟨"l", .notMatching, "\\d\u0001"⟩] 300000 (some (-1000)),
      .subquery "y\n[1h:]" [.vector "y" "y" [] none] (some 3600000) none]

/-- The three levels of the aggregation are written where there is room for them, and not where
there is room for two. -/
theorem escapedSum_prepare_recovers :
    Throughout IsConcrete escapedSum ∧
      Throughout (fun m => ∀ n ∈ m.integers, Text.isWritable n = true) escapedSum ∧
      (∃ text, OutputFormat.json.prepare .usual escapedSum false "" = .ok [.ofText text] ∧
        ∀ depth, escapedSum.toJson.nesting ≤ depth →
          readText Text.readNumeral depth text.toList = .ok escapedSum.toJson) ∧
      OutputFormat.json.prepare { Limits.usual with converting := 2 } escapedSum false "" =
        .error .tooDeep ∧
      ∀ e', Throughout IsConcrete e' → e'.toJson = escapedSum.toJson → e' = escapedSum := by
  have hconcrete : Throughout IsConcrete escapedSum := by
    refine throughout trivial (List.forall_mem_cons.2 ⟨?_, List.forall_mem_singleton.2 ?_⟩)
    · exact throughout_leaf (List.forall_mem_singleton.2 rfl) rfl
    · refine throughout trivial (List.forall_mem_singleton.2 ?_)
      exact throughout_leaf (List.forall_mem_nil _) rfl
  have hintegers : Throughout (fun m => ∀ n ∈ m.integers, Text.isWritable n = true) escapedSum := by
    refine throughout (List.forall_mem_nil _)
      (List.forall_mem_cons.2 ⟨?_, List.forall_mem_singleton.2 ?_⟩)
    · exact throughout_leaf (by decide +kernel) rfl
    · refine throughout (by decide +kernel) (List.forall_mem_singleton.2 ?_)
      exact throughout_leaf (List.forall_mem_nil _) rfl
  obtain ⟨hprinted, -, -, hunique⟩ := prepare_json_recovers .usual "" hconcrete hintegers
  obtain ⟨-, hrefused, -⟩ :=
    prepare_json_recovers { Limits.usual with converting := 2 } "" hconcrete hintegers
  refine ⟨hconcrete, hintegers, hprinted (fitsJson_of_height_le ?_ ?_), hrefused ?_, hunique⟩
  · decide +kernel
  · decide +kernel
  · exact fun hfits => absurd hfits.1 (by decide +kernel)

end Expr

end PromqlGuide
