import PromqlGuide.Display.LabelTree
import PromqlGuide.Proofs.Display.Markup
import PromqlGuide.Proofs.Expr.Height

/-!
# The views of an expression

An expression is shown as a list of explained parts, as a tree of labels, and as nested JSON
objects.  All three have the shape of the expression: the list goes through its parts in pre-order,
the tree that is rebuilt from the list has a label for each part under that of the part around it,
and the objects are nested as the parts are.

There are such views if every part can be explained and there is room for all levels: the operators
of the matchers are known, no duration that an explanation names has too many digits, and the
expression is not nested too deep.

Main statement: the three views have the shape of the expression (`Expr.views_agree`).
-/
namespace PromqlGuide

/-! ### Explanations -/

/-- Whether the query language has the operator. -/
def MatchOperator.IsKnown (o : MatchOperator) : Prop :=
  o ∈ [equal, notEqual, matching, notMatching]

instance (o : MatchOperator) : Decidable o.IsKnown := inferInstanceAs (Decidable (o ∈ _))

/-- Whether a duration, cut off to the largest unit that it reaches, has few enough digits. -/
def Duration.IsShowable (ms : Int) : Prop :=
  Text.isWritable (ms / (displayUnit ms).milliseconds) = true

instance (ms : Int) : Decidable (Duration.IsShowable ms) := inferInstanceAs (Decidable (_ = true))

/-- A matcher with a known operator has an explanation. -/
lemma Matcher.exists_explain {m : Matcher} (hm : m.operator.IsKnown) : ∃ s, m.explain = .ok s := by
  obtain ⟨relation, hrelation⟩ : ∃ s, m.operator.relation = .ok s := by
    simp only [MatchOperator.IsKnown, List.mem_cons, List.not_mem_nil, or_false] at hm
    rcases hm with h | h | h | h <;> (rw [h]; exact ⟨_, rfl⟩)
  exact ⟨_, by rw [Matcher.explain, hrelation]; rfl⟩

namespace Expr

/-- The matchers of an expression. -/
def matchers : Expr → List Matcher
  | vector _ _ matchers _ | matrix _ _ matchers _ _ => matchers
  | _ => []

/-- The durations that the explanation of an expression names; shifts in time are named without
their sign. -/
def shownDurations : Expr → List Int
  | vector _ _ _ offset => offset.toList.map fun ms => (ms.natAbs : Int)
  | matrix _ _ _ range offset => range :: offset.toList.map fun ms => (ms.natAbs : Int)
  | _ => []

/-- Whether the matchers of an expression have operators of the query language. -/
def HasKnownOperators (e : Expr) : Prop := ∀ m ∈ e.matchers, m.operator.IsKnown

/-- Whether the durations in the explanation of an expression can be written. -/
def IsShown (e : Expr) : Prop := ∀ ms ∈ e.shownDurations, Duration.IsShowable ms

instance (e : Expr) : Decidable e.IsShown := inferInstanceAs (Decidable (∀ ms ∈ _, _))

/-- Whether an expression can be explained. -/
structure IsExplainable (e : Expr) : Prop where
  known : e.HasKnownOperators
  shown : e.IsShown

/-- A duration is named by its number of units and the unit, if this number can be written. -/
lemma durationWords_eq (ms : Int) : durationWords ms =
    if Duration.IsShowable ms then
      .ok (toString (ms / (Duration.displayUnit ms).milliseconds) ++
        String.ofList (Duration.displayUnit ms).letters)
    else .error (.numeral .writing) := by
  split_ifs with hshow
  · have hwrite := Text.writeNumeral_eq_ok_iff.2 ⟨hshow, rfl⟩
    rw [durationWords, Duration.display, hwrite]
    rfl
  · have hwrite : Text.writeNumeral (ms / (Duration.displayUnit ms).milliseconds) =
      .error .writing :=
      if_neg hshow
    rw [durationWords, Duration.display, hwrite]
    rfl

/-- A duration is put into words exactly if it can be shown. -/
lemma yieldsIff_durationWords (ms : Int) :
    YieldsIff (durationWords ms) (Duration.IsShowable ms) (.numeral .writing) := by
  rw [durationWords_eq]
  split_ifs with hshow
  · exact Or.inl ⟨hshow, _, rfl⟩
  · exact Or.inr ⟨hshow, rfl⟩

/-- A shift in time is named by a duration, behind words that tell its direction. -/
lemma offsetWords_some (ms : Int) : ∃ intro ∈ [", offset forward by ", ", offset by "],
    offsetWords (some ms) = (durationWords ms.natAbs).map (intro ++ ·) := by
  dsimp only [offsetWords]
  by_cases hneg : ms < 0
  · have habs : (ms.natAbs : Int) = -ms := by omega
    exact ⟨", offset forward by ", by simp, by rw [if_pos hneg, habs]⟩
  · have habs : (ms.natAbs : Int) = ms := by omega
    exact ⟨", offset by ", by simp, by rw [if_neg hneg, habs]⟩

/-- An offset is put into words exactly if its size can be shown, if there is one. -/
lemma yieldsIff_offsetWords (offset : Option Int) :
    YieldsIff (offsetWords offset)
      (∀ ms ∈ offset.toList.map fun ms => (ms.natAbs : Int), Duration.IsShowable ms)
      (.numeral .writing) := by
  cases offset with
  | none => exact Or.inl ⟨List.forall_mem_nil _, _, rfl⟩
  | some ms =>
    obtain ⟨intro, -, hwords⟩ := offsetWords_some ms
    rw [hwords, Option.toList_some, List.map_singleton, List.forall_mem_singleton]
    exact (yieldsIff_durationWords _).map

/-- With known operators, an expression is explained exactly if the durations that it shows can be
written. -/
lemma yieldsIff_explain {e : Expr} (hknown : e.HasKnownOperators) :
    YieldsIff e.explain e.IsShown (.numeral .writing) := by
  cases e with
  | vector text name matchers offset =>
    have hconditions : matchers.mapM Matcher.explain = .ok (matchers.map _) :=
      mapM_eq_pure fun m hm => eq_ok_toOption (Matcher.exists_explain (hknown m hm)) ""
    change YieldsIff (vectorWords name matchers offset) _ _
    rw [vectorWords, hconditions]
    exact (yieldsIff_offsetWords offset).map
  | matrix text name matchers range offset =>
    rw [IsShown, shownDurations, List.forall_mem_cons]
    exact (yieldsIff_durationWords range).bind fun _ => (yieldsIff_offsetWords offset).map
  | _ => exact Or.inl ⟨List.forall_mem_nil _, _, rfl⟩

/-- The explanation of an expression that can be explained. -/
def explanation (e : Expr) : String := e.explain.toOption.getD ""

/-- An expression that can be explained has its explanation. -/
lemma explain_eq {e : Expr} (h : e.IsExplainable) : e.explain = .ok e.explanation :=
  eq_ok_toOption ((yieldsIff_explain h.known).exists_ok h.shown) ""

/-- Whether an expression has its explanation. -/
def IsExplained (e : Expr) : Prop := e.explain = .ok e.explanation

/-- If all parts can be explained, all have their explanations. -/
lemma isExplained_of_explainable {e : Expr} (h : Throughout IsExplainable e) :
    Throughout IsExplained e := fun depth place m hm => explain_eq (h depth place m hm)

/-! ### The list of explained parts -/

/-- The step for a part that can be explained. -/
def stepOf (part : Nat × Expr) : Step :=
  ⟨part.1, part.2.kindName, part.2.text, part.2.explanation⟩

/-- Whether steps explain the parts of an expression, one after the other in pre-order. -/
def Explains (e : Expr) (steps : List Step) : Prop :=
  ∃ parts, e.GoesThrough parts ∧
    List.Forall₂ (fun part s => s.depth = part.1 ∧ s.kind = part.2.kindName ∧ s.text = part.2.text ∧
      part.2.explain = .ok s.explanation) parts steps

/-- The step of an explained part that is not too deep. -/
lemma step_eq_ok_iff {levels depth : Nat} {e : Expr} :
    (∃ s, step levels depth e = .ok s) ↔ depth < levels ∧ e.IsExplained := by
  unfold step
  split_ifs with hdepth
  · cases hexplain : e.explain with
    | error cause =>
      refine iff_of_false nofun fun h => ?_
      cases hexplain.symm.trans h.2
    | ok explanation =>
      have hexplained : e.IsExplained := eq_ok_toOption ⟨explanation, hexplain⟩ ""
      exact iff_of_true ⟨_, rfl⟩ ⟨hdepth, hexplained⟩
  · exact iff_of_false nofun fun h => hdepth h.1

/-- With all parts explained and room for all levels, there is a step for each part. -/
lemma steps_of_explained {limits : Limits} {e : Expr} (h : Throughout IsExplained e)
    (hroom : e.height ≤ limits.explaining) : e.steps limits = .ok ((e.preorder 0).map stepOf) := by
  refine mapM_eq_pure fun part hpart => ?_
  obtain ⟨depth, m⟩ := part
  change step limits.explaining depth m = .ok (stepOf (depth, m))
  rw [step, if_pos (height_le_iff_preorder.1 hroom _ hpart), h 0 depth m hpart]
  rfl

/-- Where there is a list of explained parts, all parts have their explanations, and there was room
for all levels. -/
lemma explained_of_steps {limits : Limits} {e : Expr} {steps : List Step}
    (h : e.steps limits = .ok steps) : Throughout IsExplained e ∧ e.height ≤ limits.explaining := by
  have hpart : ∀ part ∈ e.preorder 0, part.1 < limits.explaining ∧ part.2.IsExplained := by
    intro part hpart
    obtain ⟨s, -, hs⟩ := exists_mem_of_forall₂ (forall₂_of_mapM_eq_ok h) hpart
    exact step_eq_ok_iff.1 ⟨s, hs⟩
  exact ⟨throughout_iff_preorder.2 fun part hm => (hpart part hm).2,
    height_le_iff_preorder.2 fun part hm => (hpart part hm).1⟩

/-- With known operators, all parts are explained exactly if the durations that they show can be
written and there is room for all levels. -/
lemma yieldsIffBoth_steps (limits : Limits) {e : Expr} (hknown : Throughout HasKnownOperators e) :
    YieldsIffBoth (e.steps limits) (Throughout IsShown e) (.unexplained (.numeral .writing))
      (e.height ≤ limits.explaining) .tooDeep := by
  have hstep : ∀ part ∈ e.preorder 0,
      YieldsIffBoth (step limits.explaining part.1 part.2) part.2.IsShown
        (.unexplained (.numeral .writing)) (part.1 < limits.explaining) .tooDeep := by
    rintro ⟨depth, m⟩ hm
    unfold step
    split_ifs with hdepth
    · rcases yieldsIff_explain (hknown 0 depth m hm) with ⟨hshown, words, hwords⟩ | ⟨hnot, herror⟩
      · exact Or.inl ⟨hshown, hdepth, _, by rw [hwords]; rfl⟩
      · exact Or.inr (Or.inl ⟨hnot, by rw [herror]; rfl⟩)
    · exact Or.inr (Or.inr ⟨hdepth, rfl⟩)
  exact (YieldsIffBoth.mapM hstep).congr throughout_iff_preorder.symm height_le_iff_preorder.symm

/-- The steps for all parts explain the expression. -/
lemma explains_preorder {e : Expr} (h : Throughout IsExplainable e) :
    e.Explains ((e.preorder 0).map stepOf) := by
  refine ⟨e.preorder 0, e.preorder_goesThrough, ?_⟩
  rw [List.forall₂_map_right_iff, List.forall₂_same]
  rintro ⟨depth, m⟩ hm
  exact ⟨rfl, rfl, rfl, explain_eq (h 0 depth m hm)⟩

end Expr

/-! ### The tree of labels -/

namespace LabelTree

open Markup

/-- The label of a part that can be explained. -/
def labelFor (color : Bool) (e : Expr) : StyledText :=
  (labelOf color (Expr.stepOf (0, e))).getD (.ofPlain [])

/-- Whether a tree is an expression with a label for each part: the label that the kind, the text
and the explanation of the part make. -/
inductive Depicts (color : Bool) : LabelTree → Expr → Prop where
  | node {t : LabelTree} {e : Expr} {explanation : String} (hexplain : e.explain = .ok explanation)
      (hlabel : ∀ depth, labelOf color ⟨depth, e.kindName, e.text, explanation⟩ = some t.label)
      (hchildren : List.Forall₂ (Depicts color) t.children e.children) : Depicts color t e

/-- The tree of the labels of all parts. -/
def ofLabels (label : Expr → StyledText) : Expr → LabelTree :=
  Expr.fold fun e below => ⟨label e, below⟩

/-- A tree of labels has the trees of the children below the label. -/
lemma ofLabels_eq (label : Expr → StyledText) (e : Expr) :
    ofLabels label e = ⟨label e, e.children.map (ofLabels label)⟩ := by
  unfold ofLabels
  rw [Expr.fold_eq]

/-- Hangs labels at their depths below the root, one after the other. -/
def hangAll (label : Expr → StyledText) (t : LabelTree) (parts : List (Nat × Expr)) : LabelTree :=
  parts.foldl (fun t part => hang part.1 (label part.2) t) t

/-- Labels that are one deeper hang below the last child. -/
lemma hangAll_succ (label : Expr → StyledText) (root : StyledText) (before : List LabelTree)
    (last : LabelTree) (parts : List (Nat × Expr)) :
    hangAll label ⟨root, before ++ [last]⟩ (parts.map fun (k, m) => (k + 1, m)) =
      ⟨root, before ++ [hangAll label last parts]⟩ := by
  induction parts generalizing last with
  | nil => rfl
  | cons part parts ih =>
    have hhang : hang (part.1 + 1) (label part.2) ⟨root, before ++ [last]⟩ =
        ⟨root, before ++ [hang part.1 (label part.2) last]⟩ := by
      simp [hang]
    rw [List.map_cons, hangAll, List.foldl_cons, hhang]
    exact ih _

/-- Expressions hung one after the other add their trees if each adds its tree. -/
lemma hangAll_flatMap {label : Expr → StyledText} {cs : List Expr}
    (hcs : ∀ c ∈ cs, ∀ root before,
      hangAll label ⟨root, before⟩ (c.preorder 0) = ⟨root, before ++ [ofLabels label c]⟩)
    (root : StyledText) (before : List LabelTree) :
    hangAll label ⟨root, before⟩ (cs.flatMap fun c => c.preorder 0) =
      ⟨root, before ++ cs.map (ofLabels label)⟩ := by
  induction cs generalizing before with
  | nil => simp [hangAll]
  | cons c cs ih =>
    rw [List.forall_mem_cons] at hcs
    rw [List.flatMap_cons, hangAll, List.foldl_append, ← hangAll, ← hangAll, hcs.1, ih hcs.2,
      List.append_assoc]
    rfl

/-- One level deeper the parts are the same. -/
lemma flatMap_preorder_one (cs : List Expr) :
    (cs.flatMap fun c => c.preorder 1) =
      (cs.flatMap fun c => c.preorder 0).map fun (k, m) => (k + 1, m) := by
  rw [List.map_flatMap]
  exact List.flatMap_congr fun c _ => c.preorder_succ 0

/-- Hanging the labels of an expression adds its tree as the last child. -/
lemma hangAll_preorder (label : Expr → StyledText) (e : Expr) (root : StyledText)
    (before : List LabelTree) :
    hangAll label ⟨root, before⟩ (e.preorder 0) = ⟨root, before ++ [ofLabels label e]⟩ := by
  induction e using Expr.inductionOn generalizing root before with
  | step e ih =>
    have hroot : hang 0 (label e) ⟨root, before⟩ = ⟨root, before ++ [leaf (label e)]⟩ := rfl
    rw [Expr.preorder_eq, hangAll, List.foldl_cons, ← hangAll, flatMap_preorder_one, hroot,
      hangAll_succ, leaf, hangAll_flatMap ih, ofLabels_eq, List.nil_append]

/-- From the labels of an expression in pre-order its tree is built. -/
lemma ofParts_preorder (label : Expr → StyledText) (e : Expr) :
    ofParts ((e.preorder 0).map fun part => (part.1, label part.2)) = some (ofLabels label e) := by
  have hbelow : hangAll label (leaf (label e)) (e.children.flatMap fun c => c.preorder 0) =
      ofLabels label e := by
    rw [leaf, hangAll_flatMap fun c _ => hangAll_preorder label c, ofLabels_eq, List.nil_append]
  rw [Expr.preorder_eq, List.map_cons, ofParts, flatMap_preorder_one, List.map_map, List.foldl_map,
    ← hbelow]
  rfl

/-! ### Labels -/

/-- The style of every kind of expression can be written in a tag. -/
lemma isOpening_kindStyle (e : Expr) : IsOpening (kindStyle e.kindName).toList := by
  cases e <;> (dsimp only [Expr.kindName]; decide +kernel)

/-- The markup of a label can be read. -/
lemma exists_labelOf (color : Bool) (part : Nat × Expr) :
    ∃ label, labelOf color (Expr.stepOf part) = some label := by
  obtain ⟨depth, e⟩ := part
  cases color with
  | false => exact ⟨_, rfl⟩
  | true =>
    have htext : (labelText true (Expr.stepOf (depth, e))).toList =
        styled (kindStyle e.kindName).toList e.kindName.toList ++ ([' '] ++
          (styled "cyan".toList e.text.toList ++ (['\n'] ++
            styled "dim white".toList e.explanation.toList))) := by
      simp [labelText, colorize, Expr.stepOf]
    have hcyan : IsOpening "cyan".toList := by decide +kernel
    have hdim : IsOpening "dim white".toList := by decide +kernel
    have hspace : ReadsOn [' '] := readsOn_plain (by decide) (by decide)
    have hline : ReadsOn ['\n'] := readsOn_plain (by decide) (by decide)
    have hreads : ReadsOn (labelText true (Expr.stepOf (depth, e))).toList := by
      rw [htext]
      exact (readsOn_styled (isOpening_kindStyle e) _).append
        (hspace.append ((readsOn_styled hcyan _).append (hline.append (readsOn_styled hdim _))))
    exact hreads.exists_read

/-- The label of a part is the one that its kind, its text and its explanation make. -/
lemma labelOf_stepOf (color : Bool) (part : Nat × Expr) :
    labelOf color (Expr.stepOf part) = some (labelFor color part.2) := by
  obtain ⟨label, hlabel⟩ := exists_labelOf color part
  have hfor : labelOf color (Expr.stepOf (0, part.2)) = some label := hlabel
  rw [hlabel, labelFor, hfor, Option.getD_some]

/-- The tree of the labels of an expression depicts it. -/
lemma depicts_ofLabels (color : Bool) {e : Expr} (h : Expr.Throughout Expr.IsExplainable e) :
    Depicts color (ofLabels (labelFor color) e) e := by
  induction e using Expr.inductionOn with
  | step e ih =>
    rw [ofLabels_eq]
    refine .node (Expr.explain_eq h.self) (fun depth => labelOf_stepOf color (depth, e)) ?_
    rw [List.forall₂_map_left_iff, List.forall₂_same]
    exact fun c hc => ih c hc (h.child hc)

/-- The tree view of an expression is the tree of its labels. -/
lemma ofExpr_of_explained {limits : Limits} (color : Bool) {e : Expr}
    (h : Expr.Throughout Expr.IsExplained e) (hroom : e.height ≤ limits.explaining) :
    ofExpr limits color e = .ok (ofLabels (labelFor color) e) := by
  have hparts : ((e.preorder 0).map Expr.stepOf).mapM
      (fun s => (labelOf color s).map fun label => (s.depth, label)) =
        some ((e.preorder 0).map fun part => (part.1, labelFor color part.2)) := by
    rw [List.mapM_map]
    refine mapM_eq_pure fun part _ => ?_
    rw [Function.comp_apply, labelOf_stepOf]
    rfl
  rw [ofExpr, Expr.steps_of_explained h hroom]
  simp only [bind, Except.bind, hparts, Option.bind, ofParts_preorder]

/-- There is no tree view of an expression whose parts are not all explained. -/
lemma ofExpr_eq_error {limits : Limits} (color : Bool) {e : Expr} {fault : ViewFault}
    (h : e.steps limits = .error fault) : ofExpr limits color e = .error fault := by
  rw [ofExpr, h]
  rfl

end LabelTree

/-! ### Nested objects -/

namespace Json

mutual

/-- The objects that are nested in a value as children or arguments, each before those inside it,
with their depths and their texts. -/
def outline (depth : Nat) : Json → List (Nat × Option Json)
  | obj members => (depth, lookup "text" members) :: outlineMembers (depth + 1) members
  | _ => []

/-- The objects nested in a list of values. -/
def outlineItems (depth : Nat) : List Json → List (Nat × Option Json)
  | [] => []
  | v :: items => outline depth v ++ outlineItems depth items

/-- The objects nested in the members for children and arguments. -/
def outlineMembers (depth : Nat) : List (String × Json) → List (Nat × Option Json)
  | [] => []
  | (key, arr items) :: members =>
    (if key = "children" ∨ key = "args" then outlineItems depth items else []) ++
      outlineMembers depth members
  | _ :: members => outlineMembers depth members

end

/-- The outline of an array goes through its items one by one. -/
lemma outlineItems_map {α : Type} (depth : Nat) (f : α → Json) (as : List α) :
    outlineItems depth (as.map f) = as.flatMap fun a => outline depth (f a) := by
  induction as with
  | nil => rfl
  | cons a as ih => rw [List.map_cons, outlineItems, ih, List.flatMap_cons]

end Json

namespace Expr

/-- A number, or nothing, has no place in the outline. -/
lemma outlineMembers_intOrNull (depth : Nat) (key : String) (o : Option Int)
    (members : List (String × Json)) :
    Json.outlineMembers depth ((key, intOrNull o) :: members) =
      Json.outlineMembers depth members := by
  cases o <;> rfl

/-- In the object of an expression are nested the objects of its children. -/
lemma outline_object (e : Expr) (depth : Nat) :
    (e.object (e.children.map toJson)).outline depth =
      (depth, some (.str e.text)) :: Json.outlineItems (depth + 1) (e.children.map toJson) := by
  cases e <;>
    simp [object, Json.outline, outlineMembers_intOrNull, Json.outlineMembers, Json.lookup,
      children, text, Json.outlineItems]

/-- The objects nested in the object of an expression are those of its parts, in pre-order. -/
lemma outline_toJson (e : Expr) (depth : Nat) :
    e.toJson.outline depth = (e.preorder depth).map fun part =>
      (part.1, some (.str part.2.text)) := by
  induction e using Expr.inductionOn generalizing depth with
  | step e ih =>
    have hbelow : Json.outlineItems (depth + 1) (e.children.map toJson) =
        (e.children.flatMap fun c => c.preorder (depth + 1)).map
          fun part => (part.1, some (.str part.2.text)) := by
      rw [Json.outlineItems_map, List.map_flatMap]
      exact List.flatMap_congr fun c hc => ih c hc (depth + 1)
    rw [toJson_eq, outline_object, hbelow, preorder_eq, List.map_cons]

/-- With known operators, all parts of an expression are explained exactly if their durations can be
written and there is room for all levels, and there is a tree view exactly if they are.  Then the
list of explained parts goes through the expression in pre-order, the tree view depicts it, and the
objects nested in its JSON object, which is made where there is room for it, have the depths and
texts of the list. -/
theorem views_agree (limits : Limits) (color : Bool) {e : Expr}
    (hknown : Throughout HasKnownOperators e) :
    YieldsIffBoth (e.steps limits) (Throughout IsShown e) (.unexplained (.numeral .writing))
        (e.height ≤ limits.explaining) .tooDeep ∧
      (∀ fault, e.steps limits = .error fault → LabelTree.ofExpr limits color e = .error fault) ∧
      (∀ steps, e.steps limits = .ok steps → e.Explains steps ∧
        (∃ tree, LabelTree.ofExpr limits color e = .ok tree ∧ tree.Depicts color e) ∧
        ∀ object, e.toJsonWithin limits.converting = some object →
          object.outline 0 = steps.map fun s => (s.depth, some (.str s.text))) ∧
      ((∃ object, e.toJsonWithin limits.converting = some object) ↔
        e.height ≤ limits.converting) := by
  have hsteps := yieldsIffBoth_steps limits hknown
  refine ⟨hsteps, fun fault => LabelTree.ofExpr_eq_error color, fun steps h => ?_, ?_⟩
  · obtain ⟨hshown, hroom⟩ := hsteps.of_ok h
    have hexplainable : Throughout IsExplainable e := fun depth place m hm =>
      ⟨hknown depth place m hm, hshown depth place m hm⟩
    have hexplained := isExplained_of_explainable hexplainable
    -- With room for the expression its steps are its pre-order, which both views are compared with.
    obtain rfl : (e.preorder 0).map stepOf = steps :=
      Except.ok.inj ((steps_of_explained hexplained hroom).symm.trans h)
    refine ⟨explains_preorder hexplainable,
      ⟨_, LabelTree.ofExpr_of_explained color hexplained hroom,
        LabelTree.depicts_ofLabels color hexplainable⟩, fun object hobject => ?_⟩
    rw [toJsonWithin_eq] at hobject
    split_ifs at hobject
    cases hobject
    rw [outline_toJson, List.map_map]
    rfl
  · rw [toJsonWithin_eq]
    split_ifs with hroom
    · exact iff_of_true ⟨_, rfl⟩ hroom
    · exact iff_of_false nofun hroom

/-- Parentheses around a negated sum over a range and a bare text, with what looks like markup in
it. -/
def negatedRange : Expr :=
  .paren "(-sum(x[5m]) or [/])"
    [.binary "-sum(x[5m]) or [/]" "or"
      [.unary "-sum(x[5m])" "-"
        [.aggregation "sum(x[5m])" "sum" [] false
          [.matrix "x[5m]" "x" [⟨"l", .matching, "a\\"⟩] 300000 (some (-1000))]],
        .bare "[/]\\"]]

/-- A selector over a range of as many years as can be written. -/
def longestRange : Expr :=
  .matrix "x" "x" [] ((Nat.pow 10 4300 - 1 : Nat) * TimeUnit.year.milliseconds) none

/-- The five levels of the range between parentheses are shown where there is room for five, and not
where there is room for four; the days of the longest range are too many to be written. -/
theorem views_agree_negatedRange :
    Throughout HasKnownOperators negatedRange ∧ Throughout HasKnownOperators longestRange ∧
      (∃ steps tree, negatedRange.steps .usual = .ok steps ∧
        LabelTree.ofExpr .usual true negatedRange = .ok tree ∧ negatedRange.Explains steps ∧
        tree.Depicts true negatedRange ∧
        ∀ object, negatedRange.toJsonWithin Limits.usual.converting = some object →
          object.outline 0 = steps.map fun s => (s.depth, some (.str s.text))) ∧
      negatedRange.steps { Limits.usual with explaining := 4 } = .error .tooDeep ∧
      longestRange.steps .usual = .error (.unexplained (.numeral .writing)) := by
  have hplain : ∀ e : Expr, e.matchers = [] → e.HasKnownOperators := by
    intro e hmatchers
    simp [HasKnownOperators, hmatchers]
  have hknown : Throughout HasKnownOperators negatedRange := by
    refine throughout (hplain _ rfl) (List.forall_mem_singleton.2 ?_)
    refine throughout (hplain _ rfl) (List.forall_mem_cons.2 ⟨?_, List.forall_mem_singleton.2 ?_⟩)
    · refine throughout (hplain _ rfl) (List.forall_mem_singleton.2 ?_)
      refine throughout (hplain _ rfl) (List.forall_mem_singleton.2 ?_)
      exact throughout_leaf (List.forall_mem_singleton.2 (by decide)) rfl
    · exact throughout_leaf (hplain _ rfl) rfl
  have hlongest : Throughout HasKnownOperators longestRange := throughout_leaf (hplain _ rfl) rfl
  have hshown : Throughout IsShown negatedRange := by
    have hnothing : ∀ e : Expr, e.shownDurations = [] → e.IsShown := by
      intro e hdurations
      simp [IsShown, hdurations]
    refine throughout (hnothing _ rfl) (List.forall_mem_singleton.2 ?_)
    refine throughout (hnothing _ rfl) (List.forall_mem_cons.2 ⟨?_, List.forall_mem_singleton.2 ?_⟩)
    · refine throughout (hnothing _ rfl) (List.forall_mem_singleton.2 ?_)
      refine throughout (hnothing _ rfl) (List.forall_mem_singleton.2 ?_)
      exact throughout_leaf (by decide +kernel) rfl
    · exact throughout_leaf (hnothing _ rfl) rfl
  have hlong : ¬ longestRange.IsShown := by decide +kernel
  obtain ⟨hsteps, -, hviews, -⟩ := views_agree .usual true hknown
  obtain ⟨steps, h⟩ := hsteps.exists_ok hshown (by decide +kernel)
  obtain ⟨hexplains, ⟨tree, htree, hdepicts⟩, houtline⟩ := hviews steps h
  refine ⟨hknown, hlongest, ⟨steps, tree, h, htree, hexplains, hdepicts, houtline⟩, ?_, ?_⟩
  · exact (views_agree _ true hknown).1.eq_error_right hshown (by decide +kernel)
  · exact (views_agree .usual true hlongest).1.eq_error_left (fun h => hlong h.self)
      (by decide +kernel)

end Expr

end PromqlGuide
