import PromqlGuide.Catalog.Lookup
import PromqlGuide.Display.Markup
import PromqlGuide.Expr.Explain
import PromqlGuide.Query

/-!
The catalogs as text: lists with one line per entry, and single entries with their queries
explained. With colour the text is markup.
-/
namespace PromqlGuide.CatalogText

/-- Headings and names. -/
def heading (text : String) (color : Bool) : String := Markup.colorize text "bold white" color

/-- Remarks. -/
def remark (text : String) (color : Bool) : String := Markup.colorize text "dim white" color

/-- Queries and parts of queries. -/
def code (text : String) (color : Bool) : String := Markup.colorize text "cyan" color

/-- All other text. -/
def body (text : String) (color : Bool) : String := Markup.escapeText text color

/-- Lines joined to one text. -/
def joinLines (lines : List String) : String := String.intercalate "\n" lines

/-- A text filled up with spaces to a width. -/
def padded (width : Nat) (text : String) : String :=
  text ++ String.ofList (List.replicate (width - text.length) ' ')

/-- The length of the longest text. -/
def widest (texts : List String) : Nat := (texts.map String.length).foldl max 0

/-- The text without line ends at its end. -/
def withoutLastLineEnds (text : String) : String :=
  String.ofList ((text.toList.reverse.dropWhile (· == '\n')).reverse)

/-- The explanation of a query, or why there is none. -/
def explanationOf (limits : Limits) (query : String) : Except Unexplained String :=
  match (Query.parse limits query).outcome with
  | .ok e => e.explain
  | .error f => .ok ("Could not explain query: " ++ f.message)

/-! ### Scenarios -/

/-- The list of scenarios. -/
def scenarioList (scenarios : List Scenario) (color : Bool) : String :=
  if scenarios.isEmpty then "No scenarios"
  else
    let width := widest (scenarios.map (·.id))
    joinLines (scenarios.map fun s =>
      let count := s.samples.length
      let noun := if count = 1 then "query" else "queries"
      heading (padded width s.id) color ++ "  " ++ body s.title color ++ " " ++
        remark s!"({count} {noun})" color)

/-- The lines about one sample query. -/
def sampleLines (limits : Limits) (number : Nat) (s : SampleQuery) (color : Bool) :
    Except Unexplained (List String) := do
  let generated ← explanationOf limits s.query
  let written :=
    match s.explanation with
    | none => []
    | some text => if text.isEmpty then [] else ["     " ++ remark text color]
  .ok ([s!"  {number}. " ++ code s.query color, "     " ++ body s.description color] ++ written ++
    ["     " ++ remark generated color])

/-- One scenario with its objectives and its explained queries. -/
def scenario (limits : Limits) (s : Scenario) (color : Bool) : Except Unexplained String := do
  let samples ← (s.samples.mapIdx fun index q => (index + 1, q)).mapM fun (number, q) =>
    sampleLines limits number q color
  .ok (joinLines
    ([heading s.title color, body s.description color, "",
        heading "Learning objectives:" color] ++
      (s.objectives.map fun o => "  - " ++ body o color) ++
      ["", heading "Sample queries:" color] ++ samples.flatten))

/-! ### Sections -/

/-- A headed section; its lines are indented, and an empty line follows. -/
def titled (title : String) (lines : List String) (color : Bool) : List String :=
  [heading (title ++ ":") color] ++ lines.map ("  " ++ ·) ++ [""]

/-- The section of tips, if there are any. -/
def tipLines (tips : List String) (color : Bool) : List String :=
  if tips.isEmpty then []
  else heading "Tips:" color :: tips.map fun t => "  - " ++ body t color

/-! ### Functions -/

/-- The line about one function in a list. -/
def functionLine (width : Nat) (f : FunctionEntry) (color : Bool) : String :=
  "  " ++ code (padded width (f.name ++ "()")) color ++ "  " ++ body f.description color

/-- The lines of a list of functions; a heading is put where the category changes. -/
def functionLines (width : Nat) (color : Bool) :
    Option String → List FunctionEntry → List String
  | _, [] => []
  | category, f :: rest =>
    let line := functionLine width f color
    let others := functionLines width color (some f.category) rest
    if category = some f.category then line :: others
    else
      (if category.isSome then [""] else []) ++ heading f.category color :: line :: others

/-- The list of functions under the headings of their categories. -/
def functionList (functions : List FunctionEntry) (color : Bool) : String :=
  if functions.isEmpty then "No functions"
  else
    let width := widest (functions.map fun f => f.name ++ "()")
    joinLines (functionLines width color none functions)

/-- One function with its signature, an explained example and tips. -/
def function (limits : Limits) (f : FunctionEntry) (color : Bool) : Except Unexplained String := do
  let generated ← explanationOf limits f.sample
  .ok (withoutLastLineEnds (joinLines
    ([heading (f.name ++ "()") color ++ " " ++ remark ("[" ++ f.category ++ "]") color,
        body f.description color, ""] ++
      titled "Syntax" [code f.signature color] color ++
      titled "How it works" [body f.explanation color] color ++
      titled "Example" [code f.sample color, remark generated color] color ++
      tipLines f.tips color)))

/-! ### Concepts -/

/-- The list of concepts. -/
def conceptList (concepts : List Concept) (color : Bool) : String :=
  if concepts.isEmpty then "No concepts"
  else
    let width := widest (concepts.map (·.id))
    joinLines (concepts.map fun c =>
      heading (padded width c.id) color ++ "  " ++ body c.title color ++ " " ++
        remark ("- " ++ c.description) color)

/-- One concept with its explained query. -/
def concept (limits : Limits) (c : Concept) (color : Bool) : Except Unexplained String := do
  let generated ← explanationOf limits c.query
  .ok (withoutLastLineEnds (joinLines
    ([heading c.title color, body c.description color, ""] ++
      titled "What is it?" [body c.meaning color] color ++
      titled "When to use?" [body c.usage color] color ++
      titled "Example"
        [body c.illustration color, code c.query color, remark generated color] color ++
      tipLines c.tips color)))

end PromqlGuide.CatalogText
