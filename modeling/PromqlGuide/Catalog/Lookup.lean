import PromqlGuide.Catalog.Scenarios
import PromqlGuide.Catalog.Functions
import PromqlGuide.Catalog.Concepts
import PromqlGuide.Text.Lowercase
import PromqlGuide.Text.Blank

/-!
Looking entries up in the catalogs, and filtering the functions.

Main statements: an entry that is found has the name that was asked for
(`Catalog.scenario?_id`, `Catalog.concept?_id`), and filtering keeps the order
(`Catalog.findFunctions_sublist`).
-/
namespace PromqlGuide.Catalog

/-- The catalogs. -/
inductive Shelf where
  | scenarios
  | functions
  | concepts
  deriving Repr, DecidableEq

/-- An entry that is in no catalog. -/
structure Missing where
  shelf : Shelf
  wanted : String
  deriving Repr, DecidableEq

/-- What messages call an entry of a catalog. -/
def Shelf.noun : Shelf → String
  | scenarios => "scenario"
  | functions => "function"
  | concepts => "concept"

/-- The names of all entries, in order. -/
def Shelf.names : Shelf → List String
  | scenarios => Catalog.scenarios.map (·.id)
  | functions => Catalog.functions.map (·.name)
  | concepts => Catalog.concepts.map (·.id)

/-- The message about a missing entry. -/
def Missing.message (m : Missing) : String :=
  let noun := m.shelf.noun
  let wanted := m.wanted
  let available := String.intercalate ", " m.shelf.names
  s!"Unknown {noun}: {wanted}. Available {noun}s: {available}"

/-- The scenario with the given id. -/
def scenario? (id : String) : Option Scenario := scenarios.find? (·.id == id)

/-- The concept with the given id. -/
def concept? (id : String) : Option Concept := concepts.find? (·.id == id)

/-- The text without a pair of parentheses at its end. -/
def withoutParentheses (cs : List Char) : List Char :=
  if [')', '('].isPrefixOf cs.reverse then cs.dropLast.dropLast else cs

/-- The name of a function as it is looked up: without whitespace around it, without parentheses
behind it, and in small letters. -/
def functionKey (name : String) : String :=
  Text.lowercase (String.ofList (withoutParentheses (Text.trimmed name.toList)))

/-- The function with the given name. -/
def function? (name : String) : Option FunctionEntry :=
  functions.find? (·.name == functionKey name)

/-- A scenario that is found has the id that was asked for. -/
theorem scenario?_id {id : String} {s : Scenario} (h : scenario? id = some s) : s.id = id := by
  simpa using List.find?_some h

/-- A concept that is found has the id that was asked for. -/
theorem concept?_id {id : String} {c : Concept} (h : concept? id = some c) : c.id = id := by
  simpa using List.find?_some h

/-- Whether one text occurs in another. -/
def occursIn (needle : List Char) : List Char → Bool
  | [] => needle.isEmpty
  | c :: rest => needle.isPrefixOf (c :: rest) || occursIn needle rest

/-- Whether a text occurs in another one in any letter case; `needle` is in small letters. -/
def mentions (needle text : String) : Bool :=
  occursIn needle.toList (Text.lowercase text).toList

/-- The functions of a category whose name or description mentions a text; either condition may be
left out. -/
def findFunctions (category search : Option String) : List FunctionEntry :=
  let needle := Text.lowercase (search.getD "")
  functions.filter fun f =>
    (match category with
      | none => true
      | some c => Text.lowercase f.category == Text.lowercase c) &&
      (mentions needle f.name || mentions needle f.description)

/-- Filtering keeps the order of the catalog. -/
theorem findFunctions_sublist (category search : Option String) :
    (findFunctions category search).Sublist functions := List.filter_sublist

/-- Whether a category has the given name, in any letter case. -/
def isCategory (name : String) : Bool :=
  functionCategories.any fun c => Text.lowercase c == Text.lowercase name

end PromqlGuide.Catalog
