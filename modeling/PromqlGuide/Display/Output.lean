import PromqlGuide.Display.LabelTree
import PromqlGuide.Expr.ToJson
import PromqlGuide.Json.Writer

/-!
Output of an expression in one of three formats: its explanation, its tree view, or JSON. Output is
first prepared as operations, which are then carried out as calls on a console, and what the calls
write is text.

Main statements: a format is found under its own name (`OutputFormat.ofName?_name`), and a kind of
operation has the name by which it is found (`OperationKind.name_ofName`).
-/
namespace PromqlGuide

/-- Whether there is colour; without a choice there is none. -/
def usesColor (choice : Option Bool) : Bool := choice.getD false

/-! ### Formats -/

/-- The output formats. -/
inductive OutputFormat where
  | text
  | tree
  | json
  deriving Repr, DecidableEq

namespace OutputFormat

/-- The name of a format. -/
def name : OutputFormat → String
  | text => "text"
  | tree => "tree"
  | json => "json"

/-- All formats, in the order in which they are listed. -/
def all : List OutputFormat := [text, tree, json]

/-- The format with the given name; whitespace around it and letter case do not count. -/
def ofName? (name : String) : Option OutputFormat :=
  let wanted := Text.lowercase (Text.trim name)
  all.find? fun f => f.name == wanted

/-- An output format is found by its name. -/
theorem ofName?_name (f : OutputFormat) : ofName? f.name = some f := by
  cases f <;> decide +kernel

end OutputFormat

/-- A format that there is not. -/
structure UnsupportedFormat where
  name : String
  deriving Repr, DecidableEq

namespace UnsupportedFormat

/-- The message about the format. -/
def message (u : UnsupportedFormat) : String :=
  let name := u.name
  let supported := String.intercalate ", " (OutputFormat.all.map OutputFormat.name)
  s!"Unsupported output format '{name}'. Expected one of: {supported}"

/-- The record logged about the format. -/
def record (u : UnsupportedFormat) : String := "Rejected output format " ++ Text.quoted u.name

end UnsupportedFormat

/-- The format with the given name. -/
def OutputFormat.ofName (name : String) : Except UnsupportedFormat OutputFormat :=
  match ofName? name with
  | some f => .ok f
  | none => .error ⟨name⟩

/-! ### Operations -/

/-- The kinds of operation; all others print as `console` does. -/
inductive OperationKind where
  | plain
  | styled
  | console
  | other (name : String)
  deriving Repr, DecidableEq

namespace OperationKind

/-- The name of the kind. -/
def name : OperationKind → String
  | plain => "plain_write"
  | styled => "print_output"
  | console => "console_print"
  | other name => name

/-- The kind with the given name. -/
def ofName (name : String) : OperationKind :=
  if name = "plain_write" then plain
  else if name = "print_output" then styled
  else if name = "console_print" then console
  else other name

/-- A kind that is found by a name has that name. -/
theorem name_ofName (given : String) : (ofName given).name = given := by
  by_cases hplain : given = "plain_write"
  · rw [hplain]; rfl
  · by_cases hstyled : given = "print_output"
    · rw [hstyled]; rfl
    · by_cases hconsole : given = "console_print"
      · rw [hconsole]; rfl
      · simp only [ofName, hplain, hstyled, hconsole, if_false, name]

end OperationKind

/-- One step of output. `Drawing` is the type of what can be printed besides text. -/
structure Operation (Drawing : Type) where
  kind : OperationKind
  text : Option String
  drawing : Option Drawing
  markup : Bool
  color : Bool
  lineEnd : String
  deriving Repr

/-- An operation that writes plain text. -/
def Operation.ofText {Drawing : Type} (text : String) : Operation Drawing :=
  ⟨.plain, some text, none, false, false, "\n"⟩

/-- An operation that prints a drawing. -/
def Operation.ofDrawing {Drawing : Type} (drawing : Drawing) : Operation Drawing :=
  ⟨.console, none, some drawing, false, false, "\n"⟩

/-- An operation that prints text, as markup where there is colour. -/
def Operation.ofMarkup {Drawing : Type} (text : String) (color : Bool) : Operation Drawing :=
  ⟨.styled, some text, none, false, color, "\n"⟩

/-- A call on a console: text written directly, the buffer flushed, a drawing printed, text printed
with or without reading its markup, or markup printed without wrapping. -/
inductive ConsoleCall (Drawing : Type) where
  | write (text : String)
  | flush
  | draw (drawing : Drawing)
  | print (text : String) (markup : Bool)
  | printMarkup (text lineEnd : String)
  deriving Repr

/-- The calls that carry out an operation. -/
def Operation.calls {Drawing : Type} (o : Operation Drawing) : List (ConsoleCall Drawing) :=
  match o.kind with
  | .plain =>
    match o.text with
    | none => []
    | some text => [.write (text ++ "\n"), .flush]
  | .styled =>
    match o.text with
    | none => []
    | some text =>
      if o.color then [.printMarkup text o.lineEnd] else [.write (text ++ o.lineEnd), .flush]
  | _ =>
    match o.drawing with
    | some drawing => [.draw drawing]
    | none => [.print (o.text.getD "") o.markup]

/-! ### Expressions -/

/-- What the output of an expression can hold besides text: its tree view, or code to be highlighted
with a theme. -/
inductive Drawing where
  | tree (t : LabelTree)
  | code (text theme : String)
  deriving Repr

/-- The theme for highlighted code where none is named. -/
def defaultTheme : String := "github-dark"

/-- The theme for highlighted code, which is the default where none is named. -/
def themeOrDefault (theme : String) : String :=
  let wanted := Text.trim theme
  if wanted.isEmpty then defaultTheme else wanted

/-- What keeps a JSON text from being written as what keeps a view from being there. -/
def ViewFault.ofWriting : Json.WriteFault → ViewFault
  | .numeral cause => .unexplained (.numeral cause)
  | .tooDeep => .tooDeep

/-- The indented JSON text of an expression. -/
def jsonText (limits : Limits) (e : Expr) : Except ViewFault String :=
  match e.toJsonWithin limits.converting with
  | none => .error .tooDeep
  | some object => (Json.write limits.writing object).mapError .ofWriting

/-- Prepares the output of an expression. -/
def OutputFormat.prepare (format : OutputFormat) (limits : Limits) (e : Expr) (color : Bool)
    (theme : String) : Except ViewFault (List (Operation Drawing)) :=
  match format with
  | text =>
    match e.explain with
    | .ok explanation => .ok [.ofText explanation]
    | .error cause => .error (.unexplained cause)
  | tree =>
    (LabelTree.ofExpr limits color e).map fun t => [.ofDrawing (.tree t)]
  | json =>
    (jsonText limits e).map fun dump =>
      if color then [.ofDrawing (.code dump (themeOrDefault theme))] else [.ofText dump]

/-- The text that markup prints as on a terminal; markup that cannot be read is printed as it is. -/
def terminalText (markup : String) : String :=
  match Markup.read markup.toList with
  | some t => String.ofList t.ansi
  | none => markup

/-- The text that a drawing prints as. -/
def Drawing.render (color : Bool) : Drawing → String
  | tree t => t.render (if color then .ansi else .plain)
  | code text _ => text ++ "\n"

/-- The text that a call writes. -/
def ConsoleCall.text (color : Bool) : ConsoleCall Drawing → String
  | write text => text
  | flush => ""
  | draw drawing => drawing.render color
  | print text markup => (if markup then terminalText text else text) ++ "\n"
  | printMarkup text lineEnd => terminalText text ++ lineEnd

/-- The text that operations write. -/
def writtenText (color : Bool) (operations : List (Operation Drawing)) : String :=
  String.join ((operations.flatMap Operation.calls).map (ConsoleCall.text color))

end PromqlGuide
