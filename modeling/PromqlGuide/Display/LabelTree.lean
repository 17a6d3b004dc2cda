import PromqlGuide.Display.Markup
import PromqlGuide.Expr.Explain

/-!
The tree view of an expression: one label for every part, with the kind and the text of the part
on its first line and its explanation below. The tree is built from the flat list of explained
parts, by hanging every part below the last one of the level above.

Main statement: hanging a label below the root leaves the labels that are there
(`LabelTree.hang_one`).
-/
namespace PromqlGuide

/-- A tree of labels. -/
structure LabelTree where
  label : StyledText
  children : List LabelTree
  deriving Repr

/-- The name of the style for a kind of expression. -/
def kindStyle (kindName : String) : String :=
  ([("Aggregation", "bold magenta"), ("FunctionCall", "bold cyan"), ("BinaryExpr", "bold yellow"),
      ("VectorSelector", "bold green"), ("MatrixSelector", "bold green"),
      ("Subquery", "bold blue"), ("NumberLiteral", "blue"), ("StringLiteral", "blue"),
      ("ParenExpr", "white"), ("UnaryExpr", "yellow"),
      ("ErrorNode", "bold red")].lookup kindName).getD "white"

namespace LabelTree

/-! ### Building -/

/-- The markup of the label for one explained part, or its plain text where there is no colour. -/
def labelText (color : Bool) (s : Expr.Step) : String :=
  Markup.colorize s.kind (kindStyle s.kind) color ++ " " ++ Markup.colorize s.text "cyan" color ++
    "\n" ++ Markup.colorize s.explanation "dim white" color

/-- The label for one explained part. -/
def labelOf (color : Bool) (s : Expr.Step) : Option StyledText :=
  let text := (labelText color s).toList
  if color then Markup.read text else some (.ofPlain text)

/-- A tree with one label. -/
def leaf (label : StyledText) : LabelTree := ⟨label, []⟩

/-- Hangs a label at a depth below the root, under the last label of the level above. -/
def hang : Nat → StyledText → LabelTree → LabelTree
  | 0, label, t => ⟨t.label, t.children ++ [leaf label]⟩
  | depth + 1, label, t =>
    match t.children.getLast? with
    | none => ⟨t.label, [leaf label]⟩
    | some last => ⟨t.label, t.children.dropLast ++ [hang depth label last]⟩

/-- At depth zero a label becomes the last child of the root. -/
theorem hang_one (label : StyledText) (t : LabelTree) :
    (hang 0 label t).children = t.children ++ [leaf label] := rfl

/-- The tree of labelled parts in pre-order; the first one is the root. -/
def ofParts : List (Nat × StyledText) → Option LabelTree
  | [] => none
  | (_, root) :: rest =>
    some (rest.foldl (fun t (depth, label) => hang (depth - 1) label t) (leaf root))

/-- The tree view of an expression. -/
def ofExpr (limits : Limits) (color : Bool) (e : Expr) : Except ViewFault LabelTree := do
  let steps ← e.steps limits
  let parts := steps.mapM fun s => (labelOf color s).map fun label => (s.depth, label)
  match parts.bind ofParts with
  | some t => .ok t
  | none => .error .unreadable

/-! ### Drawing -/

/-- The guide in front of the first line of a label. -/
def firstGuide (isLast : Bool) : List Char :=
  if isLast then ['└', '─', '─', ' '] else ['├', '─', '─', ' ']

/-- The guide in front of all that follows. -/
def laterGuide (isLast : Bool) : List Char :=
  if isLast then [' ', ' ', ' ', ' '] else ['│', ' ', ' ', ' ']

/-- A way of writing guides and lines. -/
structure Pen where
  guide : List Char → List Char
  line : StyledText → List Char

/-- Writes text without styles. -/
def Pen.plain : Pen := ⟨id, StyledText.plain⟩

/-- Writes text with its styles for a terminal, and dim guides. -/
def Pen.ansi : Pen := ⟨(Style.ofName "dim").ansi, StyledText.ansiLine⟩

/-- The lines of a label, the first with its guides and the others with theirs. -/
def labelLines (pen : Pen) (first later : List Char) (label : StyledText) : List (List Char) :=
  match label.lines.map pen.line with
  | [] => []
  | l :: rest => (first ++ l) :: rest.map (later ++ ·)

mutual

/-- The lines of a tree, with guides before the first line and before the others. -/
def draw (pen : Pen) (first later : List Char) : LabelTree → List (List Char)
  | ⟨label, children⟩ => labelLines pen first later label ++ drawAll pen later children

/-- The lines of the trees below a label. -/
def drawAll (pen : Pen) (guides : List Char) : List LabelTree → List (List Char)
  | [] => []
  | t :: rest =>
    draw pen (guides ++ pen.guide (firstGuide rest.isEmpty))
      (guides ++ pen.guide (laterGuide rest.isEmpty)) t ++ drawAll pen guides rest

end

/-- The tree as text; every line is ended. -/
def render (pen : Pen) (t : LabelTree) : String :=
  String.ofList ((draw pen [] [] t).flatMap (· ++ ['\n']))

end LabelTree

end PromqlGuide
