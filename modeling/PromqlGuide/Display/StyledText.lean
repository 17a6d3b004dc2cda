/-!
Text with styles on parts of it, and its form for a terminal.

A style is named by its words, such as `bold white`. On a terminal every stretch between the ends
of styles is written on its own, between the codes that switch its style on and off; text without
style is written as it is.

Main statement: a later style wins over an earlier one where both set a colour
(`Style.overlay_color`).
-/
namespace PromqlGuide

/-- The colours of a terminal. -/
inductive Color where
  | red | green | yellow | blue | magenta | cyan | white
  deriving Repr, DecidableEq

/-- The code that switches a text colour on. -/
def Color.code : Color → Nat
  | red => 31
  | green => 32
  | yellow => 33
  | blue => 34
  | magenta => 35
  | cyan => 36
  | white => 37

/-- How text looks on a terminal. -/
structure Style where
  bold : Bool
  dim : Bool
  color : Option Color
  deriving Repr, DecidableEq

namespace Style

/-- The look of text without style. -/
def plain : Style := ⟨false, false, none⟩

/-- The look of text that has one style and then another on top of it. -/
def overlay (base top : Style) : Style :=
  ⟨base.bold || top.bold, base.dim || top.dim, top.color.or base.color⟩

/-- The colour of the style on top is the one that is seen. -/
theorem overlay_color {base top : Style} {c : Color} (h : top.color = some c) :
    (base.overlay top).color = some c := by
  simp [overlay, h]

/-- The codes that switch the style on. -/
def codes (s : Style) : List Nat :=
  (if s.bold then [1] else []) ++ (if s.dim then [2] else []) ++
    (s.color.map Color.code).toList

/-- The styles by name. -/
def named : List (String × Style) :=
  [("dim", ⟨false, true, none⟩), ("bold white", ⟨true, false, some .white⟩),
    ("dim white", ⟨false, true, some .white⟩), ("cyan", ⟨false, false, some .cyan⟩),
    ("bold magenta", ⟨true, false, some .magenta⟩), ("bold cyan", ⟨true, false, some .cyan⟩),
    ("bold yellow", ⟨true, false, some .yellow⟩), ("bold green", ⟨true, false, some .green⟩),
    ("bold blue", ⟨true, false, some .blue⟩), ("blue", ⟨false, false, some .blue⟩),
    ("white", ⟨false, false, some .white⟩), ("yellow", ⟨false, false, some .yellow⟩),
    ("bold red", ⟨true, false, some .red⟩)]

/-- The style with the given name; unknown names stand for no style. -/
def ofName (name : String) : Style := (named.lookup name).getD plain

/-- Text between the codes of a style; nothing is written for no text. -/
def ansi (s : Style) (text : List Char) : List Char :=
  if text.isEmpty then []
  else if s.codes.isEmpty then text
  else
    '\x1b' :: '[' :: (String.intercalate ";" (s.codes.map toString)).toList ++ 'm' :: text ++
      ['\x1b', '[', '0', 'm']

end Style

/-- The characters from `start` up to but not including `stop` have a style. -/
structure Span where
  start : Nat
  stop : Nat
  style : String
  deriving Repr, DecidableEq

/-- Text with styles on parts of it; of two styles on one part the later one lies on top. -/
structure StyledText where
  plain : List Char
  spans : List Span
  deriving Repr, DecidableEq

namespace StyledText

/-- Characters that cannot be displayed and are left out: bell, backspace, vertical tab, form feed
and carriage return. -/
def isDropped (c : Char) : Bool :=
  c == '\x07' || c == '\x08' || c == '\x0b' || c == '\x0c' || c == '\r'

/-- Text without style. -/
def ofPlain (cs : List Char) : StyledText := ⟨cs.filter (!isDropped ·), []⟩

/-- The text from `start` up to but not including `stop`. -/
def slice (t : StyledText) (start stop : Nat) : StyledText :=
  ⟨(t.plain.drop start).take (stop - start),
    (t.spans.map fun s => ⟨max s.start start - start, min s.stop stop - start, s.style⟩).filter
      fun s => s.start < s.stop⟩

/-- Where the lines of a text begin and end; `start` is where the first one begins and `position`
where reading stands. -/
def lineRanges (start position : Nat) : List Char → List (Nat × Nat)
  | [] => [(start, position)]
  | c :: rest =>
    if c = '\n' then (start, position) :: lineRanges (position + 1) (position + 1) rest
    else lineRanges start (position + 1) rest

/-- The lines of a text. -/
def lines (t : StyledText) : List StyledText :=
  (lineRanges 0 0 t.plain).map fun (start, stop) => t.slice start stop

/-- The places where a style begins or ends, and the ends of the text, in ascending order. -/
def boundaries (t : StyledText) : List Nat :=
  let inner := t.spans.flatMap fun s => [s.start, s.stop]
  ((0 :: t.plain.length :: inner).mergeSort).eraseDups

/-- The look of the character at a place. -/
def styleAt (t : StyledText) (position : Nat) : Style :=
  (t.spans.filter fun s => s.start ≤ position && position < s.stop).foldl
    (fun look s => look.overlay (.ofName s.style)) .plain

/-- One line for a terminal. -/
def ansiLine (t : StyledText) : List Char :=
  let ends := t.boundaries
  (ends.zip ends.tail).flatMap fun (start, stop) =>
    (t.styleAt start).ansi ((t.plain.drop start).take (stop - start))

/-- The text for a terminal, line by line. -/
def ansi (t : StyledText) : List Char :=
  List.intercalate ['\n'] (t.lines.map ansiLine)

end StyledText

end PromqlGuide
