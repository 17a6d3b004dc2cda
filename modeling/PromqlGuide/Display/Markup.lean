import PromqlGuide.Display.StyledText
import PromqlGuide.Text.Blank
import PromqlGuide.Text.Lowercase

/-!
Markup: styled text written as plain text with tags in brackets. `[cyan]` switches a style on and
`[/]` switches the last one off. A bracket that looks like a tag and is none has a backslash in
front.

Reading halves the backslashes before a tag-like bracket; an odd one makes the bracket plain text.
Before any other bracket one backslash is dropped.

Main statement: text without brackets and backslashes is its own markup
(`Markup.escape_of_plain`).
-/
namespace PromqlGuide.Markup

/-- Whether a tag may begin with the character. -/
def isTagStart (c : Char) : Bool :=
  (decide ('a' ≤ c) && decide (c ≤ 'z')) || c == '#' || c == '/' || c == '@'

/-- Whether a closing bracket comes before any further opening one. -/
def closesTag : List Char → Bool
  | [] => false
  | c :: rest => if c = ']' then true else if c = '[' then false else closesTag rest

/-- Whether a text behind an opening bracket makes it look like a tag. -/
def looksLikeTag : List Char → Bool
  | [] => false
  | c :: rest => isTagStart c && closesTag rest

/-! ### Writing -/

/-- Escapes the brackets that look like tags; `backslashes` counts those directly in front. -/
def escapeFrom (backslashes : Nat) : List Char → List Char
  | [] => List.replicate backslashes '\\'
  | c :: rest =>
    if c = '\\' then escapeFrom (backslashes + 1) rest
    else if c = '[' ∧ looksLikeTag rest = true then
      List.replicate (2 * backslashes + 1) '\\' ++ c :: escapeFrom 0 rest
    else List.replicate backslashes '\\' ++ c :: escapeFrom 0 rest

/-- How many backslashes a text ends with. -/
def trailingBackslashes (cs : List Char) : Nat := (cs.reverse.takeWhile (· == '\\')).length

/-- Text as markup that reads as plain text. A single backslash at its end is doubled, so that it
does not reach over to a bracket behind it. -/
def escape (cs : List Char) : List Char :=
  let escaped := escapeFrom 0 cs
  if trailingBackslashes escaped = 1 then escaped ++ ['\\'] else escaped

/-- Text as markup in a style. -/
def styled (style text : List Char) : List Char :=
  '[' :: style ++ ']' :: escape text ++ ['[', '/', ']']

/-- Text as markup, or as it is where there is no colour. -/
def escapeText (text : String) (color : Bool) : String :=
  if color then String.ofList (escape text.toList) else text

/-- Text as markup in a style, or as it is where there is no colour. -/
def colorize (text style : String) (color : Bool) : String :=
  if color then String.ofList (styled style.toList text.toList) else text

/-- A text without opening brackets and backslashes needs no escapes. -/
theorem escapeFrom_of_plain {cs : List Char} (h : ∀ c ∈ cs, c ≠ '[' ∧ c ≠ '\\') :
    escapeFrom 0 cs = cs := by
  induction cs with
  | nil => rfl
  | cons c rest ih =>
    have hc := h c (by simp)
    simp [escapeFrom, hc, ih fun d hd => h d (List.mem_cons_of_mem _ hd)]

/-- Text without brackets and backslashes is its own markup. -/
theorem escape_of_plain {cs : List Char} (h : ∀ c ∈ cs, c ≠ '[' ∧ c ≠ '\\') :
    escape cs = cs := by
  have ht : trailingBackslashes cs = 0 := by
    unfold trailingBackslashes
    cases hr : cs.reverse with
    | nil => rfl
    | cons c rest =>
      have : c ∈ cs := by
        rw [← List.mem_reverse, hr]
        simp
      simp [(h c this).2]
  simp [escape, escapeFrom_of_plain h, ht]

/-! ### Reading -/

/-- What markup consists of: characters, and tags by what stands between their brackets. -/
inductive Piece where
  | char (c : Char)
  | tag (body : List Char)
  deriving Repr, DecidableEq

/-- The characters as pieces. -/
def chars (cs : List Char) : List Piece := cs.map .char

/-- Takes markup apart. `tag?` holds the tag being read, last character first, and `backslashes`
counts those directly in front. -/
def piecesFrom (tag? : Option (List Char)) (backslashes : Nat) : List Char → List Piece
  | [] => chars (List.replicate backslashes '\\')
  | c :: rest =>
    match tag? with
    | some body =>
      if c = ']' then .tag body.reverse :: piecesFrom none 0 rest
      else piecesFrom (some (c :: body)) 0 rest
    | none =>
      if c = '\\' then piecesFrom none (backslashes + 1) rest
      else if c = '[' then
        if looksLikeTag rest then
          -- half of the backslashes stand for themselves, and an odd one keeps the bracket
          let kept := chars (List.replicate (backslashes / 2) '\\')
          if backslashes % 2 = 1 then kept ++ .char c :: piecesFrom none 0 rest
          else kept ++ piecesFrom (some []) 0 rest
        -- no tag: of the backslashes one is lost
        else chars (List.replicate (backslashes - 1) '\\') ++ .char c :: piecesFrom none 0 rest
      else chars (List.replicate backslashes '\\') ++ .char c :: piecesFrom none 0 rest

/-- The pieces of a markup text. -/
def pieces (cs : List Char) : List Piece := piecesFrom none 0 cs

/-- A style that is switched on, and where. -/
structure OpenStyle where
  start : Nat
  style : String
  deriving Repr

/-- Text as far as it has been read, last character and last span first, with the styles still
switched on, the last one first. -/
structure Progress where
  reversed : List Char
  length : Nat
  opened : List OpenStyle
  closed : List Span

/-- The name of a style as it is kept. -/
def styleName (body : List Char) : String :=
  Text.lowercase (String.ofList (Text.trimmed body))

/-- Switches off the style at an index among those that are on. -/
def Progress.close (p : Progress) (index : Nat) : Option Progress :=
  p.opened[index]?.map fun o =>
    { p with
      opened := p.opened.eraseIdx index
      closed := ⟨o.start, p.length, o.style⟩ :: p.closed }

/-- Reads one piece; a closing tag without a style to switch off cannot be read. -/
def Progress.step (p : Progress) : Piece → Option Progress
  | .char c =>
    some (if StyledText.isDropped c then p
      else { p with reversed := c :: p.reversed, length := p.length + 1 })
  | .tag ('/' :: name) =>
    let style := styleName name
    if style.isEmpty then p.close 0
    else (p.opened.findIdx? fun o => o.style == style).bind p.close
  | .tag name => some { p with opened := ⟨p.length, styleName name⟩ :: p.opened }

/-- The styled text of what was read; styles that are still on reach to its end. -/
def Progress.finish (p : Progress) : StyledText :=
  let rest := p.opened.map fun o => (⟨o.start, p.length, o.style⟩ : Span)
  ⟨p.reversed.reverse, (rest.reverse ++ p.closed).mergeSort fun a b => a.start ≤ b.start⟩

/-- The styled text that markup stands for. -/
def read (cs : List Char) : Option StyledText :=
  ((pieces cs).foldlM Progress.step ⟨[], 0, [], []⟩).map Progress.finish

end PromqlGuide.Markup
