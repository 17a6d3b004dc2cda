import PromqlGuide.Grammar.Outcome

/-!
Forms: a small language in which the grammar is written down, and the reading of a text by a form.

Choices are ordered and final: the first alternative that reads something is taken. A repetition
reads as often as it can. A token is read behind any blank text; if it is missing, the point in
front of the blank text is reported. `graft` reads something and then things that build on it:
each node of the second part takes everything read before it as its first child, which gives the
postfixes and the operators that group to the left.
-/
namespace PromqlGuide

/-- The parts of the grammar that refer back to themselves. -/
inductive Rule where
  | expression
  | signed
  deriving Repr, DecidableEq

/-- A piece of the grammar. -/
inductive Form where
  | token (t : Terminal)
  | mark (c : Char)
  | nothing
  | seq (first second : Form)
  | choice (first second : Form)
  | many (item : Form)
  | phrase (p : Phrase) (body : Form)
  | graft (base later : Form)
  | rule (r : Rule)
  deriving Repr

namespace Form

/-- A form that may be left out. -/
def optional (f : Form) : Form := choice f nothing

/-- Forms read one after the other. -/
def sequence : List Form → Form
  | [] => nothing
  | [f] => f
  | f :: fs => seq f (sequence fs)

/-- The first of the forms that reads something. -/
def oneOf (f : Form) : List Form → Form
  | [] => f
  | g :: gs => choice f (oneOf g gs)

/-- A list of items with commas between them, possibly empty. -/
def commaSeparated (item : Form) : Form :=
  optional (seq item (many (seq (mark ',') item)))

end Form

/-! ### Reading by a form -/

/-- Reads one token or mark behind blank text; `length?` finds its length and `item` builds what it
leaves. -/
def readLexeme (expectation : Expectation) (length? : List Char → Option Nat)
    (item : Nat → Nat → Item) (c : Cursor) : Outcome :=
  let here := c.skipBlank
  match length? here.rest with
  | none => .failed ⟨c.position, [expectation]⟩
  | some n => .done [item here.position (here.position + n)] (here.advance n) none

/-- Reads items as long as there are any; the first argument bounds their number. -/
def readMany (item : Cursor → Outcome) : Nat → Cursor → Outcome
  | 0, c => .done [] c none
  | n + 1, c =>
    match item c with
    | .done items next stuck => (readMany item n next).after items stuck
    | .failed stuck => .done [] c (some stuck)
    | .tooDeep => .tooDeep

/-- Reads a text by a form, where `call` reads by a rule. -/
def Form.read (call : Rule → Cursor → Outcome) : Form → Cursor → Outcome
  | .token t => readLexeme (.terminal t) t.length? fun s e => .node ⟨.leaf t, s, e, []⟩
  | .mark m => readLexeme (.mark m) (Terminal.literalLength? [m]) fun s e => .mark m s e
  | .nothing => fun c => .done [] c none
  | .seq first second => fun c =>
    match first.read call c with
    | .done items next stuck => (second.read call next).after items stuck
    | other => other
  | .choice first second => fun c =>
    match first.read call c with
    -- what goes too deep is no failure, so nothing else is tried then
    | .failed stuck => (second.read call c).afterFailure stuck
    | other => other
  -- an item that advances is read at most once for each character
  | .many item => fun c => readMany (item.read call) (c.rest.length + 1) c
  | .phrase p body => fun c =>
    (body.read call c).mapItems fun items => [.node (Item.span (.phrase p) c.position items)]
  | .graft base later => fun c =>
    match base.read call c with
    | .done items next stuck =>
      match later.read call next with
      | .done more stop further =>
        .done (Item.graft items more) stop (Stuck.mergeOptions stuck further)
      | .failed further => .failed (Stuck.mergeOption stuck further)
      | .tooDeep => .tooDeep
    | other => other
  | .rule r => call r

end PromqlGuide
