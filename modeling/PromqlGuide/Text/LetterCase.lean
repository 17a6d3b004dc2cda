import PromqlGuide.Text.DecimalDigit

/-!
Letter case of keywords, and the characters that names are made of.

Keywords are read in any letter case. Four characters outside ASCII are case variants of ASCII
letters: the dotted capital and the dotless small i, the long s, and the Kelvin sign.

Main statements: an ASCII letter folds to its small form (`foldsTo_self`), and the boundary after
a keyword is never wider than the boundary after a name (`isWordPart_of_isMetricPart`).
-/
namespace PromqlGuide.Text

/-- Whether `c` is the character `small`, or a case variant of it, where `small` is written in its
small form. -/
def foldsTo (small c : Char) : Bool :=
  c == small ||
    (small.isLower &&
      (c == small.toUpper ||
        (small == 'i' && (c == '\u0130' || c == '\u0131')) ||
        (small == 's' && c == '\u017f') ||
        (small == 'k' && c == '\u212a')))

/-- Every character is a form of itself. -/
@[simp] theorem foldsTo_self (c : Char) : foldsTo c c = true := by simp [foldsTo]

/-- First character of a label or function name. -/
def isNameStart (c : Char) : Bool := c.isAlpha || c == '_'

/-- Later character of a label or function name. -/
def isNamePart (c : Char) : Bool := c.isAlphanum || c == '_'

/-- Character of a metric name; digits cannot come first. -/
def isMetricPart (c : Char) : Bool := isNamePart c || c == ':'

/-- First character of a metric name. -/
def isMetricStart (c : Char) : Bool := isNameStart c || c == ':'

/-- Character that would continue a word read in any letter case: a metric name character or a
case variant of one. -/
def isWordPart (c : Char) : Bool :=
  isMetricPart c || c == '\u0130' || c == '\u0131' || c == '\u017f' || c == '\u212a'

/-- What may stand in a name may stand in the name of a metric. -/
theorem isMetricPart_of_isNamePart {c : Char} (h : isNamePart c = true) :
    isMetricPart c = true := by simp [isMetricPart, h]

/-- What may stand in the name of a metric may stand in a word. -/
theorem isWordPart_of_isMetricPart {c : Char} (h : isMetricPart c = true) :
    isWordPart c = true := by simp [isWordPart, h]

/-- Whether a text is over or goes on with a character outside the class. -/
def endsBefore (p : Char → Bool) : List Char → Bool
  | [] => true
  | c :: _ => !p c

/-- Whether a text starts with the word in some letter case; the word is written small. -/
def startsWithWord : List Char → List Char → Bool
  | [], _ => true
  | _ :: _, [] => false
  | w :: word, c :: cs => foldsTo w c && startsWithWord word cs

/-- A text that starts with a word is at least as long as the word. -/
theorem startsWithWord_length {word cs : List Char} (h : startsWithWord word cs = true) :
    word.length ≤ cs.length := by
  induction word generalizing cs with
  | nil => simp
  | cons w word ih =>
    cases cs with
    | nil => simp [startsWithWord] at h
    | cons c cs =>
      simp only [startsWithWord, Bool.and_eq_true] at h
      simpa using ih h.2

/-- A word starts its own text. -/
theorem startsWithWord_append (word rest : List Char) :
    startsWithWord word (word ++ rest) = true := by
  induction word with
  | nil => rfl
  | cons w word ih => simp [startsWithWord, ih]

end PromqlGuide.Text
