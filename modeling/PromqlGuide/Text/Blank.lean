/-!
Blank text: the whitespace characters of a query, the comments that count as whitespace, and
the removal of whitespace at both ends of a text.

Main statements: a blank run never reaches past the text (`blankLength_le`), and what follows a
blank run starts with no whitespace character and no comment mark (`blankLength_drop`).
-/
namespace PromqlGuide.Text

/-- The whitespace characters: controls U+0009 to U+000D and U+001C to U+001F, the spaces of
every width, and the line and paragraph separators. -/
def isSpace (c : Char) : Bool :=
  let n := c.toNat
  (9 ≤ n && n ≤ 13) || (28 ≤ n && n ≤ 32) || n == 0x85 || n == 0xA0 || n == 0x1680 ||
    (0x2000 ≤ n && n ≤ 0x200A) || n == 0x2028 || n == 0x2029 || n == 0x202F || n == 0x205F ||
    n == 0x3000

/-- Length of the blank run at the start of a text; `inComment` says that a comment mark has been
read and its line has not ended yet. -/
def blankRun : Bool → List Char → Nat
  | _, [] => 0
  | true, c :: rest => blankRun (c != '\n') rest + 1
  | false, c :: rest =>
    if isSpace c then blankRun false rest + 1
    else if c = '#' then blankRun true rest + 1
    else 0

/-- Length of the whitespace and comments at the start of a text. -/
def blankLength (cs : List Char) : Nat := blankRun false cs

/-- Blank text is no longer than what it stands in front of. -/
theorem blankRun_le (inComment : Bool) (cs : List Char) : blankRun inComment cs ≤ cs.length := by
  induction cs generalizing inComment with
  | nil => simp [blankRun]
  | cons c rest ih =>
    cases inComment with
    | true => simpa [blankRun] using ih _
    | false =>
      unfold blankRun
      split
      · simpa using ih _
      · split
        · simpa using ih _
        · simp

/-- A blank run lies inside the text. -/
theorem blankLength_le (cs : List Char) : blankLength cs ≤ cs.length := blankRun_le false cs

/-- Text that can start no blank run: it is over, or goes on with a character that is neither
whitespace nor a comment mark. -/
def startsVisible : List Char → Bool
  | [] => true
  | c :: _ => !isSpace c && c != '#'

/-- Behind the blank text something visible starts, or the text is over. -/
theorem blankRun_drop (inComment : Bool) (cs : List Char) :
    startsVisible (cs.drop (blankRun inComment cs)) = true := by
  induction cs generalizing inComment with
  | nil => simp [blankRun, startsVisible]
  | cons c rest ih =>
    cases inComment with
    | true => simpa [blankRun] using ih _
    | false =>
      unfold blankRun
      split
      · simpa using ih _
      · split
        · simpa using ih _
        · simp_all [startsVisible]

/-- After the blank run the text is over or goes on with a visible character. -/
theorem blankLength_drop (cs : List Char) : startsVisible (cs.drop (blankLength cs)) = true :=
  blankRun_drop false cs

/-- Text without the whitespace at its two ends. -/
def trimmed (cs : List Char) : List Char :=
  (((cs.dropWhile isSpace).reverse).dropWhile isSpace).reverse

/-- Text without the whitespace at its two ends. -/
def trim (s : String) : String := String.ofList (trimmed s.toList)

end PromqlGuide.Text
