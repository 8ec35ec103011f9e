import Custody.Toml.Text

/-!
# Writing text

Text is written between quotes or apostrophes, single ones on one line or three on several. The
first style is taken in which the text can stand as it is: quotes, apostrophes, three quotes, three
apostrophes. Where none will do, the text is escaped between quotes, three of them if it has line
ends. Single marks admit none of their own kind inside, three marks up to two in a row.
-/

namespace Custody.Toml

/-- The marks that text stands between. -/
inductive TextStyle where
  | quotes
  | apostrophes
  | threeQuotes
  | threeApostrophes
deriving DecidableEq, Repr

namespace TextStyle

/-- What stands before the text and after it. -/
def marks : TextStyle → String
  | quotes => "\""
  | apostrophes => "'"
  | threeQuotes => "\"\"\""
  | threeApostrophes => "'''"

/-- Whether the text may go over several lines. -/
def isTriple : TextStyle → Bool
  | quotes | apostrophes => false
  | threeQuotes | threeApostrophes => true

/-- Whether escapes are understood. -/
def hasEscapes : TextStyle → Bool
  | quotes | threeQuotes => true
  | apostrophes | threeApostrophes => false

/-- How many marks of its own kind may stand in a row inside. -/
def marksAllowed (style : TextStyle) : Nat := if style.isTriple then 2 else 0

end TextStyle

/-- How many times a character stands in a row, at most. -/
def longestRun (mark : Char) (text : List Char) : Nat :=
  (text.foldl
    (fun (longest, run) c ↦ if c == mark then (max longest (run + 1), run + 1) else (longest, 0))
    (0, 0)).1

/-- Whether text can stand as it is in a style. -/
def TextStyle.fits (text : List Char) (style : TextStyle) : Bool :=
  text.all (fun c ↦ isLineChar c || c == '\n') && (style.isTriple || !text.contains '\n') &&
    if style.hasEscapes then longestRun '"' text ≤ style.marksAllowed && !text.contains '\\'
    else longestRun '\'' text ≤ style.marksAllowed

/-- The style that text is written in. -/
def TextStyle.of (text : List Char) : TextStyle :=
  ([quotes, apostrophes, threeQuotes, threeApostrophes].find? (fits text)).getD
    (if text.contains '\n' then threeQuotes else quotes)

/-- The digits of a code, filled up to four with zeros. -/
def fourDigits (code : Nat) : List Char :=
  let digits := (Nat.toDigits 16 code).map Char.toUpper
  List.replicate (4 - digits.length) '0' ++ digits

/-- A character other than the quote, between quotes. -/
def writeChar (severalLines : Bool) (c : Char) : List Char :=
  match c with
  | '\x08' => ['\\', 'b']
  | '\t' => ['\\', 't']
  | '\n' => if severalLines then ['\n'] else ['\\', 'n']
  | '\x0c' => ['\\', 'f']
  | '\r' => ['\\', 'r']
  | '\\' => ['\\', '\\']
  | c => if isLineChar c then [c] else '\\' :: 'u' :: fourDigits c.toNat

/-- Text between quotes, after so many plain quotes in a row; a quote more than the style allows is
escaped. -/
def escapeFrom (style : TextStyle) (run : Nat) : List Char → List Char
  | [] => []
  | '"' :: cs =>
    if run < style.marksAllowed then '"' :: escapeFrom style (run + 1) cs
    else '\\' :: '"' :: escapeFrom style 0 cs
  | c :: cs => writeChar style.isTriple c ++ escapeFrom style 0 cs

/-- Text as it is written. Text with line ends starts on a line of its own. -/
def quote (text : String) : String :=
  let cs := text.toList
  let style := TextStyle.of cs
  let body := if style.hasEscapes then String.ofList (escapeFrom style 0 cs) else text
  let start := if cs.contains '\n' then "\n" else ""
  style.marks ++ (start ++ body) ++ style.marks

end Custody.Toml
