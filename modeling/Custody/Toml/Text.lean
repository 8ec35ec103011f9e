import Custody.Toml.Scan

/-!
# Quoted text

Text stands between quotes or apostrophes, on one line or, between three of them, on several. Only
quotes admit escapes. Controls other than the tab never stand for themselves.
-/

namespace Custody.Toml

open Scan

/-- Blanks within a line. -/
def isSpace (c : Char) : Bool := c == ' ' || c == '\t'

/-- Characters that may stand in a line: all but controls, and the tab. -/
def isLineChar (c : Char) : Bool := c == '\t' || (0x20 ≤ c.toNat && c.toNat != 0x7F)

/-- Characters that stand for themselves between quotes. -/
def isBasicChar (c : Char) : Bool := isLineChar c && c != '"' && c != '\\'

/-- Characters that may stand between apostrophes. -/
def isLiteralChar (c : Char) : Bool := isLineChar c && c != '\''

/-- The value of a hexadecimal digit. -/
def hexValue (c : Char) : Nat :=
  if c.isDigit then c.toNat - '0'.toNat else c.toLower.toNat - 'a'.toNat + 10

/-- Whether a character is a hexadecimal digit. -/
def isHexDigit (c : Char) : Bool :=
  c.isDigit || ('a' ≤ c && c ≤ 'f') || ('A' ≤ c && c ≤ 'F')

/-- The end of a line. -/
def newline : Scan Unit := word "\n" <|> word "\r\n"

/-- The character with a code of `n` hexadecimal digits. -/
def codePoint (n : Nat) : Scan Char := do
  let code := (← exactly n isHexDigit).foldl (fun code c ↦ 16 * code + hexValue c) 0
  if code.isValidChar then return Char.ofNat code else failure

/-- The character an escape stands for. -/
def escape : Scan Char := do
  char '\\'
  match ← next with
  | 'b' => return '\x08'
  | 't' => return '\t'
  | 'n' => return '\n'
  | 'f' => return '\x0c'
  | 'r' => return '\r'
  | '"' => return '"'
  | '\\' => return '\\'
  | 'u' => codePoint 4
  | 'U' => codePoint 8
  | _ => failure

/-- A backslash at the end of a line joins it with what follows, without the blanks between. -/
def lineJoin : Scan Unit := do
  char '\\'
  discard (span isSpace)
  newline
  discard (many (discard (satisfy isSpace) <|> newline))

/-- Text between quotes, on one line. -/
def basicText : Scan String := do
  char '"'
  let cs ← many (satisfy isBasicChar <|> escape)
  char '"'
  return String.ofList cs

/-- Text between apostrophes, on one line. -/
def literalText : Scan String := do
  char '\''
  let cs ← span isLiteralChar
  char '\''
  return String.ofList cs

/-- One or two marks inside text that three of them end. -/
def innerMarks (mark : Char) : Scan (List Char) := do
  let other := satisfy (· != mark)
  (do char mark; char mark; ahead other; return [mark, mark]) <|>
    (do char mark; ahead other; return [mark])

/-- The end of text between three marks; up to two more marks before it belong to the text. -/
def closingMarks (mark : Char) : Scan (List Char) := do
  let three := do char mark; char mark; char mark
  (do char mark; char mark; three; return [mark, mark]) <|>
    (do char mark; three; return [mark]) <|> (do three; return [])

/-- Text between three marks on each side, made of pieces. A line end right after the opening marks
is dropped. -/
def longText (mark : Char) (piece : Scan (List Char)) : Scan String := do
  char mark; char mark; char mark
  discard (optional newline)
  let pieces ← many (piece <|> (newline *> pure ['\n']) <|> innerMarks mark)
  let last ← closingMarks mark
  return String.ofList (pieces.flatten ++ last)

/-- Text between three quotes. -/
def longBasicText : Scan String :=
  longText '"' (List.singleton <$> satisfy isBasicChar <|> (lineJoin *> pure []) <|>
    List.singleton <$> escape)

/-- Text between three apostrophes. -/
def longLiteralText : Scan String := longText '\'' (List.singleton <$> satisfy isLiteralChar)

/-- Text in any of the four forms. -/
def text : Scan String := longBasicText <|> basicText <|> longLiteralText <|> literalText

end Custody.Toml
