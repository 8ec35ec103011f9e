import Custody.Toml.Quantity
import Custody.Toml.Table

/-!
# Settings texts

A settings text in the TOML format: lines of `name = value`, and headers that say into which table
the lines below them go. `Toml.parse?` gives the table a text describes; a text that breaks the
grammar, or names something twice, describes none.
-/

namespace Custody.Toml

open Scan

/-! ### Values -/

/-- Arrays and braces are nested less deep than this, and dotted keys have fewer parts. -/
def depthLimit : Nat := 80

/-- Characters of a name without quotes. -/
def isBareChar (c : Char) : Bool :=
  ('a' ≤ c && c ≤ 'z') || ('A' ≤ c && c ≤ 'Z') || c.isDigit || c == '_' || c == '-'

/-- Blanks within a line, if there are any. -/
def blanks : Scan Unit := discard (span isSpace)

/-- A comment, up to the end of the line. -/
def comment : Scan Unit := do
  char '#'
  discard (span isLineChar)

/-- Blanks, comments and line ends. -/
def gap : Scan Unit :=
  discard (many (discard (satisfy isSpace) <|> newline <|> comment))

/-- A name, bare or quoted. -/
def name : Scan String := do
  match ← peek with
  | some '"' => basicText
  | some '\'' => literalText
  | _ =>
    let cs ← span isBareChar
    if cs.isEmpty then failure else return String.ofList cs

/-- Names with points between them: the path to the last, and the last. -/
def key : Scan (List String × String) := do
  let names ← separated (char '.') (blanks *> name <* blanks)
  if depthLimit ≤ names.length then failure
  match names.getLast? with
  | some last => return (names.dropLast, last)
  | none => failure

/-- A key and its value. -/
def assignment (value : Scan Item) : Scan ((List String × String) × Item) := do
  let k ← key
  char '='
  blanks
  return (k, ← value)

/-- Values between brackets; a comma may follow the last. -/
def array (value : Scan Item) : Scan Item := do
  char '['
  let entry := gap *> value <* gap
  let items ← optional (separated (char ',') entry)
  if items.isSome then discard (optional (char ','))
  gap
  char ']'
  return .array (items.getD [])

/-- Named values between braces, on one line. -/
def braces (value : Scan Item) : Scan Item := do
  char '{'
  let assignments ← optional (separated (char ',') (assignment value <* blanks))
  blanks
  char '}'
  let adding := (assignments.getD []).forM fun ((path, name), item) ↦ Edit.addDotted path name item
  match adding (.empty .stated) with
  | some ((), table) => return .braced table
  | none => failure

/-- A value that holds no others. -/
def scalar : Scan Item :=
  Item.text <$> text <|> word "true" *> pure (.flag true) <|> word "false" *> pure (.flag false) <|>
    quantity *> pure .quantity

/-- A value in which arrays and braces are nested at most `depth` deep. -/
def value : Nat → Scan Item
  | 0 => scalar
  | depth + 1 => scalar <|> array (value depth) <|> braces (value depth)

/-! ### Documents -/

/-- A document read so far: the tables that are complete, and the one that lines go into. -/
structure Draft where
  root : Table
  /-- Where the current table belongs; none for the lines above all headers. -/
  place : Option (List String × String)
  /-- Whether the current table stands under a repeated header. -/
  isRepeated : Bool
  current : Table

namespace Draft

/-- Nothing read yet. -/
def empty : Draft := ⟨.empty .stated, none, false, .empty .stated⟩

/-- Puts the current table into its place. -/
def close (d : Draft) : Option Table :=
  match d.place with
  | none => some d.current
  | some (path, name) =>
    let put :=
      if d.isRepeated then Edit.addTable name d.current else Edit.add name (.table d.current)
    (Edit.within false path put d.root).map Prod.snd

/-- Begins the table under a header. -/
def openTable (d : Draft) (path : List String) (name : String) : Option Draft := do
  let (current, root) ← Edit.within false path (Edit.reopen name) (← d.close)
  return ⟨root, (path, name), false, current⟩

/-- Begins a further table under a repeated header. -/
def openRepeated (d : Draft) (path : List String) (name : String) : Option Draft := do
  let ((), root) ← Edit.within false path (Edit.openTables name) (← d.close)
  return ⟨root, (path, name), true, .empty .stated⟩

/-- Adds a line to the current table. -/
def assign (d : Draft) (path : List String) (name : String) (item : Item) : Option Draft := do
  let ((), current) ← Edit.addDotted path name item d.current
  return { d with current }

end Draft

/-- The end of a line, after blanks and perhaps a comment. -/
def lineEnd : Scan Unit := do
  blanks
  discard (optional comment)
  newline <|> finish

/-- One line of a document, and what it does to the draft. -/
def line : Scan (Draft → Option Draft) := do
  blanks
  match ← peek with
  | none => failure
  | some '#' =>
    lineEnd
    return some
  | some '[' =>
    (do
      word "[["
      let (path, name) ← key
      word "]]"
      lineEnd
      return (·.openRepeated path name)) <|>
    (do
      word "["
      let (path, name) ← key
      word "]"
      lineEnd
      return (·.openTable path name))
  | some _ =>
    (newline *> pure some) <|>
    (do
      let ((path, name), item) ← assignment (value (depthLimit - 1))
      lineEnd
      return (·.assign path name item))

/-- All lines of a document. A byte order mark may come first. -/
def document : Scan (List (Draft → Option Draft)) := do
  discard (optional (char '\ufeff'))
  let lines ← many line
  blanks
  return lines

/-- The table a text describes. -/
def parse? (text : String) : Option Table := do
  let lines ← document.run text
  let draft ← lines.foldlM (fun draft change ↦ change draft) Draft.empty
  draft.close

end Custody.Toml
