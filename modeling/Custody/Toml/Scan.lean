/-!
# Scanning text

A scan takes something off the front of a text and leaves the rest, or fails. `p <|> q` tries `q`
where `p` fails, from the same place. Repetition is bounded by the length of the text, so that every
scan ends.
-/

namespace Custody.Toml

/-- Takes something off the front of a text. -/
abbrev Scan := StateT (List Char) Option

namespace Scan

variable {α : Type}

/-- The next character. -/
def next : Scan Char
  | [] => none
  | c :: rest => some (c, rest)

/-- The next character, which must satisfy a condition. -/
def satisfy (p : Char → Bool) : Scan Char := do
  let c ← next
  if p c then return c else failure

/-- A given character. -/
def char (c : Char) : Scan Unit := discard (satisfy (· == c))

/-- A given word. -/
def word (w : String) : Scan Unit := w.toList.forM char

/-- The longest front whose characters satisfy a condition. -/
def span (p : Char → Bool) : Scan (List Char) :=
  fun text ↦ some (text.takeWhile p, text.dropWhile p)

/-- Exactly `n` characters that satisfy a condition. -/
def exactly (n : Nat) (p : Char → Bool) : Scan (List Char) := fun text ↦
  let front := text.take n
  if front.length = n && front.all p then some (front, text.drop n) else none

/-- What comes next, if anything, without taking it. -/
def peek : Scan (Option Char) := fun text ↦ some (text.head?, text)

/-- Succeeds where a scan would, and takes nothing. -/
def ahead (p : Scan α) : Scan Unit := fun text ↦ (p text).map fun _ ↦ ((), text)

/-- Repeats a scan until it fails, `n` times at most. -/
def upTo (p : Scan α) : Nat → Scan (List α)
  | 0 => pure []
  | n + 1 => (do
      let a ← p
      return a :: (← upTo p n)) <|> pure []

/-- Repeats a scan until it fails; each time at least one character must be taken. -/
def many (p : Scan α) : Scan (List α) := fun text ↦ upTo p text.length text

/-- One or more, between which a separator stands. -/
def separated (separator : Scan Unit) (p : Scan α) : Scan (List α) := do
  let a ← p
  return a :: (← many (separator *> p))

/-- Nothing is left. -/
def finish : Scan Unit
  | [] => some ((), [])
  | _ :: _ => none

/-- What a scan makes of a whole text. -/
def run (p : Scan α) (text : String) : Option α := ((p <* finish) text.toList).map Prod.fst

end Scan

end Custody.Toml
