/-!
# Tables

A settings text describes a table: named items, each a value or a table of its own. Headers and
dotted keys name tables on their way, and how a table came about decides what may still be added to
it: what a header has written out cannot be reached through dotted keys, and what dotted keys have
opened cannot be reopened by a header. Names are kept in the order in which they appeared.
-/

namespace Custody.Toml

/-- How a table came about. -/
inductive Origin where
  /-- It is the document, stands under a header of its own, or is written in braces. -/
  | stated
  /-- A header named it on the way to another table. -/
  | implied
  /-- A dotted key named it on the way to a value. -/
  | dotted
deriving DecidableEq, Repr

mutual

/-- What a name stands for. -/
inductive Item where
  | text (text : String)
  | flag (value : Bool)
  /-- A number, a date or a time. -/
  | quantity
  | array (items : List Item)
  /-- A table in braces, which nothing can be added to. -/
  | braced (table : Table)
  | table (table : Table)
  /-- The tables under a repeated header, latest first. -/
  | tables (tables : List Table)

/-- Named items. -/
structure Table where
  origin : Origin
  entries : List (String × Item)

end

namespace Table

/-- A table without entries. -/
def empty (origin : Origin) : Table := ⟨origin, []⟩

/-- What a name stands for. -/
def find? (t : Table) (name : String) : Option Item := t.entries.lookup name

/-- Lets a name stand for an item, in its old place if it has one. -/
def set (t : Table) (name : String) (item : Item) : Table :=
  if (t.find? name).isSome then
    { t with entries := t.entries.map fun e ↦ if e.1 = name then (name, item) else e }
  else { t with entries := t.entries ++ [(name, item)] }

/-- Removes a name. -/
def erase (t : Table) (name : String) : Table :=
  { t with entries := t.entries.filter (·.1 != name) }

end Table

/-- A change of a table that may be refused. -/
abbrev Edit := StateT Table Option

namespace Edit

variable {α : Type}

/-- Changes the table at the end of a path. Tables that the path names first come into being; a
repeated header leads to the latest of its tables; and dots lead into no table that was written
out. -/
def within (viaDots : Bool) : List String → Edit α → Edit α
  | [], edit => edit
  | name :: path, edit => fun t ↦
    match t.find? name with
    | none => do
      let (a, child) ← within viaDots path edit (.empty (if viaDots then .dotted else .implied))
      return (a, t.set name (.table child))
    | some (.table child) =>
      if viaDots && child.origin == .stated then none
      else do
        let (a, child) ← within viaDots path edit child
        return (a, t.set name (.table child))
    | some (.tables (latest :: earlier)) => do
      let (a, latest) ← within viaDots path edit latest
      return (a, t.set name (.tables (latest :: earlier)))
    | some _ => none

/-- Adds an item under a new name. -/
def add (name : String) (item : Item) : Edit Unit := do
  let t ← get
  if (t.find? name).isSome then failure
  set (t.set name item)

/-- Adds an item at the end of a dotted key. The dots must end in a table that dots have opened. -/
def addDotted (path : List String) (name : String) (item : Item) : Edit Unit :=
  within true path do
    if ((← get).origin == .dotted) == path.isEmpty then failure
    add name item

/-- Takes out the table that a header is about to write out: it may have been implied before. -/
def reopen (name : String) : Edit Table := do
  let t ← get
  match t.find? name with
  | none => return .empty .stated
  | some (.table child) =>
    if child.origin == .implied then
      set (t.erase name)
      return { child with origin := .stated }
    else failure
  | some _ => failure

/-- Makes a name stand for the tables under a repeated header. -/
def openTables (name : String) : Edit Unit := do
  let t ← get
  match t.find? name with
  | none => set (t.set name (.tables []))
  | some (.tables _) => return
  | some _ => failure

/-- Adds a table under a repeated header. -/
def addTable (name : String) (table : Table) : Edit Unit := do
  let t ← get
  match t.find? name with
  | some (.tables tables) => set (t.set name (.tables (table :: tables)))
  | _ => failure

end Edit

end Custody.Toml
