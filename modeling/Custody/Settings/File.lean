import Custody.Settings
import Custody.Toml
import Custody.Toml.Quoted

/-!
# Settings files

Settings are read from, and written as, a settings text. A setting that is not mentioned has its
default; names that are no settings are passed over. A node must have a name that is more than
white space.
-/

namespace Custody

namespace Blank

/-- The characters with the Unicode property White_Space. -/
def isBlank (c : Char) : Bool :=
  let n := c.toNat
  (0x09 ≤ n && n ≤ 0x0D) || n == 0x20 || n == 0x85 || n == 0xA0 || n == 0x1680 ||
    (0x2000 ≤ n && n ≤ 0x200A) || n == 0x2028 || n == 0x2029 || n == 0x202F || n == 0x205F ||
    n == 0x3000

/-- A text is blank if it holds no other characters. -/
def isBlankText (text : String) : Bool := text.toList.all isBlank

end Blank

open Toml (Item Table)

namespace Toml.Item

/-- The text an item is. -/
def text? : Item → Option String
  | text s => some s
  | _ => none

/-- The flag an item is. -/
def flag? : Item → Option Bool
  | flag b => some b
  | _ => none

/-- Whether an item holds nothing: an array or table without entries. -/
def isVoid : Item → Bool
  | array items => items.isEmpty
  | braced t | table t => t.entries.isEmpty
  | tables ts => ts.isEmpty
  | _ => false

/-- The choice an item names: as text, or as a table whose only entry has that name and holds
nothing. -/
def choice? : Item → Option String
  | text s => some s
  | braced ⟨_, [(name, item)]⟩ | table ⟨_, [(name, item)]⟩ =>
    if item.isVoid then some name else none
  | _ => none

end Toml.Item

/-- A setting of a table. An item that cannot be read as one makes the settings unreadable. -/
def readSetting {α : Type} (table : Table) (name : String) (read : Item → Option α) :
    Except SettingsFault (Option α) :=
  match table.find? name with
  | none => .ok none
  | some item =>
    match read item with
    | some a => .ok (some a)
    | none => .error .unreadable

/-- The table of a settings text. -/
def readTable (text : String) : Except SettingsFault Table :=
  match Toml.parse? text with
  | some table => .ok table
  | none => .error .unreadable

namespace NodeSettings

/-- The settings in a table; the name must be among them. -/
def ofTable (t : Table) : Except SettingsFault NodeSettings := do
  let some legalName ← readSetting t "legal_name" Item.text? | throw .unreadable
  let defaults : NodeSettings := { legalName }
  let logFormat ← readSetting t "log_format" fun item ↦ item.choice?.bind LogFormat.ofName?
  return {
    legalName
    keySeed := ← readSetting t "key_seed" Item.text?
    logFormat := logFormat.getD defaults.logFormat
    logLevel := (← readSetting t "log_level" Item.text?).getD defaults.logLevel
    sharesHistory := (← readSetting t "share_history" Item.flag?).getD defaults.sharesHistory
    issuerSignsUnlocks :=
      (← readSetting t "issuer_signs_unlocks" Item.flag?).getD defaults.issuerSignsUnlocks }

/-- Reads settings; the name may not be blank. -/
def ofText (text : String) : Except SettingsFault NodeSettings := do
  let settings ← ofTable (← readTable text)
  if Blank.isBlankText settings.legalName then throw .blankName
  return settings

/-- A flag as it is written. -/
def writeFlag (flag : Bool) : String := if flag then "true" else "false"

/-- Writes settings, one to a line. -/
def toText (s : NodeSettings) : String :=
  let lines := [("legal_name", Toml.quote s.legalName)] ++
    (s.keySeed.map fun seed ↦ ("key_seed", Toml.quote seed)).toList ++
    [("log_format", Toml.quote s.logFormat.name), ("log_level", Toml.quote s.logLevel),
      ("share_history", writeFlag s.sharesHistory),
      ("issuer_signs_unlocks", writeFlag s.issuerSignsUnlocks)]
  String.join (lines.map fun (name, value) ↦ name ++ " = " ++ value ++ "\n")

end NodeSettings

namespace NotarySettings

/-- Reads settings. -/
def ofText (text : String) : Except SettingsFault NotarySettings := do
  let t ← readTable text
  let defaults : NotarySettings := {}
  return {
    name := (← readSetting t "name" Item.text?).getD defaults.name
    keySeed := ← readSetting t "key_seed" Item.text? }

end NotarySettings

end Custody
