import Custody.Crypto
import Custody.Text.Hex
import Custody.Text.Utf8

/-!
# Settings

What is chosen for a node, and for the notary, before it runs. The identity key comes from a seed
given in hexadecimal; without one it is derived from the name, which is only fit for trials.
-/

namespace Custody

/-- How log lines are written. -/
inductive LogFormat where
  | human
  | json
deriving DecidableEq, Repr

/-- A text that names no log format. -/
structure UnknownLogFormat where
  text : String
deriving DecidableEq

/-- The wording of the refusal. -/
def UnknownLogFormat.message (unknown : UnknownLogFormat) : String :=
  "unknown log format `" ++ unknown.text ++ "`, expected `human` or `json`"

namespace LogFormat

/-- The name of a format in settings. -/
def name : LogFormat → String
  | human => "human"
  | json => "json"

/-- The format with a name. -/
def ofName? (name : String) : Option LogFormat := [human, json].find? (·.name == name)

/-- The format a text names, in whatever ASCII case. -/
def ofText (text : String) : Except UnknownLogFormat LogFormat :=
  match ofName? (text.map Char.toLower) with
  | some format => .ok format
  | none => .error ⟨text⟩

end LogFormat

/-- Whether the issuer signs when a lock is released. -/
inductive IssuerPolicy where
  /-- The issuer is told. -/
  | observe
  /-- The issuer must sign. -/
  | sign
deriving DecidableEq, Repr

/-- What is chosen for a node. -/
structure NodeSettings where
  /-- The name others know the node by. -/
  legalName : String
  /-- The seed of the identity key, in hexadecimal. -/
  keySeed : Option String := none
  logFormat : LogFormat := .human
  logLevel : String := "info"
  /-- Whether requests come with the history of what they name. -/
  sharesHistory : Bool := true
  /-- Whether the issuer must sign the releases this node makes. -/
  issuerSignsUnlocks : Bool := false
deriving DecidableEq

/-- What is chosen for the notary. -/
structure NotarySettings where
  name : String := "Notary"
  keySeed : Option String := none
deriving DecidableEq

/-- What is wrong with settings. -/
inductive SettingsFault where
  /-- The text is no settings file, or lacks a setting, or gives one of the wrong type. -/
  | unreadable
  | blankName
  | seedNotHex (name : String) (fault : Hex.Fault)
  | seedLength (name : String)
  /-- A fault given in words only. -/
  | stated (reason : String)
deriving DecidableEq

/-- The wording of a fault. -/
def SettingsFault.message : SettingsFault → String
  | unreadable => "settings are not readable"
  | blankName => "legal_name must not be empty"
  | seedNotHex name fault => s!"key_seed for {name}: " ++ fault.message
  | seedLength name => s!"key_seed for {name} must be 32 bytes"
  | stated reason => reason

/-- The seed of the identity key of a name. -/
def identitySeed [Cryptosystem] (name : String) : Option String → Except SettingsFault Seed
  | some text => do
    let bytes ← (Hex.decode text).mapError (.seedNotHex name)
    match Block.ofList? 32 bytes with
    | some block => return ⟨block⟩
    | none => throw (.seedLength name)
  | none => .ok ⟨Cryptosystem.hash (Utf8.encode name)⟩

namespace NodeSettings

/-- The seed of the node's identity key. -/
def seed [Cryptosystem] (s : NodeSettings) : Except SettingsFault Seed :=
  identitySeed s.legalName s.keySeed

/-- What the issuer does when this node releases a lock. -/
def issuerPolicy (s : NodeSettings) : IssuerPolicy :=
  if s.issuerSignsUnlocks then .sign else .observe

end NodeSettings

/-- The seed of the notary's identity key. -/
def NotarySettings.seed [Cryptosystem] (s : NotarySettings) : Except SettingsFault Seed :=
  identitySeed s.name s.keySeed

end Custody
