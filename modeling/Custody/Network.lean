import Custody.Operation
import Custody.Respondent
import Custody.Settlement

/-!
# Networks

Nodes that share a directory and a notary and are reached by name. A session with a party leads to
the live node of that name, which answers frame by frame; what is sent and answered travels as
frames. A name may also be given a script, which then answers in place of a node.
-/

namespace Custody

/-- A prepared reply. -/
inductive ScriptedReply where
  | message (m : Message)
  /-- Endorsements of the last transaction the script was asked to sign, each with a seed and in the
  name of a key. -/
  | endorse (signers : List (Seed × PublicKey))
  /-- The end of the session. -/
  | close

/-- The far end of an open session. -/
inductive Peer where
  | node (name : String) (phase : Phase)
  /-- The replies to come, and the id of the last transaction to sign. -/
  | scripted (replies : List ScriptedReply) (asked : TransactionId)

/-- Why a node could not be started, or did not do what it was asked. -/
inductive NodeError where
  | operation (error : OperationError)
  | store (error : StoreError)
  | settings (fault : SettingsFault)
  | duplicateName (name : String)
deriving DecidableEq

/-- The wording of a failure. -/
def NodeError.message : NodeError → String
  | operation error => error.message
  | store error => "store error: " ++ error.message
  | settings fault => "config error: " ++ fault.message
  | duplicateName name => s!"a node named {name} is already on this network"

/-- A notary, the directory, the live nodes by name, and the scripts by name. -/
structure Network where
  notary : Notary
  directory : Directory
  nodes : Std.TreeMap String Node
  scripts : Std.TreeMap String (List ScriptedReply)

namespace Network

/-! ### Nodes by name -/

/-- Takes a node off the network. -/
def drop (net : Network) (name : String) : Network := { net with nodes := net.nodes.erase name }

/-- Changes the node of a name, if there is one. -/
def update (net : Network) (name : String) (change : Node → Node) : Network :=
  match net.nodes[name]? with
  | some node => { net with nodes := net.nodes.insert name (change node) }
  | none => net

/-- The far end of a new session with a party. -/
def connect? (net : Network) (party : Party) : Option Peer :=
  match net.scripts[party.name]? with
  | some replies => some (.scripted replies ⟨.replicate 32 0⟩)
  | none => if party.name ∈ net.nodes then some (.node party.name .awaitingRole) else none

variable [Cryptosystem] {α : Type}

/-- A network with a notary and no nodes. -/
def new (settings : NotarySettings) : Except SettingsFault Network := do
  let notary := Notary.new settings.name (← settings.seed)
  return ⟨notary, Directory.register ∅ notary.party, ∅, ∅⟩

/-- Puts a node in the place of its name and makes all its keys known. -/
def install (net : Network) (settings : NodeSettings) (further : List Seed) :
    Except SettingsFault (Network × Party) := do
  let node := Node.new settings (← settings.seed) further
  let keys := further.map Cryptosystem.publicKey
  let directory := keys.foldl (·.registerKey node.party) (net.directory.register node.party)
  return ({ net with directory, nodes := net.nodes.insert settings.legalName node }, node.party)

/-- Starts a node, unless a live one has its name. -/
def start (net : Network) (settings : NodeSettings) : Except NodeError (Network × Party) :=
  if settings.legalName ∈ net.nodes then .error (.duplicateName settings.legalName)
  else (net.install settings []).mapError .settings

/-! ### Sessions -/

/-- A script's answer to a message, and the far end afterwards. -/
def followScript (party : Party) (replies : List ScriptedReply) (asked : TransactionId)
    (m : Message) : Peer × Except NetworkError Message :=
  let asked :=
    match m with
    | .signRequest t => t.id
    | _ => asked
  match replies with
  | .message reply :: rest => (.scripted rest asked, .ok reply)
  | .endorse signers :: rest =>
    let endorsements := signers.map fun (seed, key) ↦ Endorsement.make seed key asked
    (.scripted rest asked, .ok (.signatures endorsements))
  | .close :: _ | [] => (.scripted [] asked, .error (.sessionClosed party.name))

/-- A node's answer to a message, and the network and the phase afterwards. -/
def askNode (net : Network) (party : Party) (name : String) (phase : Phase) (m : Message) :
    Network × Phase × Except NetworkError Message :=
  match m.toFrame with
  | .error error => (net, phase, .error (.codec error))
  | .ok frame =>
    match net.nodes[name]? with
    | none => (net, .ended, .error (.sessionClosed party.name))
    | some node =>
      match node.respondToFrame phase frame with
      | (node, phase, reply) =>
        let net := { net with nodes := net.nodes.insert name node }
        match reply with
        | some frame => (net, phase, (Message.ofFrame frame).mapError .codec)
        | none => (net, phase, .error (.sessionClosed party.name))

/-- The answer to a message from the far end of a session with a party. -/
def exchange (net : Network) (party : Party) (peer : Peer) (m : Message) :
    Network × Peer × Except NetworkError Message :=
  match peer with
  | .scripted replies asked =>
    let (peer, answer) := followScript party replies asked m
    (net, peer, answer)
  | .node name phase =>
    let (net, phase, answer) := net.askNode party name phase m
    (net, .node name phase, answer)

/-- Goes through a dialogue of the node of a name. -/
def run (name : String) : Dialogue α → Network → List Peer → Network × α
  | .done result, net, _ => (net, result)
  | .openSession party next, net, peers =>
    match net.connect? party with
    | some peer => run name (next (.ok ())) net (peers ++ [peer])
    | none => run name (next (.error (.peerNotFound party.name))) net peers
  | .exchange line m next, net, peers =>
    match peers[line.number]? with
    | none => run name (next (.error (.sessionClosed line.party.name))) net peers
    | some peer =>
      let (net, peer, answer) := net.exchange line.party peer m
      run name (next answer) net (peers.set line.number peer)
  | .finalise t next, net, peers =>
    match net.notary.notarise t with
    | .error error => run name (next (.error error)) net peers
    | .ok (notary, endorsement) =>
      let t := t.endorse endorsement
      run name (next (.ok t)) ({ net with notary }.update name (·.record t)) peers

/-! ### What nodes do -/

/-- Lets the node of a name do something, if there is one: proposes and settles a transaction with
the given salt. -/
def perform (net : Network) (name : String) (salt : Block 32) (operation : Operation) :
    Option (Network × Except OperationError Transaction) := do
  let node ← net.nodes[name]?
  match node.propose ⟨net.notary.party, salt⟩ operation with
  | .error error => return (net, .error error)
  | .ok proposal =>
    return run name (Settling.settle net.directory node proposal).run net []

/-- Sends messages in a session, one after the other. -/
def askEach (line : Line) : List Message → Dialogue (List (Except NetworkError Message))
  | [] => .done []
  | m :: ms => .exchange line m fun answer ↦ do return answer :: (← askEach line ms)

/-- Opens a session for the node of a name and sends messages in it. -/
def converse (net : Network) (name : String) (party : Party) (messages : List Message) :
    Network × Except NetworkError (List (Except NetworkError Message)) :=
  let dialogue := Dialogue.openSession party fun
    | .error error => .done (.error error)
    | .ok () => do return .ok (← askEach ⟨0, party⟩ messages)
  run name dialogue net []

end Network

end Custody
