import Custody.Proofs.Network.History

/-!
# Operations that overlap

Nodes need not wait for each other, nor for themselves: between the rounds of one operation, those
of others may come. An operation under way is the rest of its dialogue with the far ends of its
sessions; a scene keeps those under way next to the history so far. One turn begins an operation,
from what its node holds at that moment, or takes one of those under way a round further. Taken
round after round without a break, an operation does what it does when it is run.
-/

namespace Custody

/-! ### Rounds of a dialogue -/

/-- Whether nothing is left of a dialogue. -/
def Dialogue.isOver {α : Type} : Dialogue α → Bool
  | done _ => true
  | _ => false

/-- How far a dialogue has come: the network, what is still to be said, and the far ends of the
sessions. -/
structure Stage (α : Type) where
  net : Network
  rest : Dialogue α
  peers : List Peer

namespace Stage

variable [Cryptosystem] {α : Type} {name : String}

/-- One round of a dialogue of the node of a name, and what is finalised in it. -/
def round (name : String) (s : Stage α) : Stage α × List Transaction :=
  match s.rest with
  | .done _ => (s, [])
  | .openSession party next =>
    match s.net.connect? party with
    | some peer => (⟨s.net, next (.ok ()), s.peers ++ [peer]⟩, [])
    | none => (⟨s.net, next (.error (.peerNotFound party.name)), s.peers⟩, [])
  | .exchange line m next =>
    match s.peers[line.number]? with
    | none => (⟨s.net, next (.error (.sessionClosed line.party.name)), s.peers⟩, [])
    | some peer =>
      let (net, peer, answer) := s.net.exchange line.party peer m
      (⟨net, next answer, s.peers.set line.number peer⟩, [])
  | .finalise t next =>
    match s.net.notary.notarise t with
    | .error error => (⟨s.net, next (.error error), s.peers⟩, [])
    | .ok (notary, endorsement) =>
      let t := t.endorse endorsement
      (⟨{ s.net with notary }.update name (·.record t), next (.ok t), s.peers⟩, [t])

theorem round_of_isOver {s : Stage α} (h : s.rest.isOver = true) : s.round name = (s, []) := by
  obtain ⟨net, rest, peers⟩ := s
  cases rest with
  | done result => rfl
  | _ => exact nomatch h

/-- What is over stays so. -/
theorem isOver_eq_false_of_round {s : Stage α} (h : (s.round name).1.rest.isOver = false) :
    s.rest.isOver = false := by
  rw [Bool.eq_false_iff]
  intro hover
  rw [round_of_isOver hover] at h
  cases hover.symm.trans h

/-- Nothing is finalised any more when a dialogue is over. -/
theorem isOver_eq_false_of_mem {s : Stage α} {t : Transaction} (h : t ∈ (s.round name).2) :
    s.rest.isOver = false := by
  rw [Bool.eq_false_iff]
  intro hover
  rw [round_of_isOver hover] at h
  exact absurd h List.not_mem_nil

/-- A round leaves it open how the dialogue ends. -/
theorem run_round {s : Stage α} :
    Network.run name (s.round name).1.rest (s.round name).1.net (s.round name).1.peers =
      Network.run name s.rest s.net s.peers := by
  obtain ⟨net, rest, peers⟩ := s
  unfold round
  cases rest with
  | done result => rfl
  | openSession party next =>
    conv_rhs => unfold Network.run
    simp only
    cases net.connect? party with
    | none => rfl
    | some peer => rfl
  | exchange line m next =>
    conv_rhs => unfold Network.run
    simp only
    cases peers[line.number]? with
    | none => rfl
    | some peer => rfl
  | finalise t next =>
    conv_rhs => unfold Network.run
    simp only
    cases net.notary.notarise t with
    | error error => rfl
    | ok signed => rfl

/-- What is finalised in a round comes first of what is finalised from there on. -/
theorem finalised_round {s : Stage α} :
    (s.round name).2 ++ Network.finalised name (s.round name).1.rest (s.round name).1.net
      (s.round name).1.peers = Network.finalised name s.rest s.net s.peers := by
  obtain ⟨net, rest, peers⟩ := s
  unfold round
  cases rest with
  | done result => rfl
  | openSession party next =>
    conv_rhs => unfold Network.finalised
    simp only
    cases net.connect? party with
    | none => rfl
    | some peer => rfl
  | exchange line m next =>
    conv_rhs => unfold Network.finalised
    simp only
    cases peers[line.number]? with
    | none => rfl
    | some peer => rfl
  | finalise t next =>
    conv_rhs => unfold Network.finalised
    simp only
    cases net.notary.notarise t with
    | error error => rfl
    | ok signed => rfl

/-- Some rounds in a row, and what is finalised in them. -/
def rounds (name : String) : Nat → Stage α → Stage α × List Transaction
  | 0, s => (s, [])
  | count + 1, s =>
    let (next, ts) := s.round name
    let (last, rest) := next.rounds name count
    (last, ts ++ rest)

/-- A stage from which the dialogue is brought to the end that running it has. -/
def Concludes (name : String) (s : Stage α) : Prop :=
  ∃ count peers, s.rounds name count =
    (⟨(Network.run name s.rest s.net s.peers).1,
      .done (Network.run name s.rest s.net s.peers).2, peers⟩,
      Network.finalised name s.rest s.net s.peers)

theorem Concludes.of_round {s : Stage α} (h : (s.round name).1.Concludes name) :
    s.Concludes name := by
  obtain ⟨count, peers, h⟩ := h
  refine ⟨count + 1, peers, ?_⟩
  unfold rounds
  simp only
  rw [h, run_round, finalised_round]

/-- Taken round after round without a break, every dialogue comes to the end that running it has. -/
theorem concludes {s : Stage α} : s.Concludes name := by
  obtain ⟨net, rest, peers⟩ := s
  induction rest generalizing net peers with
  | done result => exact ⟨0, peers, rfl⟩
  | openSession party next ih =>
    apply Concludes.of_round
    unfold round
    simp only
    cases net.connect? party with
    | none => exact ih _ net peers
    | some peer => exact ih _ net (peers ++ [peer])
  | exchange line m next ih =>
    apply Concludes.of_round
    unfold round
    simp only
    cases peers[line.number]? with
    | none => exact ih _ net peers
    | some peer => exact ih _ _ _
  | finalise t next ih =>
    apply Concludes.of_round
    unfold round
    simp only
    cases net.notary.notarise t with
    | error error => exact ih _ net peers
    | ok signed => exact ih _ _ peers

/-- What a round does to the network: nothing, or a node advances by what is known, or the notary
signs what is promised and the node that asked records it. What comes after the round relies on no
more than was known and has been finalised in it. -/
theorem round_cases {s : Stage α} {promise known : Transaction → Prop} {post : α → Prop}
    (hkeeps : s.rest.Keeps promise known post) :
    (∃ known', (∀ u, known' u → known u ∨ u ∈ (s.round name).2) ∧
      (s.round name).1.rest.Keeps promise known' post) ∧
    ((s.round name).2 = [] ∧ ((s.round name).1.net = s.net ∨ ∃ other change handed,
        (∀ node, Node.Advances handed node (change node)) ∧ (∀ u, handed u → known u) ∧
          (s.round name).1.net = s.net.update other change) ∨
      ∃ t notary e, promise t ∧ s.net.notary.notarise t = .ok (notary, e) ∧
        (s.round name).2 = [t.endorse e] ∧
        (s.round name).1.net = ({ s.net with notary } : Network).update name
          (·.record (t.endorse e))) := by
  obtain ⟨net, rest, peers⟩ := s
  unfold round
  cases rest with
  | done result => exact ⟨⟨known, fun _ ↦ .inl, hkeeps⟩, .inl ⟨rfl, .inl rfl⟩⟩
  | openSession party next =>
    simp only
    cases net.connect? party with
    | none => exact ⟨⟨known, fun _ ↦ .inl, hkeeps _⟩, .inl ⟨rfl, .inl rfl⟩⟩
    | some peer => exact ⟨⟨known, fun _ ↦ .inl, hkeeps _⟩, .inl ⟨rfl, .inl rfl⟩⟩
  | exchange line m next =>
    simp only
    cases peers[line.number]? with
    | none => exact ⟨⟨known, fun _ ↦ .inl, hkeeps.2 _⟩, .inl ⟨rfl, .inl rfl⟩⟩
    | some peer =>
      refine ⟨⟨known, fun _ ↦ .inl, hkeeps.2 _⟩, .inl ⟨rfl, ?_⟩⟩
      exact Network.exchange_cases.imp_right fun ⟨other, change, hchange, hupdate⟩ ↦
        ⟨other, change, _, hchange, hkeeps.1, hupdate⟩
  | finalise t next =>
    simp only
    cases hnotarise : net.notary.notarise t with
    | error error =>
      refine ⟨⟨_, ?_, hkeeps.2 _⟩, .inl ⟨rfl, .inl rfl⟩⟩
      exact fun _ hu ↦ .inl (hu.resolve_right nofun)
    | ok signed =>
      refine ⟨⟨_, ?_, hkeeps.2 _⟩, .inr ⟨t, signed.1, signed.2, hkeeps.1, hnotarise, rfl, rfl⟩⟩
      exact fun _ hu ↦ hu.imp_right fun hu ↦ List.mem_singleton.mpr (Except.ok.inj hu).symm

end Stage

/-! ### Scenes -/

/-- An operation that a node has begun: what it was to do, the content it proposed, the rest of its
dialogue, and the far ends of the sessions. -/
structure Underway where
  name : String
  operation : Operation
  content : Content
  rest : Dialogue (Except OperationError Transaction)
  peers : List Peer

/-- A node that has begun to accept a request and is not done with it. -/
def Underway.isAccepting (u : Underway) : Bool :=
  u.operation.step? == some .reissue && !u.rest.isOver

/-- A history so far, and the operations under way in the order of their beginning. -/
structure Scene extends History where
  underway : List Underway

/-- What comes next on a network whose operations overlap. -/
inductive Turn where
  | start (settings : NodeSettings) (further : List Seed)
  | attach (name : String) (blob : Bytes)
  | launch (name : String) (salt : Block 32) (operation : Operation)
  /-- One more round of the operation at a position. -/
  | resume (number : Nat)

namespace Scene

variable [Cryptosystem]

/-- Nothing has been finalised yet, and nothing is under way. -/
def start (net : Network) : Scene := ⟨.start net, []⟩

/-- What a node proposes, if it gets so far, is under way. -/
def launch (s : Scene) (name : String) (salt : Block 32) (operation : Operation) : Scene :=
  match s.net.nodes[name]? with
  | none => s
  | some node =>
    match node.propose ⟨s.net.notary.party, salt⟩ operation with
    | .error _ => s
    | .ok p =>
      let rest := (Settling.settle s.net.directory node p).run
      { s with underway := s.underway ++ [⟨name, operation, p.content, rest, []⟩] }

/-- One more round of an operation. -/
def resume (s : Scene) (number : Nat) : Scene :=
  match s.underway[number]? with
  | none => s
  | some u =>
    let (stage, ts) := Stage.round u.name ⟨s.net, u.rest, u.peers⟩
    { net := stage.net
      finalised := s.finalised ++ ts.map fun t ↦ (u.name, t)
      underway := s.underway.set number { u with rest := stage.rest, peers := stage.peers } }

/-- The scene after a turn. -/
def take (s : Scene) : Turn → Scene
  | .start settings further => { s with net := s.net.after (.start settings further) }
  | .attach name blob => { s with net := s.net.after (.attach name blob) }
  | .launch name salt operation => s.launch name salt operation
  | .resume number => s.resume number

def run (s : Scene) (turns : List Turn) : Scene := turns.foldl take s

/-- Turns that go to one operation are rounds of its dialogue. -/
theorem run_replicate_resume {s : Scene} {number : Nat} {u : Underway}
    (hu : s.underway[number]? = some u) {count : Nat}
    {stage : Stage (Except OperationError Transaction)} {ts : List Transaction}
    (h : Stage.rounds u.name count ⟨s.net, u.rest, u.peers⟩ = (stage, ts)) :
    (s.run (List.replicate count (.resume number))).net = stage.net ∧
      (s.run (List.replicate count (.resume number))).underway[number]? =
        some { u with rest := stage.rest, peers := stage.peers } := by
  induction count generalizing s u ts with
  | zero =>
    obtain ⟨rfl, -⟩ := Prod.mk.inj h
    exact ⟨rfl, hu⟩
  | succ count ih =>
    obtain ⟨rfl, -⟩ := Prod.mk.inj h
    let next := (Stage.round u.name ⟨s.net, u.rest, u.peers⟩).1
    let v : Underway := { u with rest := next.rest, peers := next.peers }
    have hnet : (s.resume number).net = next.net := by
      unfold resume
      rw [hu]
    have hv : (s.resume number).underway[number]? = some v := by
      unfold resume
      rw [hu]
      exact List.getElem?_set_self (List.getElem?_eq_some_iff.mp hu).1
    have hrounds : Stage.rounds v.name count ⟨(s.resume number).net, v.rest, v.peers⟩ =
        ((Stage.rounds u.name count next).1, (Stage.rounds u.name count next).2) := by
      rw [hnet]
    have hrest := ih hv hrounds
    exact hrest

/-- An operation that succeeds without a break is a launch and as many rounds as it takes. -/
theorem exists_rounds_of_perform {s : Scene} {name : String} {salt : Block 32}
    {operation : Operation} {net : Network} {t : Transaction}
    (h : s.net.perform name salt operation = some (net, .ok t)) :
    ∃ count u,
      ((s.launch name salt operation).run
        (List.replicate count (.resume s.underway.length))).net = net ∧
      ((s.launch name salt operation).run
        (List.replicate count (.resume s.underway.length))).underway[s.underway.length]? = some u ∧
      u.rest = .done (.ok t) := by
  unfold Network.perform at h
  unfold launch
  cases hnode : s.net.nodes[name]? with
  | none =>
    rw [hnode] at h
    cases h
  | some node =>
  rw [hnode] at h
  simp only [Option.bind_eq_bind, Option.bind_some] at h
  cases hp : node.propose ⟨s.net.notary.party, salt⟩ operation with
  | error e =>
    rw [hp] at h
    cases h
  | ok p =>
  rw [hp, Option.pure_def, Option.some.injEq] at h
  obtain ⟨count, peers, hrounds⟩ :=
    @Stage.concludes _ _ name ⟨s.net, (Settling.settle s.net.directory node p).run, []⟩
  simp only at hrounds ⊢
  rw [h] at hrounds
  rw [hp]
  let u : Underway :=
    ⟨name, operation, p.content, (Settling.settle s.net.directory node p).run, []⟩
  have hu : (s.underway ++ [u])[s.underway.length]? = some u := List.getElem?_concat_length
  obtain ⟨hnet, hlast⟩ :=
    @run_replicate_resume _ { s with underway := s.underway ++ [u] } _ u hu _ _ _ hrounds
  exact ⟨count, _, hnet, hlast, rfl⟩

/-- A node does not begin to accept while it is accepting. -/
def admits (s : Scene) : Turn → Bool
  | .launch name _ operation =>
    operation.step? != some .reissue || s.underway.all fun u ↦ u.name != name || !u.isAccepting
  | _ => true

omit [Cryptosystem] in
theorem admits_launch_iff {s : Scene} {name : String} {salt : Block 32} {operation : Operation} :
    s.admits (.launch name salt operation) = true ↔
      (operation.step? = some .reissue →
        ∀ u ∈ s.underway, u.isAccepting = true → u.name ≠ name) := by
  simp only [admits, Bool.or_eq_true, bne_iff_ne, List.all_eq_true, Bool.not_eq_true']
  rw [imp_iff_not_or]
  apply or_congr_right
  apply forall₂_congr
  intro u _
  rw [or_comm, ← Bool.not_eq_true, imp_iff_not_or]

/-- Every node is done with one acceptance before it begins the next. -/
def AcceptsInTurn (s : Scene) : List Turn → Bool
  | [] => true
  | turn :: turns => s.admits turn && (s.take turn).AcceptsInTurn turns

end Scene

end Custody
