import Custody.Proofs.Dialogue
import Custody.Proofs.Roster
import Custody.Proofs.Trial

/-!
# How those on a roster are told their roles

A way through a dialogue is the list of all that is done on it, each act with its answer. Unlike
what is kept of a dialogue in the record of a settlement, nothing is left out, so that a way also
says what is not done: that no second session is opened, and nothing more is said. The ways on which
settling goes on are taken apart along the program. There is one way on which the sessions of a
roster are all opened: everyone on it is called once, signers first, and told one thing.
-/

namespace Custody

/-- Something done in a dialogue, with the answer. -/
inductive Act where
  | opens (party : Party) (answer : Except NetworkError Unit)
  | sends (line : Line) (m : Message) (answer : Except NetworkError Message)
  | finalises (t : Transaction) (answer : Except NotaryError Transaction)

namespace Dialogue

variable {α β : Type}

/-- A dialogue can go by these acts and end in this. -/
inductive Goes : Dialogue α → List Act → α → Prop
  | done {a : α} : Goes (done a) [] a
  | openSession {party : Party} {next : Except NetworkError Unit → Dialogue α} {acts : List Act}
      {a : α} (answer : Except NetworkError Unit) (h : Goes (next answer) acts a) :
      Goes (openSession party next) (.opens party answer :: acts) a
  | exchange {line : Line} {m : Message} {next : Except NetworkError Message → Dialogue α}
      {acts : List Act} {a : α} (answer : Except NetworkError Message)
      (h : Goes (next answer) acts a) :
      Goes (exchange line m next) (.sends line m answer :: acts) a
  | finalise {t : Transaction} {next : Except NotaryError Transaction → Dialogue α}
      {acts : List Act} {a : α} (answer : Except NotaryError Transaction)
      (h : Goes (next answer) acts a) :
      Goes (finalise t next) (.finalises t answer :: acts) a

variable {d : Dialogue α} {f : α → Dialogue β} {acts before after : List Act} {a : α} {b : β}

theorem goes_done_iff {a' : α} : (done a).Goes acts a' ↔ acts = [] ∧ a' = a := by
  constructor
  · rintro ⟨⟩
    exact ⟨rfl, rfl⟩
  · rintro ⟨rfl, rfl⟩
    exact .done

theorem Goes.bind (h : d.Goes before a) (hf : (f a).Goes after b) :
    (d >>= f).Goes (before ++ after) b := by
  change (d.bind f).Goes _ b
  induction h with
  | done => exact hf
  | openSession answer _ ih => exact .openSession answer (ih hf)
  | exchange answer _ ih => exact .exchange answer (ih hf)
  | finalise answer _ ih => exact .finalise answer (ih hf)

theorem Goes.exists_of_bind (h : (d >>= f).Goes acts b) :
    ∃ before a after, acts = before ++ after ∧ d.Goes before a ∧ (f a).Goes after b := by
  change (d.bind f).Goes acts b at h
  induction d generalizing acts with
  | done a => exact ⟨[], a, acts, rfl, .done, h⟩
  | openSession party next ih =>
    obtain - | ⟨answer, h⟩ := h
    obtain ⟨before, a, after, rfl, hbefore, hafter⟩ := ih answer h
    exact ⟨_ :: before, a, after, rfl, .openSession answer hbefore, hafter⟩
  | exchange line m next ih =>
    obtain - | - | ⟨answer, h⟩ := h
    obtain ⟨before, a, after, rfl, hbefore, hafter⟩ := ih answer h
    exact ⟨_ :: before, a, after, rfl, .exchange answer hbefore, hafter⟩
  | finalise t next ih =>
    obtain - | - | - | ⟨answer, h⟩ := h
    obtain ⟨before, a, after, rfl, hbefore, hafter⟩ := ih answer h
    exact ⟨_ :: before, a, after, rfl, .finalise answer hbefore, hafter⟩

end Dialogue

namespace Settling

variable {α β : Type} {m : Settling α} {f : α → Settling β} {acts : List Act}

/-- Settling can go by these acts and succeed with this. -/
def Goes (m : Settling α) (acts : List Act) (a : α) : Prop := m.run.Goes acts (.ok a)

theorem goes_pure_iff {a b : α} : Goes (pure a) acts b ↔ acts = [] ∧ b = a := by
  apply Dialogue.goes_done_iff.trans
  rw [Except.ok.injEq]

/-- Settling succeeds when its first part does, and then the rest. -/
theorem goes_bind_iff {b : β} : Goes (m >>= f) acts b ↔
    ∃ before a after, acts = before ++ after ∧ Goes m before a ∧ Goes (f a) after b := by
  unfold Goes
  rw [ExceptT.run_bind]
  constructor
  · intro h
    obtain ⟨before, outcome, after, hacts, hbefore, hafter⟩ := h.exists_of_bind
    cases outcome with
    | error e => cases (Dialogue.goes_done_iff.mp hafter).2
    | ok a => exact ⟨before, a, after, hacts, hbefore, hafter⟩
  · rintro ⟨before, a, after, rfl, hbefore, hafter⟩
    exact hbefore.bind hafter

theorem goes_openSession_iff {party : Party} {u : Unit} :
    Goes (openSession party) acts u ↔ acts = [.opens party (.ok ())] := by
  constructor
  · rintro (- | ⟨answer, h⟩)
    obtain ⟨rfl, hanswer⟩ := Dialogue.goes_done_iff.mp h
    cases answer with
    | error e => cases hanswer
    | ok u => rfl
  · rintro rfl
    exact .openSession (.ok ()) .done

theorem goes_askForAck_iff {line : Line} {message : Message} {u : Unit} :
    Goes (askForAck line message) acts u ↔ acts = [.sends line message (.ok .ack)] := by
  constructor
  · rintro (- | - | ⟨answer, h⟩)
    obtain ⟨rfl, hanswer⟩ := Dialogue.goes_done_iff.mp h
    cases answer with
    | error e => cases hanswer
    | ok reply =>
      cases reply with
      | ack => rfl
      | _ => cases hanswer
  · rintro rfl
    exact .exchange (.ok .ack) .done

/-- Rounds of which each succeeds in one way succeed in one way. -/
theorem goes_mapM_iff {script : α → List Act} {result : α → β}
    (h : ∀ x acts b, Goes (f x) acts b ↔ acts = script x ∧ b = result x) {xs : List α}
    {bs : List β} : Goes (xs.mapM f) acts bs ↔ acts = xs.flatMap script ∧ bs = xs.map result := by
  induction xs generalizing acts bs with
  | nil => exact goes_pure_iff
  | cons x xs ih =>
    simp only [List.mapM_cons, goes_bind_iff, h, ih, goes_pure_iff]
    constructor
    · rintro ⟨_, _, _, rfl, ⟨rfl, rfl⟩, _, _, _, rfl, ⟨rfl, rfl⟩, rfl, rfl⟩
      simp
    · rintro ⟨rfl, rfl⟩
      exact ⟨_, _, _, rfl, ⟨rfl, rfl⟩, _, _, [], (List.append_nil _).symm, ⟨rfl, rfl⟩, rfl, rfl⟩

end Settling

/-! ### Telling everyone their role -/

namespace Roster

/-- A party is called, and told whether it signs. -/
def introduction (number : Nat) (party : Party) (signs : Bool) : List Act :=
  [.opens party (.ok ()), .sends ⟨number, party⟩ (.role signs) (.ok .ack)]

/-- All that happens when everyone on a roster is told. -/
def introductions (roster : Roster) : List Act :=
  (roster.signers ++ roster.observers).zipIdx.flatMap fun (party, number) ↦
    introduction number party (roster.hasSigner party)

variable {directory : Directory} {keyring : Keyring} {us : Party}
  {required observers : List PublicKey} {roster : Roster} {acts : List Act}
  {sessions : List OpenSession}

theorem goes_openSessions_iff : (Settling.openSessions roster).Goes acts sessions ↔
    acts = roster.counterparties.zipIdx.flatMap (fun ((party, role), number) ↦
      introduction number party role.flag) ∧
    sessions = roster.counterparties.zipIdx.map fun ((party, role), number) ↦
      ⟨⟨number, party⟩, role⟩ := by
  apply Settling.goes_mapM_iff
  rintro ⟨⟨party, role⟩, number⟩ acts s
  simp only [Settling.goes_bind_iff, Settling.goes_openSession_iff, Settling.goes_askForAck_iff,
    Settling.goes_pure_iff]
  constructor
  · rintro ⟨_, _, _, rfl, rfl, _, _, _, rfl, rfl, rfl, rfl⟩
    exact ⟨rfl, rfl⟩
  · rintro ⟨rfl, rfl⟩
    exact ⟨_, (), _, rfl, rfl, _, (), [], rfl, rfl, rfl, rfl⟩

theorem flag_ofFlag {signs : Bool} : (SessionRole.ofFlag signs).flag = signs := by
  cases signs with
  | false => rfl
  | true => rfl

/-- The role of everyone on a roster that lists nobody twice is that of a signer exactly for the
signers. -/
theorem counterparties_eq (h : (roster.signers ++ roster.observers).Nodup) :
    roster.counterparties = (roster.signers ++ roster.observers).map fun party ↦
      (party, SessionRole.ofFlag (roster.hasSigner party)) := by
  rw [counterparties, List.map_append]
  congr 1
  · apply List.map_congr_left
    intro party hparty
    rw [hasSigner, List.contains_iff_mem.mpr hparty]
    rfl
  · apply List.map_congr_left
    intro party hparty
    have hother : roster.signers.contains party = false := by
      rw [Bool.eq_false_iff, ne_eq, List.contains_iff_mem]
      exact fun hsigner ↦ (List.nodup_append.mp h).2.2 party hsigner party hparty rfl
    rw [hasSigner, hother]
    rfl

/-- On the ways on which all sessions are opened, each party is called once and told its role. -/
theorem exists_goes_openSessions_iff (h : (roster.signers ++ roster.observers).Nodup) :
    (∃ sessions, (Settling.openSessions roster).Goes acts sessions) ↔
      acts = roster.introductions := by
  simp only [goes_openSessions_iff, exists_and_left, exists_eq, and_true]
  rw [counterparties_eq h, List.zipIdx_map, List.flatMap_map]
  simp only [Prod.map, id_eq, flag_ofFlag]
  rfl

/-- A roster comes about unless some required key cannot be signed with, and then the smallest such
key is named. It divides those concerned, and its sessions are opened in one way only: everyone on
it is called once, signers first, and told once whether to sign. -/
theorem fan_out (directory : Directory) (keyring : Keyring) (us : Party)
    (required observers : List PublicKey) :
    ((∃ e, build directory keyring us required observers = .error e) ↔
      ∃ key ∈ required, Unsignable directory keyring us key) ∧
    (∀ e, build directory keyring us required observers = .error e →
      ∃ key ∈ required, Obstacle directory keyring us key e ∧
        ∀ other ∈ required, Unsignable directory keyring us other →
          other = key ∨ compare key other = .lt) ∧
    ∀ roster, build directory keyring us required observers = .ok roster →
      Divides directory keyring us required observers roster ∧
        ∀ acts, (∃ sessions, (Settling.openSessions roster).Goes acts sessions) ↔
          acts = roster.introductions := by
  refine ⟨exists_build_eq_error_iff, fun e ↦ exists_least_of_build_eq_error, fun roster h ↦ ?_⟩
  have hdivides := divides_of_build h
  exact ⟨hdivides, fun acts ↦ exists_goes_openSessions_iff hdivides.nodup⟩

namespace Conference

open Trial (seed key)

def alice : Party := ⟨"Alice", key 1⟩

def bob : Party := ⟨"Bob", key 3⟩

def carol : Party := ⟨"Carol", key 5⟩

/-- Two of the parties have two keys. -/
def known : Directory :=
  .ofList [(key 1, alice), (key 2, alice), (key 3, bob), (key 4, bob), (key 5, carol)]

/-- Alice holds only one of hers. -/
def held : Keyring := .ofList [(key 1, seed 1)]

end Conference

open Conference Trial in
theorem fan_out_conference :
    (∃ e, build known held alice [key 9, key 3, key 2] [] = .error e ∧
      ∃ k ∈ [key 9, key 3, key 2], Obstacle known held alice k e) ∧
    ∃ roster, build known held alice [key 4, key 3, key 1] [key 2, key 5, key 4, key 5] =
      .ok roster ∧ roster.heldKeys = [key 1] ∧ ∃ sessions, (Settling.openSessions roster).Goes
        (introduction 0 bob true ++ introduction 1 carol false) sessions := by
  have hfails : build known held alice [key 9, key 3, key 2] [] =
      .error (.keyNotOwned (key 2)) := by
    decide +kernel
  have hbuild : build known held alice [key 4, key 3, key 1] [key 2, key 5, key 4, key 5] =
      .ok ⟨[key 1], [bob], [carol]⟩ := by
    decide +kernel
  obtain ⟨-, hleast, -⟩ := fan_out known held alice [key 9, key 3, key 2] []
  obtain ⟨k, hk, hobstacle, -⟩ := hleast _ hfails
  obtain ⟨-, -, hsucceeds⟩ :=
    fan_out known held alice [key 4, key 3, key 1] [key 2, key 5, key 4, key 5]
  exact ⟨⟨_, hfails, k, hk, hobstacle⟩, _, hbuild, rfl, ((hsucceeds _ hbuild).2 _).mpr rfl⟩

end Roster

end Custody
