import Custody.Notary
import Custody.Proofs.Maps
import Custody.Proofs.Outcome
import Custody.Proofs.Trial

/-!
# What a notary signs is unique

A notary answers calls one after the other. `attend` is its work in place: it looks every input up,
then enters every input, and nothing takes back what was entered when a later step fails. Nothing
has to be taken back, because entering begins only after the last look; so `attend` comes to the
same as `notarise`. Over any run of calls the map of what has been consumed records exactly the
inputs of what was signed, and never two consumers of one output.
-/

namespace Custody.Notary

/-! ### Looking up and entering -/

/-- A call of a notary. What it changes stays changed when it fails. -/
abbrev Call := EStateM NotaryError Notary

/-- Looks an input up. -/
def lookUp (id : TransactionId) (input : OutputRef) : Call Unit := do
  if let some consumer := (← get).spent[input]? then
    if consumer ≠ id then throw (.conflict input consumer)

/-- Enters an input as consumed. -/
def enter (id : TransactionId) (input : OutputRef) : Call Unit :=
  modify fun n ↦ { n with spent := n.spent.insert input id }

theorem run_lookUp {id : TransactionId} {input : OutputRef} {n : Notary} :
    (lookUp id input).run n =
      match n.spent[input]? with
      | some consumer => if consumer = id then .ok () n else .error (.conflict input consumer) n
      | none => .ok () n := by
  unfold lookUp
  rw [EStateM.run_bind, EStateM.run_get]
  simp only
  cases n.spent[input]? with
  | none => rfl
  | some consumer =>
    by_cases hid : consumer = id
    · simp only [hid, if_true, ne_eq, not_true_eq_false, if_false, EStateM.run_pure]
    · simp only [hid, if_false, ne_eq, not_false_eq_true, if_true, EStateM.run_throw]

/-- Looking inputs up changes nothing, and fails at the first conflict. -/
theorem run_forM_lookUp {t : Transaction} {n : Notary} :
    (t.content.inputs.forM (lookUp t.id)).run n =
      match n.conflict? t with
      | some (input, consumer) => .error (.conflict input consumer) n
      | none => .ok () n := by
  unfold conflict?
  induction t.content.inputs with
  | nil => rfl
  | cons input inputs ih =>
    change (lookUp t.id input >>= fun _ ↦ inputs.forM (lookUp t.id)).run n = _
    rw [EStateM.run_bind, run_lookUp, List.findSome?_cons]
    cases n.spent[input]? with
    | none => exact ih
    | some consumer =>
      by_cases hid : consumer = t.id
      · simp only [hid, if_true]
        exact ih
      · simp only [hid, if_false]

/-- Entering inputs never fails. -/
theorem run_forM_enter {t : Transaction} {n : Notary} :
    (t.content.inputs.forM (enter t.id)).run n = .ok () (n.spend t) := by
  unfold spend
  induction t.content.inputs generalizing n with
  | nil => rfl
  | cons input inputs ih =>
    change (enter t.id input >>= fun _ ↦ inputs.forM (enter t.id)).run n = _
    rw [EStateM.run_bind, enter, EStateM.run_modify]
    exact ih

theorem conflict?_eq_none_iff {t : Transaction} {n : Notary} :
    n.conflict? t = none ↔
      ∀ input ∈ t.content.inputs, ∀ consumer, n.consumedBy? input = some consumer →
        consumer = t.id := by
  unfold conflict? consumedBy?
  rw [List.findSome?_eq_none_iff]
  apply forall₂_congr
  intro input _
  cases n.spent[input]? with
  | none => simp
  | some consumer => simp

theorem consumedBy?_spend {t : Transaction} {n : Notary} {r : OutputRef} :
    (n.spend t).consumedBy? r = if r ∈ t.content.inputs then some t.id else n.consumedBy? r := by
  unfold spend consumedBy?
  exact getElem?_insertAll

/-! ### One call -/

variable [Cryptosystem]

/-- Answers a call: checks the transaction, looks all inputs up, enters them and signs. -/
def attend (t : Transaction) : Call Endorsement := do
  let n ← get
  MonadExcept.ofExcept (n.admits t)
  t.content.inputs.forM (lookUp t.id)
  t.content.inputs.forM (enter t.id)
  return .make n.seed n.party.key t.id

theorem notarise_eq {t : Transaction} {n : Notary} :
    n.notarise t =
      match n.admits t with
      | .error e => .error e
      | .ok () =>
        match n.conflict? t with
        | some (input, consumer) => .error (.conflict input consumer)
        | none => .ok (n.spend t, .make n.seed n.party.key t.id) := by
  unfold notarise
  cases n.admits t with
  | error e => rfl
  | ok _ =>
  cases n.conflict? t with
  | some conflict => rfl
  | none => rfl

theorem notarise_eq_ok_iff {t : Transaction} {n n' : Notary} {e : Endorsement} :
    n.notarise t = .ok (n', e) ↔ n.admits t = .ok () ∧ n.conflict? t = none ∧
      n.spend t = n' ∧ .make n.seed n.party.key t.id = e := by
  rw [notarise_eq]
  cases n.admits t with
  | error e => simp
  | ok _ =>
  cases n.conflict? t with
  | some conflict => simp
  | none => simp

/-- Signing for a transaction does not change who the notary is. -/
theorem party_seed_of_notarise {t : Transaction} {n n' : Notary} {e : Endorsement}
    (h : n.notarise t = .ok (n', e)) : n'.party = n.party ∧ n'.seed = n.seed := by
  obtain ⟨-, -, rfl, -⟩ := notarise_eq_ok_iff.mp h
  exact ⟨rfl, rfl⟩

/-- Signing for a transaction makes the notary forget nothing. -/
theorem consumedBy?_of_notarise {t : Transaction} {n n' : Notary} {e : Endorsement}
    (h : n.notarise t = .ok (n', e)) {r : OutputRef} {id : TransactionId}
    (hconsumed : n.consumedBy? r = some id) : n'.consumedBy? r = some id := by
  obtain ⟨-, hconflict, rfl, -⟩ := notarise_eq_ok_iff.mp h
  rw [consumedBy?_spend]
  split
  · rename_i hr
    rw [conflict?_eq_none_iff.mp hconflict r hr id hconsumed]
  · exact hconsumed

theorem consumedBy?_input_of_notarise {t : Transaction} {n n' : Notary} {e : Endorsement}
    (h : n.notarise t = .ok (n', e)) {r : OutputRef} (hr : r ∈ t.content.inputs) :
    n'.consumedBy? r = some t.id := by
  obtain ⟨-, -, rfl, -⟩ := notarise_eq_ok_iff.mp h
  rw [consumedBy?_spend, if_pos hr]

/-- The work in place comes to `notarise`, with the notary as it was when the call is refused. -/
theorem run_attend {t : Transaction} {n : Notary} :
    (attend t).run n =
      match n.notarise t with
      | .ok (n', endorsement) => .ok endorsement n'
      | .error e => .error e n := by
  unfold attend
  rw [notarise_eq, EStateM.run_bind, EStateM.run_get]
  simp only
  cases n.admits t with
  | error e => rfl
  | ok _ =>
  rw [EStateM.run_bind, MonadExcept.ofExcept, EStateM.run_pure]
  simp only [EStateM.run_bind, run_forM_lookUp, run_forM_enter]
  cases n.conflict? t with
  | some conflict => rfl
  | none => rfl

/-- The notary after a call, and the answer. -/
def answer (n : Notary) (t : Transaction) : Notary × Except NotaryError Endorsement :=
  match (attend t).run n with
  | .ok endorsement n' => (n', .ok endorsement)
  | .error e n' => (n', .error e)

theorem answer_eq_of_ok {t : Transaction} {n n' : Notary} {e : Endorsement}
    (h : n.notarise t = .ok (n', e)) : n.answer t = (n', .ok e) := by
  rw [answer, run_attend, h]

theorem answer_eq_of_error {t : Transaction} {n : Notary} {error : NotaryError}
    (h : n.notarise t = .error error) : n.answer t = (n, .error error) := by
  rw [answer, run_attend, h]

/-- What a call changes: its inputs are consumed, if it is granted. -/
theorem consumedBy?_answer_iff {t : Transaction} {n : Notary} {r : OutputRef}
    {id : TransactionId} :
    (n.answer t).1.consumedBy? r = some id ↔ n.consumedBy? r = some id ∨
      (∃ e, (n.answer t).2 = .ok e) ∧ t.id = id ∧ r ∈ t.content.inputs := by
  cases hnotarise : n.notarise t with
  | error e => simp [answer_eq_of_error hnotarise]
  | ok result =>
    obtain ⟨n', e⟩ := result
    rw [answer_eq_of_ok hnotarise]
    obtain ⟨-, hconflict, rfl, -⟩ := notarise_eq_ok_iff.mp hnotarise
    rw [consumedBy?_spend]
    by_cases hr : r ∈ t.content.inputs
    · have hsame := conflict?_eq_none_iff.mp hconflict r hr
      rw [if_pos hr, Option.some.injEq]
      constructor
      · intro hid
        exact .inr ⟨⟨e, rfl⟩, hid, hr⟩
      · rintro (hid | ⟨-, hid, -⟩)
        · exact (hsame id hid).symm
        · exact hid
    · simp [hr]

/-- A call does not change who the notary is. -/
theorem answer_party_seed {t : Transaction} {n : Notary} :
    (n.answer t).1.party = n.party ∧ (n.answer t).1.seed = n.seed := by
  cases hnotarise : n.notarise t with
  | error e => simp [answer_eq_of_error hnotarise]
  | ok result =>
    obtain ⟨n', e⟩ := result
    rw [answer_eq_of_ok hnotarise]
    exact party_seed_of_notarise hnotarise

theorem admits_congr {t : Transaction} {n n' : Notary} (h : n.party = n'.party) :
    n.admits t = n'.admits t := by
  unfold admits
  rw [h]

/-! ### Any run of calls -/

/-- The calls answered, each with its answer. -/
abbrev Log := List (Transaction × Except NotaryError Endorsement)

/-- Answers calls one after the other. -/
def serve (n : Notary) : List Transaction → Notary × Log
  | [] => (n, [])
  | t :: ts =>
    let (n, answer) := n.answer t
    let (n, log) := n.serve ts
    (n, (t, answer) :: log)

theorem serve_cons {t : Transaction} {ts : List Transaction} {n : Notary} :
    n.serve (t :: ts) =
      (((n.answer t).1.serve ts).1, (t, (n.answer t).2) :: ((n.answer t).1.serve ts).2) := rfl

/-- A call for the transaction was granted. -/
def Log.Signed (log : Log) (t : Transaction) : Prop := ∃ e, (t, .ok e) ∈ log

/-- What is consumed was consumed before, or by a call that was granted. -/
theorem consumedBy?_serve_iff {ts : List Transaction} {n : Notary} {r : OutputRef}
    {id : TransactionId} :
    (n.serve ts).1.consumedBy? r = some id ↔ n.consumedBy? r = some id ∨
      ∃ t, (n.serve ts).2.Signed t ∧ t.id = id ∧ r ∈ t.content.inputs := by
  induction ts generalizing n with
  | nil => simp [serve, Log.Signed]
  | cons t ts ih =>
    rw [serve_cons, ih, consumedBy?_answer_iff, or_assoc]
    apply or_congr_right
    constructor
    · rintro (⟨⟨e, he⟩, hid, hr⟩ | ⟨u, ⟨e, he⟩, hid, hr⟩)
      · exact ⟨t, ⟨e, by rw [← he]; exact List.mem_cons_self⟩, hid, hr⟩
      · exact ⟨u, ⟨e, List.mem_cons_of_mem _ he⟩, hid, hr⟩
    · rintro ⟨u, ⟨e, he⟩, hid, hr⟩
      rcases List.mem_cons.mp he with heq | hmem
      · rw [Prod.mk.injEq] at heq
        obtain ⟨rfl, he⟩ := heq
        exact .inl ⟨⟨e, he.symm⟩, hid, hr⟩
      · exact .inr ⟨u, ⟨e, hmem⟩, hid, hr⟩

theorem serve_party_seed {ts : List Transaction} {n : Notary} :
    (n.serve ts).1.party = n.party ∧ (n.serve ts).1.seed = n.seed := by
  induction ts generalizing n with
  | nil => exact ⟨rfl, rfl⟩
  | cons t ts ih =>
    obtain ⟨hparty, hseed⟩ := @answer_party_seed _ t n
    obtain ⟨hparty', hseed'⟩ := @ih (n.answer t).1
    exact ⟨hparty'.trans hparty, hseed'.trans hseed⟩

/-- A call that was granted is one the notary admits, and its answer is the endorsement that only
the notary can make. -/
theorem admits_of_mem_serve {ts : List Transaction} {n : Notary} {t : Transaction}
    {e : Endorsement} (h : (t, .ok e) ∈ (n.serve ts).2) :
    n.admits t = .ok () ∧ .make n.seed n.party.key t.id = e := by
  induction ts generalizing n with
  | nil => exact absurd h List.not_mem_nil
  | cons u ts ih =>
    obtain ⟨hparty, hseed⟩ := @answer_party_seed _ u n
    rw [serve_cons] at h
    rcases List.mem_cons.mp h with heq | hmem
    · rw [Prod.mk.injEq] at heq
      obtain ⟨rfl, he⟩ := heq
      cases hnotarise : n.notarise t with
      | error error => simp [answer_eq_of_error hnotarise] at he
      | ok result =>
        obtain ⟨n', e'⟩ := result
        rw [answer_eq_of_ok hnotarise] at he
        obtain ⟨hadmits, -, -, hmake⟩ := notarise_eq_ok_iff.mp hnotarise
        simp only [Except.ok.injEq] at he
        exact ⟨hadmits, hmake.trans he.symm⟩
    · obtain ⟨hadmits, hmake⟩ := ih hmem
      rw [admits_congr hparty] at hadmits
      rw [hparty, hseed] at hmake
      exact ⟨hadmits, hmake⟩

/-- A notary that starts with nothing consumed signs at most one transaction for each output,
remembers exactly the inputs of what it signed, is unchanged by every call it refuses, and grants
again, without any change to what is consumed, every call it granted before. -/
theorem serve_new_unique (name : String) (seed : Seed) (ts : List Transaction) :
    let n := ((new name seed).serve ts).1
    let log := ((new name seed).serve ts).2
    (∀ t u, log.Signed t → log.Signed u →
      ∀ input ∈ t.content.inputs, input ∈ u.content.inputs → t.id = u.id) ∧
    (∀ r id, n.consumedBy? r = some id ↔
      ∃ t, log.Signed t ∧ t.id = id ∧ r ∈ t.content.inputs) ∧
    (∀ t error, (n.answer t).2 = .error error → (n.answer t).1 = n) ∧
    (∀ t e, (t, .ok e) ∈ log →
      (n.answer t).2 = .ok e ∧ ∀ r, (n.answer t).1.consumedBy? r = n.consumedBy? r) := by
  intro n log
  have hconsumed : ∀ r id, n.consumedBy? r = some id ↔
      ∃ t, log.Signed t ∧ t.id = id ∧ r ∈ t.content.inputs := by
    intro r id
    have hnew : (new name seed).consumedBy? r = none := Std.TreeMap.getElem?_emptyc
    rw [consumedBy?_serve_iff, hnew]
    simp only [reduceCtorEq, false_or, log]
  refine ⟨?_, hconsumed, ?_, ?_⟩
  · intro t u ht hu input hinput hinput'
    have hsame : some t.id = some u.id :=
      calc
        some t.id = n.consumedBy? input := ((hconsumed input t.id).mpr ⟨t, ht, rfl, hinput⟩).symm
        _ = some u.id := (hconsumed input u.id).mpr ⟨u, hu, rfl, hinput'⟩
    exact Option.some.inj hsame
  · intro t error herror
    cases hnotarise : n.notarise t with
    | error e => rw [answer_eq_of_error hnotarise]
    | ok result =>
      rw [answer_eq_of_ok hnotarise] at herror
      exact nomatch herror
  · intro t e hmem
    obtain ⟨hadmits, hmake⟩ := admits_of_mem_serve hmem
    obtain ⟨hparty, hseed⟩ := @serve_party_seed _ ts (new name seed)
    rw [← admits_congr hparty] at hadmits
    rw [← hparty, ← hseed] at hmake
    have hentered : ∀ input ∈ t.content.inputs, n.consumedBy? input = some t.id :=
      fun input hinput ↦ (hconsumed input t.id).mpr ⟨t, ⟨e, hmem⟩, rfl, hinput⟩
    have hconflict : n.conflict? t = none := by
      rw [conflict?_eq_none_iff]
      intro input hinput consumer hconsumer
      exact Option.some.inj (hconsumer.symm.trans (hentered input hinput))
    have hagain := answer_eq_of_ok <|
      notarise_eq_ok_iff.mpr ⟨hadmits, hconflict, rfl, hmake⟩
    refine ⟨congrArg Prod.snd hagain, ?_⟩
    intro r
    rw [hagain, consumedBy?_spend]
    by_cases hr : r ∈ t.content.inputs
    · rw [if_pos hr, hentered r hr]
    · rw [if_neg hr]

/-! ### A contested output -/

namespace Contested

def output : OutputRef := ⟨⟨.replicate 32 0⟩, 0⟩

/-- The output is exited, under a salt of one repeated byte. -/
def exit (byte : UInt8) : Transaction :=
  let t := @Transaction.ofContent .clear {
    inputs := [output]
    outputs := []
    commands := [.asset "Exit" [Trial.key 2]]
    notary := Trial.notary
    attachments := []
    salt := .replicate 32 byte }
  t.endorse (@Endorsement.make .clear (Trial.seed 2) (Trial.key 2) t.id)

/-- The endorsement of the notary. -/
def signed (t : Transaction) : Endorsement :=
  @Endorsement.make .clear (Trial.seed 9) Trial.notary.key t.id

end Contested

open Contested in
/-- A call is granted, and granted again; another for the same output is refused. -/
example :
    (@serve .clear (@new .clear "Notary" (Trial.seed 9)) [exit 1, exit 1, exit 2]).2.map Prod.snd =
      [.ok (signed (exit 1)), .ok (signed (exit 1)),
        .error (.conflict output (exit 1).id)] := by
  decide +kernel

end Custody.Notary
