import Custody.Proofs.Operation.Drafts

/-!
# What is held against the arguments

Nothing a caller hands in is taken at its word. Entities count only where the vault holds the very
same under the same reference, and this is asked before anything is done with them that could fail
for another reason. So an operation that is given anything else refuses its arguments.
-/

namespace Custody

/-! ### Failures by cause -/

namespace OperationError

/-- The failure is put down to the arguments. -/
def blamesArguments : OperationError → Bool
  | invalidArgument _ | alreadyReissued _ _ => true
  | _ => false

@[simp]
theorem blamesArguments_ofNetwork {e : NetworkError} : (ofNetwork e).blamesArguments = false := by
  cases e with
  | _ => rfl

@[simp]
theorem blamesArguments_ofNotary {e : NotaryError} : (ofNotary e).blamesArguments = false := by
  cases e with
  | _ => rfl

@[simp]
theorem blamesArguments_ofTransaction {fault : TransactionFault} :
    (ofTransaction fault).blamesArguments = false := rfl

end OperationError

namespace Outcome

variable {α β : Type}

/-- If a check fails, it refuses an argument. -/
def Refuses (check : Except OperationError α) : Prop :=
  ∀ e, check = .error e → ∃ fault, e = .invalidArgument fault

theorem refuses_ok {a : α} : Refuses (.ok a) := fun _ h ↦ nomatch h

theorem refuses_pure {a : α} : Refuses (pure a) := refuses_ok

theorem refuses_invalidArgument {fault : ArgumentFault} :
    Refuses (invalidArgument fault : Except OperationError α) :=
  fun _ h ↦ ⟨fault, (Except.error.inj h).symm⟩

theorem Refuses.bind {check : Except OperationError α} {next : α → Except OperationError β}
    (h : Refuses check) (hnext : ∀ a, Refuses (next a)) : Refuses (check >>= next) := by
  intro e he
  rcases bind_eq_error_iff.mp he with he | ⟨a, -, he⟩
  · exact h e he
  · exact hnext a e he

/-- What is refused under a condition leaves the rest to refuse. -/
theorem refuses_unless {p : Prop} [Decidable p] {fault : ArgumentFault}
    {next : Unit → Except OperationError α} (hnext : Refuses (next ())) :
    Refuses (if p then invalidArgument fault >>= next else next ()) := by
  split
  · exact refuses_invalidArgument
  · exact hnext

theorem refuses_ite {p : Prop} [Decidable p] {fault : ArgumentFault}
    {rest : Except OperationError α} (hrest : Refuses rest) :
    Refuses (if p then invalidArgument fault else rest) := by
  split
  · exact refuses_invalidArgument
  · exact hrest

theorem refuses_forM {xs : List α} {check : α → Except OperationError Unit}
    (h : ∀ x, Refuses (check x)) : Refuses (xs.forM check) := by
  induction xs with
  | nil => exact refuses_pure
  | cons x xs ih =>
    change Refuses (check x >>= fun _ ↦ xs.forM check)
    exact (h x).bind fun _ ↦ ih

theorem refuses_mapM {xs : List α} {check : α → Except OperationError β}
    (h : ∀ x, Refuses (check x)) : Refuses (xs.mapM check) := by
  intro e he
  obtain ⟨x, -, hx⟩ := exists_of_mapM_eq_error he
  exact h x e hx

/-- Where the check passes, what comes after it may refuse. -/
theorem Refuses.exists_bind_eq_of_ok {check : Except OperationError α}
    {next : α → Except OperationError β} (h : Refuses check)
    (hnext : ∀ a, check = .ok a → ∃ fault, next a = .error (.invalidArgument fault)) :
    ∃ fault, check >>= next = .error (.invalidArgument fault) := by
  cases hcheck : check with
  | ok a => exact hnext a hcheck
  | error e =>
    obtain ⟨fault, rfl⟩ := h e hcheck
    exact ⟨fault, rfl⟩

/-- A check that refuses and does not pass stops what comes after it. -/
theorem Refuses.exists_bind_eq {check : Except OperationError α}
    {next : α → Except OperationError β} (h : Refuses check) (hfails : ∀ a, check ≠ .ok a) :
    ∃ fault, check >>= next = .error (.invalidArgument fault) :=
  h.exists_bind_eq_of_ok fun a hcheck ↦ absurd hcheck (hfails a)

end Outcome

/-! ### Checks of terms -/

section Terms

open Outcome

theorem AcceptTerms.refuses_check {terms : AcceptTerms} {notary : Party} :
    Refuses (terms.check notary) := by
  unfold check
  split
  · refine refuses_forM fun signer ↦ ?_
    unfold checkSigner
    exact refuses_ite (refuses_ite (refuses_ite refuses_ok))
  · exact refuses_invalidArgument

theorem UnlockTerms.refuses_check {terms : UnlockTerms} : Refuses terms.check := by
  unfold check
  apply refuses_unless
  apply refuses_unless
  apply refuses_unless
  exact refuses_ite refuses_pure

theorem DeleteTerms.refuses_check {terms : DeleteTerms} : Refuses terms.check := by
  unfold check
  apply refuses_unless
  apply refuses_unless
  exact refuses_ite refuses_pure

end Terms

/-! ### Checks against the vault -/

namespace Node

open Outcome

variable {n : Node} {e : Located}

theorem refuses_requireLive {r : OutputRef} : Refuses (n.requireLive r) := by
  unfold requireLive
  cases n.ledger.vault.live? r with
  | some held => exact refuses_ok
  | none => exact refuses_invalidArgument

theorem refuses_requireStoredOne : Refuses (n.requireStoredOne e) :=
  refuses_requireLive.bind fun _ ↦ refuses_unless refuses_pure

theorem refuses_requireStored {given : List Located} : Refuses (n.requireStored given) := by
  refine (refuses_mapM fun _ ↦ refuses_requireLive).bind fun stored ↦ ?_
  split
  · exact refuses_invalidArgument
  · exact refuses_pure

theorem refuses_requireOwnLock : Refuses (n.requireOwnLock e) := by
  refine refuses_requireStoredOne.bind fun held ↦ ?_
  split
  · exact refuses_unless (refuses_unless refuses_pure)
  · exact refuses_invalidArgument

/-- One entity is let through as it was given, and only if the vault holds it so. -/
theorem live?_of_requireStoredOne {held : Located} (h : n.requireStoredOne e = .ok held) :
    n.ledger.vault.live? e.ref = some e := by
  obtain ⟨hlive, hsame⟩ := requireStoredOne_eq_ok_iff.mp h
  have href := (Vault.live?_eq_some_iff.mp hlive).2.2
  rw [hlive, Located.eq_of_eq hsame href.symm]

theorem live?_of_requireStored {given stored : List Located}
    (h : n.requireStored given = .ok stored) (he : e ∈ given) :
    n.ledger.vault.live? e.ref = some e := by
  obtain ⟨found, hfound, h⟩ := bind_eq_ok_iff.mp h
  split at h
  · cases h
  rename_i hnone
  obtain ⟨hlength, hzip⟩ := List.forall₂_iff_zip.mp (mapM_eq_ok_iff.mp hfound)
  rw [← List.map_fst_zip (Nat.le_of_eq hlength), List.mem_map] at he
  obtain ⟨⟨e, held⟩, hpair, rfl⟩ := he
  have hsame : e.entity = held.entity := by simpa using List.find?_eq_none.mp hnone _ hpair
  exact live?_of_requireStoredOne
    (requireStoredOne_eq_ok_iff.mpr ⟨requireLive_eq_ok_iff.mp (hzip hpair), hsame⟩)

end Node

/-! ### Entities as arguments -/

/-- The entities that an operation is given: what it is to consume. -/
def Operation.given : Operation → List Located
  | issue _ _ | request _ _ => []
  | move asset _ | exit asset => [asset]
  | accept terms => [terms.request]
  | reject refused => [refused]
  | unlock terms => terms.lock :: terms.governed
  | delete terms => terms.lock :: terms.governed

namespace Node

open Outcome

variable {n : Node} {e : Located}

/-- An entity that the vault does not hold as it was given is refused. -/
theorem exists_requireStoredOne_bind {α : Type} {next : Located → Except OperationError α}
    (h : n.ledger.vault.live? e.ref ≠ some e) :
    ∃ fault, n.requireStoredOne e >>= next = .error (.invalidArgument fault) :=
  refuses_requireStoredOne.exists_bind_eq fun _ hheld ↦ h (live?_of_requireStoredOne hheld)

/-- So are a lock and its copies, whichever of them differs. -/
theorem exists_requireOwnLock_bind {α : Type} {lock : Located} {copies : List Located}
    {next : Located × Lock → List Located → Except OperationError α}
    (he : e ∈ lock :: copies) (h : n.ledger.vault.live? e.ref ≠ some e) :
    ∃ fault, (do next (← n.requireOwnLock lock) (← n.requireStored copies)) =
      .error (.invalidArgument fault) := by
  rcases List.mem_cons.mp he with rfl | he
  · refine refuses_requireOwnLock.exists_bind_eq ?_
    rintro ⟨held, state⟩ hheld
    exact h (live?_of_requireStoredOne (requireOwnLock_eq_ok_iff.mp hheld).1)
  · refine refuses_requireOwnLock.exists_bind_eq_of_ok fun _ _ ↦ ?_
    exact refuses_requireStored.exists_bind_eq fun _ hstored ↦ h (live?_of_requireStored hstored he)

variable [Cryptosystem] {stamp : Stamp}

/-- Whatever an operation is given besides, it is refused if one of the entities is not in the
vault as it was given. -/
theorem exists_draft_eq {operation : Operation} (he : e ∈ operation.given)
    (h : n.ledger.vault.live? e.ref ≠ some e) :
    ∃ fault, n.draft stamp operation = .error (.invalidArgument fault) := by
  cases operation with
  | issue asset holder => exact absurd he List.not_mem_nil
  | request terms sharesHistory => exact absurd he List.not_mem_nil
  | move asset holder =>
    obtain rfl := List.mem_singleton.mp he
    exact exists_requireStoredOne_bind h
  | exit asset =>
    obtain rfl := List.mem_singleton.mp he
    exact exists_requireStoredOne_bind h
  | accept terms =>
    obtain rfl := List.mem_singleton.mp he
    exact AcceptTerms.refuses_check.exists_bind_eq_of_ok fun _ _ ↦ exists_requireStoredOne_bind h
  | reject request =>
    obtain rfl := List.mem_singleton.mp he
    exact exists_requireStoredOne_bind h
  | unlock terms =>
    exact UnlockTerms.refuses_check.exists_bind_eq_of_ok fun _ _ ↦ exists_requireOwnLock_bind he h
  | delete terms =>
    exact DeleteTerms.refuses_check.exists_bind_eq_of_ok fun _ _ ↦ exists_requireOwnLock_bind he h

end Node

end Custody
