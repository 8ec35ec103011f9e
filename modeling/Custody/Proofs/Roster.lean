import Custody.Proofs.Transaction.Endorsements
import Custody.Roster

/-!
# How a roster divides those concerned

The keys that must sign are entered one after the other, in ascending order, and then the keys of
those to be told. Each loop keeps an account of what has been entered so far, from which the roster
can be read off in the end: which required keys are held here, which parties stand behind the
others, and who else is told. A required key that nobody can be asked to sign with stops the first
loop, whatever came before it, so the smallest of these is the one that is named.
-/

namespace Custody

namespace Roster

variable {directory : Directory} {keyring : Keyring} {us party : Party}
  {required observers entered : List PublicKey} {roster roster' : Roster} {key : PublicKey}
  {e : NetworkError}

/-! ### Keys that must sign -/

/-- Why a key cannot be signed with: it is not held, and either unknown or said to be held here. -/
inductive Obstacle (directory : Directory) (keyring : Keyring) (us : Party) (key : PublicKey) :
    NetworkError → Prop
  | unknown (howns : keyring.owns key = false) (hparty : directory[key]? = none) :
      Obstacle directory keyring us key (.unknownIdentity key)
  | misplaced (howns : keyring.owns key = false) (hparty : directory[key]? = some us) :
      Obstacle directory keyring us key (.keyNotOwned key)

/-- A key that is neither held here nor known to be another party's. -/
def Unsignable (directory : Directory) (keyring : Keyring) (us : Party) (key : PublicKey) : Prop :=
  keyring.owns key = false ∧ (directory[key]? = none ∨ directory[key]? = some us)

theorem exists_obstacle_iff :
    (∃ e, Obstacle directory keyring us key e) ↔ Unsignable directory keyring us key := by
  constructor
  · rintro ⟨_, ⟨howns, hparty⟩ | ⟨howns, hparty⟩⟩
    · exact ⟨howns, .inl hparty⟩
    · exact ⟨howns, .inr hparty⟩
  · rintro ⟨howns, hparty | hparty⟩
    · exact ⟨_, .unknown howns hparty⟩
    · exact ⟨_, .misplaced howns hparty⟩

theorem enterRequired_eq_error_iff (roster : Roster) (key : PublicKey) (e : NetworkError) :
    enterRequired directory keyring us roster key = .error e ↔
      Obstacle directory keyring us key e := by
  unfold enterRequired enterSigner
  constructor
  · intro h
    split at h
    · cases h
    · rename_i howns
      split at h
      · rename_i hparty
        rw [← Except.error.inj h]
        exact .unknown (by simpa using howns) hparty
      · rename_i party hparty
        split at h
        · rename_i hus
          rw [← Except.error.inj h]
          exact .misplaced (by simpa using howns) (hus ▸ hparty)
        · cases h
  · rintro (⟨howns, hparty⟩ | ⟨howns, hparty⟩)
    · simp [howns, hparty]
    · simp [howns, hparty]

/-- What entering required keys has come to. -/
structure Signing (directory : Directory) (keyring : Keyring) (us : Party)
    (entered : List PublicKey) (roster : Roster) : Prop where
  heldKeys_eq : roster.heldKeys = entered.filter keyring.owns
  mem_signers : ∀ party, party ∈ roster.signers ↔
    ∃ key ∈ entered, keyring.owns key = false ∧ directory[key]? = some party
  nodup : roster.signers.Nodup
  us_notMem : us ∉ roster.signers
  observers_eq : roster.observers = []

theorem signing_nil : Signing directory keyring us [] ⟨[], [], []⟩ where
  heldKeys_eq := rfl
  mem_signers := by simp
  nodup := List.nodup_nil
  us_notMem := List.not_mem_nil
  observers_eq := rfl

theorem Signing.enterRequired (h : Signing directory keyring us entered roster)
    (henter : enterRequired directory keyring us roster key = .ok roster') :
    Signing directory keyring us (entered ++ [key]) roster' := by
  unfold Roster.enterRequired at henter
  split at henter
  · rename_i howns
    obtain rfl := Except.ok.inj henter
    refine ⟨?_, fun party ↦ ?_, h.nodup, h.us_notMem, h.observers_eq⟩
    · simp [h.heldKeys_eq, howns]
    · simp [h.mem_signers party, howns]
  · rename_i howns
    rw [Bool.not_eq_true] at howns
    unfold enterSigner at henter
    cases hparty : directory[key]? with
    | none =>
      rw [hparty] at henter
      cases henter
    | some party =>
      simp only [hparty] at henter
      split at henter
      · cases henter
      · rename_i hother
        have hheld : (entered ++ [key]).filter keyring.owns = entered.filter keyring.owns := by
          simp [howns]
        have hmem (other : Party) : (∃ key' ∈ entered ++ [key], keyring.owns key' = false ∧
            directory[key']? = some other) ↔ other ∈ roster.signers ∨ party = other := by
          simp [h.mem_signers other, or_and_right, exists_or, howns, hparty]
        obtain rfl := Except.ok.inj henter
        split
        · rename_i hlisted
          rw [hasSigner, List.contains_iff_mem] at hlisted
          refine ⟨h.heldKeys_eq.trans hheld.symm, fun other ↦ ?_, h.nodup, h.us_notMem,
            h.observers_eq⟩
          rw [hmem other, or_iff_left_of_imp]
          rintro rfl
          exact hlisted
        · rename_i hnew
          rw [hasSigner, List.contains_iff_mem] at hnew
          refine ⟨h.heldKeys_eq.trans hheld.symm, fun other ↦ ?_, ?_, ?_, h.observers_eq⟩
          · rw [hmem other, List.mem_append, List.mem_singleton, eq_comm (a := other)]
          · rw [(List.perm_append_singleton _ _).nodup_iff]
            exact List.nodup_cons.mpr ⟨hnew, h.nodup⟩
          · rw [List.mem_append, List.mem_singleton, not_or]
            exact ⟨h.us_notMem, Ne.symm hother⟩

theorem Signing.foldlM (h : Signing directory keyring us entered roster)
    (hrun : required.foldlM (Roster.enterRequired directory keyring us) roster = .ok roster') :
    Signing directory keyring us (entered ++ required) roster' := by
  induction required generalizing entered roster with
  | nil =>
    obtain rfl := Except.ok.inj hrun
    rwa [List.append_nil]
  | cons key required ih =>
    rw [List.foldlM_cons] at hrun
    obtain ⟨next, henter, hrun⟩ := Outcome.bind_eq_ok_iff.mp hrun
    rw [List.append_cons]
    exact ih (h.enterRequired henter) hrun

/-! ### Keys of those to be told -/

/-- What entering the keys of those to be told has come to; the rest of the roster is as before. -/
structure Telling (directory : Directory) (keyring : Keyring) (us : Party)
    (required : List PublicKey) (signing : Roster) (entered : List PublicKey) (roster : Roster) :
    Prop where
  heldKeys_eq : roster.heldKeys = signing.heldKeys
  signers_eq : roster.signers = signing.signers
  mem_observers : ∀ party, party ∈ roster.observers ↔
    (∃ key ∈ entered, key ∉ required ∧ keyring.owns key = false ∧ directory[key]? = some party) ∧
      party ≠ us ∧ party ∉ signing.signers
  nodup : roster.observers.Nodup

theorem telling_nil (h : roster.observers = []) :
    Telling directory keyring us required roster [] roster where
  heldKeys_eq := rfl
  signers_eq := rfl
  mem_observers := by simp [h]
  nodup := h ▸ List.nodup_nil

theorem Telling.enterObserver {signing : Roster}
    (h : Telling directory keyring us required signing entered roster) :
    Telling directory keyring us required signing (entered ++ [key])
      (enterObserver directory keyring us required roster key) := by
  have hmem (other : Party) : (∃ key' ∈ entered ++ [key], key' ∉ required ∧
      keyring.owns key' = false ∧ directory[key']? = some other) ↔
      (∃ key' ∈ entered, key' ∉ required ∧ keyring.owns key' = false ∧
        directory[key']? = some other) ∨
      key ∉ required ∧ keyring.owns key = false ∧ directory[key]? = some other := by
    simp [or_and_right, exists_or]
  have hskip (hnone : ∀ other, key ∉ required ∧ keyring.owns key = false ∧
      directory[key]? = some other → other = us ∨ other ∈ signing.signers ∨
        other ∈ roster.observers) :
      Telling directory keyring us required signing (entered ++ [key]) roster := by
    refine ⟨h.heldKeys_eq, h.signers_eq, fun other ↦ ?_, h.nodup⟩
    rw [hmem other, or_and_right, ← h.mem_observers other, or_iff_left_of_imp]
    rintro ⟨hkey, hother, hsigner⟩
    exact ((hnone other hkey).resolve_left hother).resolve_left hsigner
  unfold Roster.enterObserver
  split
  · rename_i hpassed
    refine hskip fun other ⟨hrequired, howns, _⟩ ↦ absurd hpassed ?_
    simp [hrequired, howns]
  · rename_i hentered
    rw [Bool.or_eq_true, not_or, List.contains_iff_mem, Bool.not_eq_true] at hentered
    split
    · rename_i hparty
      refine hskip fun other ⟨_, _, hother⟩ ↦ ?_
      rw [hparty] at hother
      cases hother
    · rename_i party hparty
      split
      · rename_i hlisted
        refine hskip fun other ⟨_, _, hother⟩ ↦ ?_
        rw [hparty, Option.some.injEq] at hother
        rwa [hasSigner, List.contains_iff_mem, h.signers_eq, hother] at hlisted
      · rename_i hnew
        rw [not_or, not_or, hasSigner, List.contains_iff_mem, h.signers_eq] at hnew
        refine ⟨h.heldKeys_eq, h.signers_eq, fun other ↦ ?_, ?_⟩
        · rw [List.mem_append, List.mem_singleton, hmem other, or_and_right,
            ← h.mem_observers other]
          apply or_congr_right
          constructor
          · rintro rfl
            exact ⟨⟨hentered.1, hentered.2, hparty⟩, hnew.1, hnew.2.1⟩
          · rintro ⟨⟨-, -, hother⟩, -⟩
            exact Option.some.inj (hother.symm.trans hparty)
        · rw [(List.perm_append_singleton _ _).nodup_iff]
          exact List.nodup_cons.mpr ⟨hnew.2.2, h.nodup⟩

theorem Telling.foldl {signing : Roster}
    (h : Telling directory keyring us required signing entered roster) :
    Telling directory keyring us required signing (entered ++ observers)
      (observers.foldl (Roster.enterObserver directory keyring us required) roster) := by
  induction observers generalizing entered roster with
  | nil => rwa [List.append_nil]
  | cons key observers ih =>
    rw [List.append_cons]
    exact ih h.enterObserver

/-! ### The whole roster -/

theorem build_eq_error_iff : build directory keyring us required observers = .error e ↔
    (ascending required).foldlM (enterRequired directory keyring us) ⟨[], [], []⟩ = .error e := by
  refine Outcome.bind_eq_error_iff.trans (or_iff_left ?_)
  rintro ⟨signing, -, h⟩
  cases h

/-- Who is on a roster, and why. -/
structure Divides (directory : Directory) (keyring : Keyring) (us : Party)
    (required observers : List PublicKey) (roster : Roster) : Prop where
  pairwise_heldKeys : roster.heldKeys.Pairwise fun a b ↦ compare a b = .lt
  mem_heldKeys : ∀ key, key ∈ roster.heldKeys ↔ key ∈ required ∧ keyring.owns key = true
  mem_signers : ∀ party, party ∈ roster.signers ↔
    ∃ key ∈ required, keyring.owns key = false ∧ directory[key]? = some party
  mem_observers : ∀ party, party ∈ roster.observers ↔
    (∃ key ∈ observers, keyring.owns key = false ∧ directory[key]? = some party) ∧
      party ≠ us ∧ party ∉ roster.signers
  nodup : (roster.signers ++ roster.observers).Nodup
  us_notMem : us ∉ roster.signers ++ roster.observers

theorem divides_of_build (h : build directory keyring us required observers = .ok roster) :
    Divides directory keyring us required observers roster := by
  obtain ⟨signing, hsigning, h⟩ := Outcome.bind_eq_ok_iff.mp h
  have hsigns : Signing directory keyring us (ascending required) signing :=
    signing_nil.foldlM hsigning
  have htells : Telling directory keyring us (ascending required) signing observers roster :=
    Outcome.pure_eq_ok_iff.mp h ▸ (telling_nil hsigns.observers_eq).foldl
  have hsigners (party : Party) : party ∈ roster.signers ↔
      ∃ key ∈ required, keyring.owns key = false ∧ directory[key]? = some party := by
    rw [htells.signers_eq, hsigns.mem_signers party]
    simp only [mem_ascending_iff]
  have hobservers (party : Party) : party ∈ roster.observers ↔
      (∃ key ∈ observers, keyring.owns key = false ∧ directory[key]? = some party) ∧
        party ≠ us ∧ party ∉ roster.signers := by
    rw [htells.mem_observers party, ← htells.signers_eq]
    refine and_congr_left fun ⟨_, hnone⟩ ↦ exists_congr fun key ↦ and_congr_right fun _ ↦ ?_
    -- The party of a required key that is not held here is a signer.
    refine and_iff_right_of_imp fun ⟨howns, hparty⟩ hrequired ↦ hnone ?_
    exact (hsigners party).mpr ⟨key, mem_ascending_iff.mp hrequired, howns, hparty⟩
  refine ⟨?_, fun key ↦ ?_, hsigners, hobservers, ?_, ?_⟩
  · rw [htells.heldKeys_eq, hsigns.heldKeys_eq]
    exact pairwise_ascending.filter _
  · rw [htells.heldKeys_eq, hsigns.heldKeys_eq, List.mem_filter, mem_ascending_iff]
  · rw [List.nodup_append, htells.signers_eq]
    refine ⟨hsigns.nodup, htells.nodup, ?_⟩
    rintro party hsigner _ hobserver rfl
    exact ((htells.mem_observers party).mp hobserver).2.2 hsigner
  · rw [List.mem_append, not_or, htells.signers_eq]
    exact ⟨hsigns.us_notMem, fun hobserver ↦ ((hobservers us).mp hobserver).2.1 rfl⟩

/-- Another party behind a key to be told, which is not held here, gets on the roster. -/
theorem mem_counterparties_of_build
    (h : build directory keyring us required observers = .ok roster) (hkey : key ∈ observers)
    (howns : keyring.owns key = false) (hparty : directory[key]? = some party)
    (hother : party ≠ us) : party ∈ roster.counterparties.map Prod.fst := by
  have hlisted : party ∈ roster.signers ++ roster.observers := by
    rw [List.mem_append, or_iff_not_imp_left, (divides_of_build h).mem_observers]
    exact fun hsigner ↦ ⟨⟨key, hkey, howns, hparty⟩, hother, hsigner⟩
  simpa [counterparties] using hlisted

/-- No roster comes about exactly when some required key cannot be signed with. -/
theorem exists_build_eq_error_iff :
    (∃ e, build directory keyring us required observers = .error e) ↔
      ∃ key ∈ required, Unsignable directory keyring us key := by
  simp only [build_eq_error_iff, ← exists_obstacle_iff]
  constructor
  · rintro ⟨e, he⟩
    obtain ⟨before, key, after, hsplit, hobstacle, -⟩ :=
      Outcome.exists_of_foldlM_eq_error enterRequired_eq_error_iff he
    refine ⟨key, mem_ascending_iff.mp ?_, e, hobstacle⟩
    rw [hsplit]
    exact List.mem_append_right _ List.mem_cons_self
  · rintro ⟨key, hkey, e, hobstacle⟩
    exact Outcome.exists_foldlM_eq_error enterRequired_eq_error_iff
      (mem_ascending_iff.mpr hkey) hobstacle

/-- The smallest required key that cannot be signed with is named. -/
theorem exists_least_of_build_eq_error
    (h : build directory keyring us required observers = .error e) :
    ∃ key ∈ required, Obstacle directory keyring us key e ∧
      ∀ other ∈ required, Unsignable directory keyring us other →
        other = key ∨ compare key other = .lt := by
  obtain ⟨before, key, after, hsplit, hobstacle, hbefore⟩ :=
    Outcome.exists_of_foldlM_eq_error enterRequired_eq_error_iff
      (build_eq_error_iff.mp h)
  have hordered := @pairwise_ascending required
  rw [hsplit, List.pairwise_append] at hordered
  have hmem {other : PublicKey} (hother : other ∈ required) : other ∈ before ++ key :: after :=
    hsplit ▸ mem_ascending_iff.mpr hother
  refine ⟨key, mem_ascending_iff.mp ?_, hobstacle, fun other hother hunsignable ↦ ?_⟩
  · rw [hsplit]
    exact List.mem_append_right _ List.mem_cons_self
  · rcases List.mem_append.mp (hmem hother) with hlisted | hlisted
    · obtain ⟨e', hfails⟩ := exists_obstacle_iff.mpr hunsignable
      exact absurd hfails (hbefore other hlisted e')
    · rcases List.mem_cons.mp hlisted with rfl | hlater
      · exact .inl rfl
      · exact .inr (List.rel_of_pairwise_cons hordered.2.1 hlater)

end Roster

end Custody
