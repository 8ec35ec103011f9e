import Mathlib.Data.List.Induction
import Custody.Proofs.ExitProof
import Custody.Proofs.Ledger.Vault

/-!
# The vault of recorded transactions

However transactions arrive, children before parents and more than once, the vault answers from what
the archive then holds. An entity is live if an archived transaction produced it and none consumes
it; listings hold exactly the live entities they are about, each once, in the order of references.
Recording keeps the vault in step with the archive, and an archive is what was recorded first under
each id, so the order of distinct transactions does not matter.
-/

namespace Custody

/-! ### Listings in order -/

namespace Located

theorem compare_ne_lt_of_lt {r r' : OutputRef} (h : compare r r' = .lt) : compare r' r ≠ .lt := by
  rw [Std.OrientedOrd.eq_swap, h]
  exact nofun

/-- There is one way to list entities, each once, in the order of references. -/
theorem eq_of_ordered {es es' : List Located}
    (h : es.Pairwise fun e e' ↦ compare e.ref e'.ref = .lt)
    (h' : es'.Pairwise fun e e' ↦ compare e.ref e'.ref = .lt) (hmem : ∀ e, e ∈ es ↔ e ∈ es') :
    es = es' := by
  have hirrefl : ∀ {es : List Located},
      es.Pairwise (fun e e' ↦ compare e.ref e'.ref = .lt) → es.Nodup := by
    intro es hes
    refine hes.imp fun {e e'} hlt hsame ↦ ?_
    rw [hsame] at hlt
    exact compare_ne_lt_of_lt hlt hlt
  have hperm : es.Perm es' := (List.perm_ext_iff_of_nodup (hirrefl h) (hirrefl h')).mpr hmem
  exact hperm.eq_of_pairwise (fun _ _ _ _ hlt hgt ↦ absurd hgt (compare_ne_lt_of_lt hlt)) h h'

end Located

/-! ### What an archive says -/

namespace Archive

/-- Produced by an archived transaction and consumed by none. -/
structure Unspent (archive : Archive) (e : Located) : Prop where
  produced : ∃ t : Transaction, archive[e.ref.transaction]? = some t ∧
    t.content.outputs[e.ref.index.toNat]? = some e.entity
  unspent : ∀ (id : TransactionId) (t : Transaction), archive[id]? = some t →
    e.ref ∉ t.content.inputs

/-- A listing of exactly the unspent entities with a property, each once, in the order of
references. -/
structure Lists (archive : Archive) (p : Entity → Prop) (listing : List Located) : Prop where
  mem_iff : ∀ e : Located, e ∈ listing ↔ archive.Unspent e ∧ p e.entity
  ordered : listing.Pairwise fun e e' ↦ compare e.ref e'.ref = .lt

variable {archive archive' : Archive} {p : Entity → Prop} {listing listing' : List Located}

theorem Unspent.congr (heq : ∀ id : TransactionId, archive[id]? = archive'[id]?) {e : Located} :
    archive.Unspent e ↔ archive'.Unspent e := by
  constructor
  · rintro ⟨hproduced, hunspent⟩
    simp only [heq] at hproduced hunspent
    exact ⟨hproduced, hunspent⟩
  · rintro ⟨hproduced, hunspent⟩
    simp only [← heq] at hproduced hunspent
    exact ⟨hproduced, hunspent⟩

/-- There is one such listing. -/
theorem Lists.eq (heq : ∀ id : TransactionId, archive[id]? = archive'[id]?)
    (h : archive.Lists p listing) (h' : archive'.Lists p listing') : listing = listing' := by
  refine Located.eq_of_ordered h.ordered h'.ordered fun e ↦ ?_
  rw [h.mem_iff, h'.mem_iff, Unspent.congr heq]

end Archive

/-! ### Listings of a vault -/

namespace Vault

variable {v : Vault} {e : Located}

theorem mem_live_iff : e ∈ v.live ↔ v.live? e.ref = some e := by
  unfold live live?
  simp only [List.mem_filterMap, Prod.exists, Std.TreeMap.mem_toList_iff_getElem?_eq_some,
    Option.ite_none_left_eq_some, Option.map_eq_some_iff, Option.some.injEq]
  constructor
  · rintro ⟨r, entity, hentity, hfree, rfl⟩
    exact ⟨hfree, entity, hentity, rfl⟩
  · rintro ⟨hfree, entity, hentity, hsame⟩
    exact ⟨e.ref, entity, hentity, hfree, hsame⟩

theorem pairwise_live : v.live.Pairwise fun e e' ↦ compare e.ref e'.ref = .lt := by
  unfold live
  refine Std.TreeMap.ordered_keys_toList.filterMap _ ?_
  rintro ⟨r, entity⟩ ⟨r', entity'⟩ hlt e he e' he'
  simp only [Option.ite_none_left_eq_some, Option.some.injEq] at he he'
  rwa [← he.2, ← he'.2]

theorem pairwise_locksGoverning {r : OutputRef} :
    (v.locksGoverning r).Pairwise fun e e' ↦ compare e.ref e'.ref = .lt := by
  unfold locksGoverning
  refine (Std.TreeSet.ordered_toList.filterMap _ ?_).filter _
  intro r r' hlt e he e' he'
  obtain ⟨-, -, rfl⟩ := live?_eq_some_iff.mp he
  obtain ⟨-, -, rfl⟩ := live?_eq_some_iff.mp he'
  exact hlt

end Vault

/-! ### The vault reflects the archive -/

namespace Ledger

variable {l l' : Ledger} {ts us : List Transaction} {t : Transaction} {r : OutputRef}
  {id : TransactionId} {e : Located}

/-- Every answer of the vault is read off the archive. -/
structure Mirrors (l : Ledger) : Prop where
  live : ∀ (r : OutputRef) (e : Located), l.vault.live? r = some e ↔
    e.ref = r ∧ l.archive.Unspent e
  consumer : ∀ (r : OutputRef) (id : TransactionId), l.vault.consumedBy? r = some id →
    ∃ t : Transaction, l.archive[id]? = some t ∧ r ∈ t.content.inputs
  consumed : ∀ (id : TransactionId) (t : Transaction), l.archive[id]? = some t →
    ∀ r ∈ t.content.inputs, (l.vault.consumedBy? r).isSome = true
  assets : ∀ (kind : String) (filter : EncumbranceFilter),
    l.archive.Lists (fun e ↦ (∃ asset, e.asset? = some asset ∧ asset.kind = kind) ∧
      filter.accepts e = true) (l.vault.assets kind filter)
  requests : l.archive.Lists (fun e ↦ ∃ request, e.request? = some request) l.vault.requests
  locks : ∀ status : LockStatus,
    l.archive.Lists (fun e ↦ ∃ lock, e.lock? = some lock ∧ lock.status = status)
      (l.vault.locks status)
  governing : ∀ r : OutputRef,
    l.archive.Lists (fun e ↦ ∃ lock, e.lock? = some lock ∧ lock.isActive = true ∧
      r ∈ lock.snapshotRefs) (l.vault.locksGoverning r)

/-- The outputs of archived transactions can be counted in 32 bits. -/
def Countable (l : Ledger) : Prop :=
  ∀ (id : TransactionId) (t : Transaction), l.archive[id]? = some t →
    t.content.outputs.length ≤ 2 ^ 32

theorem countable_empty : empty.Countable := by
  intro id t h
  rw [show empty.archive = ∅ from rfl, Std.TreeMap.getElem?_emptyc] at h
  cases h

theorem Countable.record (h : l.Countable) (hsize : t.content.outputs.length ≤ 2 ^ 32) :
    (l.record t).1.Countable := by
  intro id u hu
  rcases getElem?_archive_record.mp hu with hold | ⟨-, -, rfl⟩
  · exact h id u hold
  · exact hsize

/-- What is known is what archived transactions produced. -/
theorem entities_eq_some_iff (hfaithful : l.Faithful) (hgrounded : l.Grounded)
    (hcount : l.Countable) :
    l.vault.entities[e.ref]? = some e.entity ↔
      ∃ t : Transaction, l.archive[e.ref.transaction]? = some t ∧
        t.content.outputs[e.ref.index.toNat]? = some e.entity := by
  obtain ⟨entity, ref⟩ := e
  constructor
  · intro h
    obtain ⟨t, ht, hlocated⟩ := hgrounded.produced ref entity h
    exact ⟨t, ht, Transaction.getElem?_of_mem_located (hcount _ t ht) hlocated⟩
  · rintro ⟨t, ht, houtput⟩
    have hid := hfaithful.id_eq _ t ht
    exact hfaithful.known _ t ht (hcount _ t ht) _
      (Transaction.mem_located_of_getElem? hid.symm houtput)

theorem Faithful.consumedBy?_eq_none_iff (h : l.Faithful) :
    l.vault.consumedBy? r = none ↔
      ∀ (id : TransactionId) (t : Transaction), l.archive[id]? = some t →
        r ∉ t.content.inputs := by
  constructor
  · intro hnone id t ht hinput
    have hsome := h.consumed id t ht r hinput
    rw [hnone] at hsome
    cases hsome
  · intro hfree
    rw [Option.eq_none_iff_forall_not_mem]
    intro id hid
    obtain ⟨t, ht, hinput⟩ := h.consumer r id hid
    exact hfree id t ht hinput

theorem live?_eq_some_iff_unspent (hfaithful : l.Faithful) (hgrounded : l.Grounded)
    (hcount : l.Countable) :
    l.vault.live? r = some e ↔ e.ref = r ∧ l.archive.Unspent e := by
  rw [Vault.live?_eq_some_iff]
  constructor
  · rintro ⟨hfree, hentity, rfl⟩
    exact ⟨rfl, (entities_eq_some_iff hfaithful hgrounded hcount).mp hentity,
      hfaithful.consumedBy?_eq_none_iff.mp hfree⟩
  · rintro ⟨rfl, hproduced, hunspent⟩
    exact ⟨hfaithful.consumedBy?_eq_none_iff.mpr hunspent,
      (entities_eq_some_iff hfaithful hgrounded hcount).mpr hproduced, rfl⟩

/-- A choice among the live entities is listed as the archive says. -/
theorem lists_filter_live (hlive : ∀ (r : OutputRef) (e : Located),
    l.vault.live? r = some e ↔ e.ref = r ∧ l.archive.Unspent e)
    {p : Entity → Prop} {q : Located → Bool} (hq : ∀ e : Located, q e = true ↔ p e.entity) :
    l.archive.Lists p (l.vault.live.filter q) where
  mem_iff e := by
    rw [List.mem_filter, Vault.mem_live_iff, hlive, hq]
    simp only [true_and]
  ordered := Vault.pairwise_live.filter q

theorem mirrors_of_faithful (hfaithful : l.Faithful) (hgrounded : l.Grounded)
    (hcount : l.Countable) : l.Mirrors := by
  have hlive : ∀ (r : OutputRef) (e : Located), l.vault.live? r = some e ↔
      e.ref = r ∧ l.archive.Unspent e :=
    fun _ _ ↦ live?_eq_some_iff_unspent hfaithful hgrounded hcount
  refine ⟨hlive, hfaithful.consumer, hfaithful.consumed, ?_, ?_, ?_, ?_⟩
  · intro kind filter
    refine lists_filter_live hlive fun e ↦ ?_
    simp only [Bool.and_eq_true, Option.any_eq_true, beq_iff_eq]
  · refine lists_filter_live hlive fun e ↦ ?_
    exact Option.isSome_iff_exists
  · intro status
    refine lists_filter_live hlive fun e ↦ ?_
    simp only [Option.any_eq_true, beq_iff_eq]
  · intro r
    refine ⟨fun e ↦ ?_, Vault.pairwise_locksGoverning⟩
    rw [Vault.mem_locksGoverning_iff, hlive]
    constructor
    · rintro ⟨hindexes, ⟨-, hunspent⟩, lock, hlock, hactive⟩
      -- The index may lead to it by another entity under its reference; there is only one.
      obtain ⟨t, ht, e', he', href, lock', hlock', hr⟩ := hgrounded.named r e.ref hindexes
      obtain ⟨t', ht', houtput⟩ := hunspent.produced
      obtain rfl := Option.some.inj (ht.symm.trans ht')
      have houtput' := Transaction.getElem?_of_mem_located (hcount _ t ht) he'
      rw [href, houtput, Option.some.injEq] at houtput'
      rw [← houtput', hlock, Option.some.injEq] at hlock'
      exact ⟨hunspent, lock, hlock, hactive, hlock' ▸ hr⟩
    · rintro ⟨hunspent, lock, hlock, hactive, hr⟩
      obtain ⟨t, ht, houtput⟩ := hunspent.produced
      have hid := hfaithful.id_eq _ t ht
      have hlocated := Transaction.mem_located_of_getElem? hid.symm houtput
      exact ⟨hfaithful.indexed _ t ht e hlocated r ⟨lock, hlock, hr⟩, ⟨rfl, hunspent⟩,
        lock, hlock, hactive⟩

/-! ### Recording one after the other -/

/-- The ledger after recording transactions one after the other, from nothing. -/
def recorded (ts : List Transaction) : Ledger := ts.foldl (fun l t ↦ (l.record t).1) empty

theorem recorded_append : recorded (ts ++ us) = us.foldl (fun l t ↦ (l.record t).1) (recorded ts) :=
  List.foldl_append

/-- What each recording keeps, recording keeps. -/
theorem recorded_induction {p : Ledger → Prop} (hempty : p empty)
    (hrecord : ∀ (l : Ledger), ∀ t ∈ ts, p l → p (l.record t).1) : p (recorded ts) :=
  List.foldlRecOn ts _ hempty fun l hl t ht ↦ hrecord l t ht hl

theorem faithful_recorded : (recorded ts).Faithful :=
  recorded_induction faithful_empty fun _ _ _ h ↦ h.record

theorem grounded_recorded : (recorded ts).Grounded :=
  recorded_induction grounded_empty fun _ _ _ h ↦ h.record

theorem countable_recorded (hsize : ∀ t ∈ ts, t.content.outputs.length < 2 ^ 32) :
    (recorded ts).Countable :=
  recorded_induction countable_empty fun _ t ht h ↦ h.record (Nat.le_of_lt (hsize t ht))

/-- Under each id the archive holds what was recorded first. -/
theorem getElem?_archive_recorded : (recorded ts).archive[id]? = ts.find? (·.id == id) := by
  induction ts using List.reverseRecOn with
  | nil => exact Std.TreeMap.getElem?_emptyc
  | append_singleton ts t ih =>
    rw [recorded_append, List.find?_append, ← ih]
    ext u
    rw [List.foldl_cons, List.foldl_nil, getElem?_archive_record,
      Std.TreeMap.mem_iff_isSome_getElem?]
    by_cases hid : t.id = id
    · rw [hid]
      cases (recorded ts).archive[id]? with
      | none => simp [hid]
      | some held => simp
    · simp [hid]

theorem isSome_consumedBy?_record (h : (l.vault.consumedBy? r).isSome = true) :
    ((l.record t).1.vault.consumedBy? r).isSome = true := by
  by_cases hheld : t.id ∈ l.archive
  · rwa [record_of_mem hheld]
  · rw [vault_record_of_notMem hheld, Vault.consumedBy?_apply]
    split
    · rfl
    · exact h

theorem live?_of_isSome_consumedBy? (h : (l.vault.consumedBy? r).isSome = true) :
    l.vault.live? r = none := by
  rw [Option.eq_none_iff_forall_not_mem]
  intro e he
  obtain ⟨hfree, -⟩ := Vault.live?_eq_some_iff.mp he
  rw [hfree] at h
  cases h

/-- What has been consumed is never live again. -/
theorem live?_recorded_append (h : ((recorded ts).vault.consumedBy? r).isSome = true) :
    (recorded (ts ++ us)).vault.live? r = none := by
  apply live?_of_isSome_consumedBy?
  rw [recorded_append]
  exact List.foldlRecOn (motive := fun l : Ledger ↦ (l.vault.consumedBy? r).isSome = true) us _ h
    fun _ hl _ _ ↦ isSome_consumedBy?_record hl

/-! ### The order does not matter -/

/-- The same entities are found and listed. -/
structure SameAnswers (l l' : Ledger) : Prop where
  live : ∀ r : OutputRef, l.vault.live? r = l'.vault.live? r
  assets : ∀ (kind : String) (filter : EncumbranceFilter),
    l.vault.assets kind filter = l'.vault.assets kind filter
  requests : l.vault.requests = l'.vault.requests
  locks : ∀ status : LockStatus, l.vault.locks status = l'.vault.locks status
  governing : ∀ r : OutputRef, l.vault.locksGoverning r = l'.vault.locksGoverning r

/-- Vaults that mirror equal archives give the same answers. -/
theorem Mirrors.sameAnswers (h : l.Mirrors) (h' : l'.Mirrors)
    (heq : ∀ id : TransactionId, l.archive[id]? = l'.archive[id]?) : l.SameAnswers l' where
  live r := by
    ext e
    rw [h.live, h'.live, Archive.Unspent.congr heq]
  assets kind filter := (h.assets kind filter).eq heq (h'.assets kind filter)
  requests := h.requests.eq heq h'.requests
  locks status := (h.locks status).eq heq (h'.locks status)
  governing r := (h.governing r).eq heq (h'.governing r)

/-- What consumed a reference is told in one way if no two archived transactions consume it. -/
theorem Mirrors.consumedBy?_eq (h : l.Mirrors) (h' : l'.Mirrors)
    (heq : ∀ id : TransactionId, l.archive[id]? = l'.archive[id]?)
    (hone : ∀ (id id' : TransactionId) (t u : Transaction), l.archive[id]? = some t →
      l.archive[id']? = some u → r ∈ t.content.inputs → r ∈ u.content.inputs → id = id') :
    l.vault.consumedBy? r = l'.vault.consumedBy? r := by
  cases hl : l.vault.consumedBy? r with
  | some id =>
    obtain ⟨t, ht, hinput⟩ := h.consumer r id hl
    obtain ⟨id', hid'⟩ :=
      Option.isSome_iff_exists.mp (h'.consumed id t ((heq id).symm.trans ht) r hinput)
    obtain ⟨u, hu, hinput'⟩ := h'.consumer r id' hid'
    rw [hid', hone id id' t u ht ((heq id').trans hu) hinput hinput']
  | none =>
    cases hl' : l'.vault.consumedBy? r with
    | none => rfl
    | some id =>
      obtain ⟨t, ht, hinput⟩ := h'.consumer r id hl'
      have hsome := h.consumed id t ((heq id).trans ht) r hinput
      rw [hl] at hsome
      cases hsome

theorem find?_id_eq_some_iff (hnodup : (ts.map Transaction.id).Nodup) :
    ts.find? (·.id == id) = some t ↔ t ∈ ts ∧ t.id = id := by
  constructor
  · intro h
    have hid : (t.id == id) = true := by simpa using List.find?_some h
    exact ⟨List.mem_of_find?_eq_some h, beq_iff_eq.mp hid⟩
  · rintro ⟨hmem, rfl⟩
    cases hfind : ts.find? (·.id == t.id) with
    | none => exact absurd (beq_self_eq_true _) (List.find?_eq_none.mp hfind t hmem)
    | some u =>
      have hid : u.id = t.id := by simpa using List.find?_some hfind
      rw [List.inj_on_of_nodup_map hnodup (List.mem_of_find?_eq_some hfind) hmem hid]

theorem getElem?_archive_eq_of_perm (hperm : ts.Perm us)
    (hnodup : (ts.map Transaction.id).Nodup) :
    (recorded ts).archive[id]? = (recorded us).archive[id]? := by
  ext t
  rw [getElem?_archive_recorded, getElem?_archive_recorded, find?_id_eq_some_iff hnodup,
    find?_id_eq_some_iff ((hperm.map _).nodup_iff.mp hnodup), hperm.mem_iff]

theorem mirrors_recorded (hsize : ∀ t ∈ ts, t.content.outputs.length < 2 ^ 32) :
    (recorded ts).Mirrors :=
  mirrors_of_faithful faithful_recorded grounded_recorded (countable_recorded hsize)

/-- The vault is a function of the set of recorded transactions. -/
theorem vault_of_recorded (hsize : ∀ t ∈ ts, t.content.outputs.length < 2 ^ 32) :
    (recorded ts).Mirrors ∧
      (∀ id : TransactionId, (recorded ts).archive[id]? = ts.find? (·.id == id)) ∧
      (∀ us : List Transaction, ts.Perm us → (ts.map Transaction.id).Nodup →
        (recorded ts).SameAnswers (recorded us) ∧
          ((∀ t ∈ ts, ∀ u ∈ ts, ∀ r ∈ t.content.inputs, r ∈ u.content.inputs → t = u) →
            ∀ r : OutputRef,
              (recorded ts).vault.consumedBy? r = (recorded us).vault.consumedBy? r)) ∧
      (∀ (r : OutputRef) (us : List Transaction),
        ((recorded ts).vault.consumedBy? r).isSome = true →
          (recorded (ts ++ us)).vault.live? r = none) ∧
      ∀ t : Transaction, t.id ∈ (recorded ts).archive →
        (recorded ts).record t = (recorded ts, false) := by
  refine ⟨mirrors_recorded hsize, fun _ ↦ getElem?_archive_recorded, ?_,
    fun _ _ ↦ live?_recorded_append, fun _ h ↦ if_pos h⟩
  intro us hperm hnodup
  have hmirrors := mirrors_recorded hsize
  have hmirrors' : (recorded us).Mirrors :=
    mirrors_recorded fun t ht ↦ hsize t (hperm.mem_iff.mpr ht)
  have heq : ∀ id : TransactionId, (recorded ts).archive[id]? = (recorded us).archive[id]? :=
    fun _ ↦ getElem?_archive_eq_of_perm hperm hnodup
  refine ⟨hmirrors.sameAnswers hmirrors' heq, fun hone r ↦ hmirrors.consumedBy?_eq hmirrors' heq ?_⟩
  intro id id' t u ht hu hinput hinput'
  rw [getElem?_archive_recorded, find?_id_eq_some_iff hnodup] at ht hu
  rw [← ht.2, ← hu.2, hone t ht.1 u hu.1 r hinput hinput']

/-! ### A child before its parent -/

namespace Arrivals

open ExitProof.Pair
open Trial (key notary)

/-- What produced the two entities of the pair. -/
def issue : Transaction where
  id := first.ref.transaction
  content := {
    inputs := []
    outputs := [first.entity, second.entity]
    commands := [.asset "Issue" [key 2]]
    notary := notary
    attachments := []
    salt := .replicate 32 0 }
  endorsements := []

/-- The move of the first entity arrives before its production, and once more after it. -/
def arrivals : List Transaction := [move, issue, move]

end Arrivals

open Arrivals ExitProof.Pair in
theorem live?_arrivals :
    (∀ t ∈ arrivals, t.content.outputs.length < 2 ^ 32) ∧
      (recorded arrivals).vault.live? first.ref = none ∧
      (recorded arrivals).vault.live? second.ref = some second := by
  have hsize : ∀ t ∈ arrivals, t.content.outputs.length < 2 ^ 32 := by decide +kernel
  obtain ⟨hmirrors, harchive, -, -, -⟩ := vault_of_recorded hsize
  have hmove : (recorded arrivals).archive[move.id]? = some move := by
    rw [harchive]
    decide +kernel
  have hissue : (recorded arrivals).archive[second.ref.transaction]? = some issue := by
    rw [harchive]
    decide +kernel
  refine ⟨hsize, ?_, (hmirrors.live _ _).mpr ⟨rfl, ⟨issue, hissue, rfl⟩, ?_⟩⟩
  · exact live?_of_isSome_consumedBy?
      (hmirrors.consumed _ move hmove first.ref (by decide +kernel))
  · intro id t ht
    rw [harchive] at ht
    have hfree : ∀ t ∈ arrivals, second.ref ∉ t.content.inputs := by decide +kernel
    exact hfree t (List.mem_of_find?_eq_some ht)

end Ledger

end Custody
