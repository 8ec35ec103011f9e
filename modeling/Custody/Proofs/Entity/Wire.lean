import Custody.Entity.Wire
import Custody.Proofs.Wire

/-!
# Reading back entities

Locks nest entities, so what fits is said level by level, as writing goes. Reading goes by the
length of what is left: every level takes bytes of its own, so a reader that may go as deep as the
input is long reads whatever was written.
-/

namespace Custody

theorem LockStatus.length_encode_pos (status : LockStatus) : 0 < (encode status).length := by
  cases status with
  | active => exact Nat.succ_pos _
  | inactive => exact Nat.succ_pos _

namespace LawfulWire

instance : LawfulWire Asset :=
  ofFields (fun a ↦ (a.kind, a.data)) (fun (k, d) ↦ ⟨k, d⟩) (fun _ ↦ rfl) (fun _ ↦ rfl)
    (by rw [Wire.bind_read_prod]; rfl) (fun _ ↦ rfl)

instance : LawfulWire Request :=
  ofFields (fun r ↦ (r.issuer, r.requester, r.entities, r.issuanceCommand, r.extraSigners))
    (fun (i, r, es, c, ss) ↦ ⟨i, r, es, c, ss⟩) (fun _ ↦ rfl) (fun _ ↦ rfl)
    (by simp only [Wire.bind_read_prod]; rfl)
    (fun _ ↦ by simp only [Wire.encode_prod, ← List.append_assoc]; rfl)

instance : LawfulWire LockStatus where
  Fits _ := True
  read_eq_ok_iff {bytes rest status} := by
    change (Reader.variant 2 >>= fun tag ↦ _) bytes = _ ↔ _
    simp only [Reader.bind_eq_ok_iff, Reader.variant_eq_ok_iff (show 2 ≤ 2 ^ 32 by decide),
      true_and]
    constructor
    · rintro ⟨tag, behind, ⟨htag, hbytes⟩, h⟩
      obtain rfl | rfl : tag = 0 ∨ tag = 1 := by omega
      · obtain ⟨rfl, rfl⟩ := Reader.pure_eq_ok_iff.mp h
        exact hbytes
      · obtain ⟨rfl, rfl⟩ := Reader.pure_eq_ok_iff.mp h
        exact hbytes
    · intro hbytes
      cases status with
      | active => exact ⟨0, rest, ⟨by decide, hbytes⟩, rfl⟩
      | inactive => exact ⟨1, rest, ⟨by decide, hbytes⟩, rfl⟩
  fits_of_length_lt _ := trivial
  length_pos := LockStatus.length_encode_pos

end LawfulWire

/-! ### What fits -/

mutual

/-- The counts and lengths in an entity have a place in 64 bits. -/
def Entity.Fits : Entity → Prop
  | ⟨payload, participants, notary, encumbrance⟩ =>
    payload.Fits ∧ LawfulWire.Fits participants ∧ LawfulWire.Fits notary ∧
      LawfulWire.Fits encumbrance

/-- The counts and lengths in a payload have a place in 64 bits. -/
def Payload.Fits : Payload → Prop
  | .asset a => LawfulWire.Fits a
  | .request r => LawfulWire.Fits r
  | .lock l => l.Fits

/-- The counts and lengths in a located entity have a place in 64 bits. -/
def Located.Fits : Located → Prop
  | ⟨entity, ref⟩ => entity.Fits ∧ LawfulWire.Fits ref

/-- The counts and lengths in the entries of a snapshot have a place in 64 bits. -/
def Located.AllFit : List Located → Prop
  | [] => True
  | e :: es => e.Fits ∧ Located.AllFit es

/-- The counts and lengths in a lock have a place in 64 bits. -/
def Lock.Fits : Lock → Prop
  | ⟨issuer, requester, snapshot, status, unlockSigners⟩ =>
    LawfulWire.Fits issuer ∧ LawfulWire.Fits requester ∧
      (snapshot.length < 2 ^ 64 ∧ Located.AllFit snapshot) ∧ LawfulWire.Fits status ∧
      LawfulWire.Fits unlockSigners

end

namespace Located

theorem allFit_iff {es : List Located} : AllFit es ↔ ∀ e ∈ es, e.Fits := by
  induction es with
  | nil => exact iff_of_true trivial fun _ h ↦ absurd h List.not_mem_nil
  | cons e es ih =>
    unfold AllFit
    rw [ih, List.forall_mem_cons]

theorem encodeAll_eq_flatMap {es : List Located} : encodeAll es = es.flatMap Located.encode := by
  induction es with
  | nil => rfl
  | cons e es ih =>
    unfold encodeAll
    rw [ih, List.flatMap_cons]

end Located

/-! ### One level -/

namespace Reader

open LawfulWire

variable {payload : Reader Payload} {limit : Nat}

/-- An entity is read back if its payload is. -/
theorem Inverts.entity (h : payload.Inverts limit Payload.Fits Payload.encode) :
    (Entity.readWith payload).Inverts limit Entity.Fits Entity.encode := by
  have hfields := h.pair (inverts_read (List PublicKey × Party × Option UInt32))
  refine hfields.ofFields (fun e ↦ (e.payload, e.participants, e.notary, e.encumbrance))
    (fun (p, ks, n, e) ↦ ⟨p, ks, n, e⟩) (fun _ ↦ rfl) (fun ⟨_, _, _, _⟩ ↦ rfl) ?_ ?_ ?_
  · simp only [bind_pair, Wire.bind_read_prod]
    rfl
  · rintro ⟨_, _, _, _⟩
    unfold Entity.Fits
    rfl
  · rintro ⟨_, _, _, _⟩
    unfold Entity.encode
    simp only [Wire.encode_prod, List.append_assoc]

theorem Inverts.located (h : payload.Inverts limit Payload.Fits Payload.encode) :
    (Located.readWith payload).Inverts limit Located.Fits Located.encode := by
  have hfields := h.entity.pair (inverts_read OutputRef)
  refine hfields.ofFields (fun e ↦ (e.entity, e.ref)) (fun (e, r) ↦ ⟨e, r⟩) (fun _ ↦ rfl)
    (fun ⟨_, _⟩ ↦ rfl) ?_ ?_ ?_
  · rw [bind_pair]
    rfl
  · rintro ⟨_, _⟩
    unfold Located.Fits
    rfl
  · rintro ⟨_, _⟩
    unfold Located.encode
    rfl

/-- A lock is read back if the payloads in its snapshot are. -/
theorem Inverts.lock (h : payload.Inverts limit Payload.Fits Payload.encode) :
    (Lock.readWith payload).Inverts limit Lock.Fits Lock.encode := by
  have hfields := (inverts_read (Party × PublicKey)).pair
    (h.located.list.pair (inverts_read (LockStatus × List PublicKey)))
  refine hfields.ofFields
    (fun l ↦ ((l.issuer, l.requester), l.snapshot, l.status, l.unlockSigners))
    (fun ((i, r), es, s, us) ↦ ⟨i, r, es, s, us⟩) (fun _ ↦ rfl) (fun ⟨_, _, _, _, _⟩ ↦ rfl)
    ?_ ?_ ?_
  · simp only [bind_pair, Wire.bind_read_prod]
    rfl
  · rintro ⟨_, _, _, _, _⟩
    unfold Lock.Fits
    rw [Located.allFit_iff]
    exact and_assoc.symm
  · rintro ⟨_, _, _, _, _⟩
    unfold Lock.encode Wire.encodeList
    simp only [Wire.encode_prod, Located.encodeAll_eq_flatMap, List.append_assoc]

end Reader

/-! ### All levels -/

namespace Payload

open LawfulWire

theorem length_encode_pos {p : Payload} : 0 < p.encode.length := by
  cases p with
  | asset a => exact Wire.length_variant_pos
  | request r => exact Wire.length_variant_pos
  | lock l => exact Wire.length_variant_pos

/-- A payload is read back if it nests no deeper than the input is long. -/
theorem inverts_readNested {bound : Bytes} :
    (readNested bound).Inverts bound.length Fits encode := by
  induction bound with
  | nil =>
    intro bytes hlimit p rest
    constructor
    · exact fun h ↦ nomatch h
    · rintro ⟨_, hbytes⟩
      have hpos : 0 < p.encode.length := length_encode_pos
      rw [hbytes, List.length_append, List.length_nil] at hlimit
      omega
  | cons _ bound ih =>
    intro bytes hlimit p rest
    unfold readNested
    simp only [Reader.bind_eq_ok_iff, Reader.variant_eq_ok_iff (show 3 ≤ 2 ^ 32 by decide)]
    rw [List.length_cons] at hlimit
    constructor
    · rintro ⟨tag, behind, ⟨htag, hbytes⟩, h⟩
      rw [hbytes, List.length_append, Wire.length_encodeVariant] at hlimit
      rw [hbytes]
      obtain rfl | rfl | rfl : tag = 0 ∨ tag = 1 ∨ tag = 2 := by omega
      · obtain ⟨a, hfits, rfl, rfl⟩ := read_return_eq_ok_iff.mp h
        exact ⟨hfits, (List.append_assoc _ _ _).symm⟩
      · obtain ⟨r, hfits, rfl, rfl⟩ := read_return_eq_ok_iff.mp h
        exact ⟨hfits, (List.append_assoc _ _ _).symm⟩
      · obtain ⟨l, _, hl, h⟩ := Reader.bind_eq_ok_iff.mp h
        obtain ⟨rfl, rfl⟩ := Reader.pure_eq_ok_iff.mp h
        have hlock := (ih.lock behind (by omega) l _).mp hl
        rw [hlock.2]
        exact ⟨hlock.1, (List.append_assoc _ _ _).symm⟩
    · rintro ⟨hfits, hbytes⟩
      rw [hbytes] at hlimit ⊢
      cases p with
      | asset a =>
        exact ⟨0, _, ⟨by decide, List.append_assoc _ _ _⟩,
          read_return_eq_ok_iff.mpr ⟨a, hfits, rfl, rfl⟩⟩
      | request r =>
        exact ⟨1, _, ⟨by decide, List.append_assoc _ _ _⟩,
          read_return_eq_ok_iff.mpr ⟨r, hfits, rfl, rfl⟩⟩
      | lock l =>
        refine ⟨2, _, ⟨by decide, List.append_assoc _ _ _⟩, Reader.bind_eq_ok_iff.mpr ?_⟩
        unfold encode at hlimit
        simp only [List.length_append, Wire.length_encodeVariant] at hlimit
        refine ⟨l, rest, (ih.lock _ ?_ l rest).mpr ⟨hfits, rfl⟩, rfl⟩
        rw [List.length_append]
        omega

theorem inverts_read {limit : Nat} : read.Inverts limit Fits encode :=
  fun bytes _ p rest ↦ inverts_readNested bytes (Nat.le_refl _) p rest

end Payload

theorem Entity.length_encode_pos {e : Entity} : 0 < e.encode.length := by
  cases e with
  | mk payload participants notary encumbrance =>
    have hpos : 0 < payload.encode.length := Payload.length_encode_pos
    unfold encode
    simp only [List.length_append]
    omega

theorem Located.length_encode_pos {e : Located} : 0 < e.encode.length := by
  cases e with
  | mk entity ref =>
    have hpos : 0 < entity.encode.length := Entity.length_encode_pos
    unfold encode
    rw [List.length_append]
    omega

theorem Lock.length_encode_pos {l : Lock} : 0 < l.encode.length := by
  cases l with
  | mk issuer requester snapshot status unlockSigners =>
    have hpos := LawfulWire.length_pos issuer
    unfold encode
    simp only [List.length_append]
    omega

/-! ### Whatever is short fits -/

mutual

theorem Entity.fits_of_length_lt : ∀ {e : Entity}, e.encode.length < 2 ^ 64 → e.Fits
  | ⟨payload, participants, notary, encumbrance⟩, h => by
    unfold Entity.encode at h
    simp only [List.length_append] at h
    unfold Entity.Fits
    exact ⟨Payload.fits_of_length_lt (by omega), LawfulWire.fits_of_length_lt (by omega),
      LawfulWire.fits_of_length_lt (by omega), LawfulWire.fits_of_length_lt (by omega)⟩

theorem Payload.fits_of_length_lt : ∀ {p : Payload}, p.encode.length < 2 ^ 64 → p.Fits
  | .asset _, h => LawfulWire.fits_of_length_variant_lt h
  | .request _, h => LawfulWire.fits_of_length_variant_lt h
  | .lock l, h => by
    unfold Payload.encode at h
    rw [List.length_append] at h
    exact @Lock.fits_of_length_lt l (by omega)

theorem Located.fits_of_length_lt : ∀ {e : Located}, e.encode.length < 2 ^ 64 → e.Fits
  | ⟨entity, ref⟩, h => by
    unfold Located.encode at h
    rw [List.length_append] at h
    unfold Located.Fits
    exact ⟨Entity.fits_of_length_lt (by omega), LawfulWire.fits_of_length_lt (by omega)⟩

theorem Located.allFit_of_length_lt :
    ∀ {es : List Located}, (Located.encodeAll es).length < 2 ^ 64 → Located.AllFit es
  | [], _ => trivial
  | e :: es, h => by
    unfold Located.encodeAll at h
    rw [List.length_append] at h
    exact ⟨Located.fits_of_length_lt (by omega), Located.allFit_of_length_lt (by omega)⟩

theorem Lock.fits_of_length_lt : ∀ {l : Lock}, l.encode.length < 2 ^ 64 → l.Fits
  | ⟨issuer, requester, snapshot, status, unlockSigners⟩, h => by
    have hcount := @Wire.length_lt_encodeList _ _ snapshot fun e ↦ e.length_encode_pos
    unfold Wire.encodeList at hcount
    rw [← Located.encodeAll_eq_flatMap] at hcount
    unfold Lock.encode at h
    simp only [List.length_append] at h hcount
    unfold Lock.Fits
    exact ⟨LawfulWire.fits_of_length_lt (by omega), LawfulWire.fits_of_length_lt (by omega),
      ⟨by omega, Located.allFit_of_length_lt (by omega)⟩, LawfulWire.fits_of_length_lt (by omega),
      LawfulWire.fits_of_length_lt (by omega)⟩

end

instance : LawfulWire Payload where
  Fits := Payload.Fits
  read_eq_ok_iff := Payload.inverts_read _ (Nat.le_refl _) _ _
  fits_of_length_lt := Payload.fits_of_length_lt
  length_pos _ := Payload.length_encode_pos

instance : LawfulWire Entity where
  Fits := Entity.Fits
  read_eq_ok_iff := Payload.inverts_read.entity _ (Nat.le_refl _) _ _
  fits_of_length_lt := Entity.fits_of_length_lt
  length_pos _ := Entity.length_encode_pos

instance : LawfulWire Located where
  Fits := Located.Fits
  read_eq_ok_iff := Payload.inverts_read.located _ (Nat.le_refl _) _ _
  fits_of_length_lt := Located.fits_of_length_lt
  length_pos _ := Located.length_encode_pos

instance : LawfulWire Lock where
  Fits := Lock.Fits
  read_eq_ok_iff := Payload.inverts_read.lock _ (Nat.le_refl _) _ _
  fits_of_length_lt := Lock.fits_of_length_lt
  length_pos _ := Lock.length_encode_pos

end Custody
