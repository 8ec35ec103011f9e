import Custody.Proofs.Wire.Reader

/-!
# Reading back what was written

A reader inverts a writer if it takes exactly what the writer writes, for every value that fits: one
whose counts and lengths have a place in 64 bits. Pairs and lists of what can be read back can be
read back, and so can whatever is made of such fields. A wire form is lawful when its reader inverts
its writer; values and the bytes they spell then stand for each other. Whatever takes fewer than
`2 ^ 64` bytes fits.
-/

namespace Custody

/-! ### Inverse readers -/

namespace Reader

variable {α β : Type} {limit : Nat}

/-- Up to a length of the input, a reader takes a value from what was written for it, and from
nothing else. -/
def Inverts (limit : Nat) (reader : Reader α) (fits : α → Prop) (write : α → Bytes) : Prop :=
  ∀ bytes, bytes.length ≤ limit → ∀ a rest,
    reader bytes = .ok (a, rest) ↔ fits a ∧ bytes = write a ++ rest

/-- One value after the other. -/
def pair (first : Reader α) (second : Reader β) : Reader (α × β) := return (← first, ← second)

theorem bind_pair {γ : Type} {first : Reader α} {second : Reader β} {next : α × β → Reader γ} :
    first.pair second >>= next = first >>= fun a ↦ second >>= fun b ↦ next (a, b) := by
  unfold pair
  simp only [bind_assoc, pure_bind]

variable {first : Reader α} {second : Reader β} {fits : α → Prop} {fits' : β → Prop}
  {write : α → Bytes} {write' : β → Bytes}

theorem Inverts.pair (h : first.Inverts limit fits write) (h' : second.Inverts limit fits' write') :
    (first.pair second).Inverts limit (fun p ↦ fits p.1 ∧ fits' p.2)
      (fun p ↦ write p.1 ++ write' p.2) := by
  intro bytes hlimit p rest
  unfold Reader.pair
  simp only [bind_eq_ok_iff, pure_eq_ok_iff]
  constructor
  · rintro ⟨a, behind, ha, b, rest', hb, hp, hrest⟩
    have hfirst := (h bytes hlimit a behind).mp ha
    rw [hfirst.2, List.length_append] at hlimit
    have hsecond := (h' behind (by omega) b rest').mp hb
    rw [← hp, ← hrest, hfirst.2, hsecond.2, ← List.append_assoc]
    exact ⟨⟨hfirst.1, hsecond.1⟩, rfl⟩
  · rintro ⟨⟨hfits, hfits'⟩, hbytes⟩
    rw [List.append_assoc] at hbytes
    refine ⟨p.1, _, (h bytes hlimit _ _).mpr ⟨hfits, hbytes⟩, p.2, rest, ?_, rfl, rfl⟩
    rw [hbytes, List.length_append] at hlimit
    exact (h' _ (by omega) _ _).mpr ⟨hfits', rfl⟩

/-- What is made of fields is read back as they are. -/
theorem Inverts.ofFields {whole : Reader β} (h : first.Inverts limit fits write)
    (fields : β → α) (make : α → β) (hfields : ∀ a, fields (make a) = a)
    (hmake : ∀ b, make (fields b) = b) (hread : whole = first >>= fun a ↦ pure (make a))
    (hfits : ∀ b, fits' b ↔ fits (fields b)) (hwrite : ∀ b, write' b = write (fields b)) :
    whole.Inverts limit fits' write' := by
  intro bytes hlimit b rest
  rw [hread, bind_eq_ok_iff, hfits, hwrite, ← h bytes hlimit]
  simp only [pure_eq_ok_iff]
  constructor
  · rintro ⟨a, rest', ha, hb, hrest⟩
    rwa [← hb, ← hrest, hfields]
  · intro hread
    exact ⟨fields b, rest, hread, hmake b, rfl⟩

/-! ### Lists -/

theorem Inverts.repeated_eq_ok_iff (h : first.Inverts limit fits write) {n : Nat}
    {acc xs : List α} {bytes rest : Bytes} (hlimit : bytes.length ≤ limit) :
    repeated first n acc bytes = .ok (xs, rest) ↔ ∃ read : List α, read.length = n ∧
      acc.reverse ++ read = xs ∧ (∀ a ∈ read, fits a) ∧ bytes = read.flatMap write ++ rest := by
  induction n generalizing acc bytes with
  | zero =>
    unfold repeated
    simp only [pure_eq_ok_iff, List.length_eq_zero_iff]
    constructor
    · rintro ⟨hacc, hbytes⟩
      refine ⟨[], rfl, ?_, fun _ ha ↦ absurd ha List.not_mem_nil, hbytes⟩
      rw [List.append_nil, hacc]
    · rintro ⟨read, hread, hxs, _, hbytes⟩
      rw [hread] at hxs hbytes
      rw [List.append_nil] at hxs
      exact ⟨hxs, hbytes⟩
  | succ n ih =>
    unfold repeated
    rw [bind_eq_ok_iff]
    constructor
    · rintro ⟨a, behind, ha, hread⟩
      have hfirst := (h bytes hlimit a behind).mp ha
      rw [hfirst.2, List.length_append] at hlimit
      obtain ⟨read, hlength, hxs, hall, hbehind⟩ := (ih (by omega)).mp hread
      refine ⟨a :: read, congrArg (· + 1) hlength, ?_,
        List.forall_mem_cons.mpr ⟨hfirst.1, hall⟩, ?_⟩
      · rw [← hxs, List.reverse_cons, List.append_assoc, List.singleton_append]
      · rw [hfirst.2, hbehind, List.flatMap_cons, List.append_assoc]
    · rintro ⟨read, hlength, hxs, hall, hbytes⟩
      obtain ⟨a, read, rfl⟩ := List.exists_cons_of_length_eq_add_one hlength
      have ⟨hfits, hall⟩ := List.forall_mem_cons.mp hall
      rw [List.flatMap_cons, List.append_assoc] at hbytes
      refine ⟨a, _, (h bytes hlimit a _).mpr ⟨hfits, hbytes⟩, ?_⟩
      rw [hbytes, List.length_append] at hlimit
      refine (ih (by omega)).mpr ⟨read, Nat.succ.inj hlength, ?_, hall, rfl⟩
      rw [← hxs, List.reverse_cons, List.append_assoc, List.singleton_append]

/-- A list is its count and its entries. -/
theorem Inverts.list (h : first.Inverts limit fits write) :
    (list first).Inverts limit (fun xs ↦ xs.length < 2 ^ 64 ∧ ∀ x ∈ xs, fits x)
      (Wire.encodeList write) := by
  intro bytes hlimit xs rest
  unfold Reader.list Wire.encodeList
  rw [bind_eq_ok_iff]
  constructor
  · rintro ⟨n, behind, hcount, hread⟩
    have ⟨hlt, hbytes⟩ := count_eq_ok_iff.mp hcount
    rw [hbytes, List.length_append] at hlimit
    obtain ⟨read, rfl, rfl, hall, hbehind⟩ := (h.repeated_eq_ok_iff (by omega)).mp hread
    rw [hbytes, hbehind, ← List.append_assoc]
    exact ⟨⟨hlt, hall⟩, rfl⟩
  · rintro ⟨⟨hlt, hall⟩, hbytes⟩
    rw [List.append_assoc] at hbytes
    refine ⟨xs.length, _, count_eq_ok_iff.mpr ⟨hlt, hbytes⟩, ?_⟩
    rw [hbytes, List.length_append] at hlimit
    exact (h.repeated_eq_ok_iff (by omega)).mpr ⟨xs, rfl, rfl, hall, rfl⟩

end Reader

namespace Wire

variable {α : Type} {write : α → Bytes} {xs : List α}

theorem length_encodeVariant {tag : Nat} : (encodeVariant tag).length = 4 :=
  Bytes.length_ofNatLE 4 tag

theorem length_variant_pos {tag : Nat} {content : Bytes} :
    0 < (encodeVariant tag ++ content).length := by
  rw [List.length_append, length_encodeVariant]
  omega

theorem length_encodeCount {n : Nat} : (encodeCount n).length = 8 := Bytes.length_ofNatLE 8 n

theorem length_le_encodeList_of_mem {x : α} (h : x ∈ xs) :
    (write x).length ≤ (encodeList write xs).length := by
  have hsub : (write x).Sublist (xs.flatMap write) :=
    List.sublist_flatten_of_mem (List.mem_map_of_mem h)
  have hle := hsub.length_le
  unfold encodeList
  rw [List.length_append]
  omega

/-- A list whose entries take at least one byte each is shorter than its wire form. -/
theorem length_lt_encodeList (hpos : ∀ x, 0 < (write x).length) :
    xs.length < (encodeList write xs).length := by
  have hle : xs.length ≤ (xs.flatMap write).length := by
    induction xs with
    | nil => exact Nat.le_refl 0
    | cons x xs ih =>
      have hx := hpos x
      rw [List.flatMap_cons, List.length_append, List.length_cons]
      omega
  unfold encodeList
  rw [List.length_append, length_encodeCount]
  omega

/-! ### Pairs -/

section Pairs

variable {α β : Type} [Wire α] [Wire β]

/-- Two values, one after the other. -/
instance : Wire (α × β) where
  encode p := encode p.1 ++ encode p.2
  read := read.pair read

theorem encode_prod {p : α × β} : encode p = encode p.1 ++ encode p.2 := rfl

theorem bind_read_prod {γ : Type} {next : α × β → Reader γ} :
    read >>= next = read >>= fun a ↦ read >>= fun b ↦ next (a, b) := Reader.bind_pair

end Pairs

end Wire

/-! ### Lawful wire forms -/

/-- A wire form whose reader takes back what its writer writes. -/
class LawfulWire (α : Type) [Wire α] where
  /-- The counts and lengths in a value have a place in 64 bits. -/
  Fits : α → Prop
  read_eq_ok_iff {bytes rest : Bytes} {a : α} :
    Wire.read bytes = .ok (a, rest) ↔ Fits a ∧ bytes = encode a ++ rest
  fits_of_length_lt {a : α} (h : (encode a).length < 2 ^ 64) : Fits a
  length_pos (a : α) : 0 < (encode a).length

export LawfulWire (Fits)

namespace LawfulWire

open Reader

theorem inverts_read (α : Type) [Wire α] [LawfulWire α] {limit : Nat} :
    (Wire.read : Reader α).Inverts limit Fits encode :=
  fun _ _ _ _ ↦ read_eq_ok_iff

section Laws

variable {α : Type} [Wire α] [LawfulWire α]

/-- What is made of a value is read as the value is. -/
theorem read_return_eq_ok_iff {β : Type} {make : α → β} {bytes rest : Bytes} {b : β} :
    (Wire.read >>= fun a ↦ pure (make a) : Reader β) bytes = .ok (b, rest) ↔
      ∃ a, Fits a ∧ make a = b ∧ bytes = encode a ++ rest := by
  simp only [bind_eq_ok_iff, pure_eq_ok_iff, read_eq_ok_iff]
  constructor
  · rintro ⟨a, behind, ⟨hfits, hbytes⟩, hb, hrest⟩
    exact ⟨a, hfits, hb, hrest ▸ hbytes⟩
  · rintro ⟨a, hfits, hb, hbytes⟩
    exact ⟨a, rest, ⟨hfits, hbytes⟩, hb, rfl⟩

/-- What was written is read back, from its first byte to its last. -/
theorem decode_eq_ok_iff {bytes : Bytes} {a : α} :
    decode α bytes = .ok a ↔ Fits a ∧ bytes = encode a := by
  unfold decode
  rw [Reader.decode_eq_ok_iff, read_eq_ok_iff, List.append_nil]

/-- What follows the number of a variant fits if all of it is short. -/
theorem fits_of_length_variant_lt {tag : Nat} {a : α}
    (h : (Wire.encodeVariant tag ++ encode a).length < 2 ^ 64) : Fits a := by
  rw [List.length_append] at h
  exact fits_of_length_lt (by omega)

end Laws

/-! ### Leaves -/

instance : LawfulWire UInt32 where
  Fits _ := True
  read_eq_ok_iff := uint32_eq_ok_iff.trans (iff_of_eq (true_and _).symm)
  fits_of_length_lt _ := trivial
  length_pos n := by
    change 0 < (Bytes.ofNatLE 4 n.toNat).length
    rw [Bytes.length_ofNatLE]
    omega

instance : LawfulWire Bool where
  Fits _ := True
  read_eq_ok_iff := flag_eq_ok_iff.trans (iff_of_eq (true_and _).symm)
  fits_of_length_lt _ := trivial
  length_pos _ := Nat.one_pos

/-- Blocks are read back as such, unless they are empty. -/
@[reducible] def block {n : Nat} (hn : 0 < n) : LawfulWire (Block n) where
  Fits _ := True
  read_eq_ok_iff := block_eq_ok_iff.trans (iff_of_eq (true_and _).symm)
  fits_of_length_lt _ := trivial
  length_pos b := by
    change 0 < b.toList.length
    rw [b.length_toList]
    exact hn

instance : LawfulWire (Block 32) := block (Nat.succ_pos 31)

instance : LawfulWire (Block 64) := block (Nat.succ_pos 63)

instance : LawfulWire String where
  Fits s := (Utf8.encode s).length < 2 ^ 64
  read_eq_ok_iff := text_eq_ok_iff
  fits_of_length_lt {s} h := by
    change (Wire.encodeCount _ ++ Utf8.encode s).length < 2 ^ 64 at h
    rw [List.length_append] at h
    omega
  length_pos s := by
    change 0 < (Wire.encodeCount _ ++ Utf8.encode s).length
    rw [List.length_append, Wire.length_encodeCount]
    omega

instance : LawfulWire Bytes where
  Fits blob := blob.length < 2 ^ 64
  read_eq_ok_iff {bytes rest blob} := by
    change (count >>= fun n ↦ take .endOfInput n) bytes = _ ↔ _
    simp only [bind_eq_ok_iff, count_eq_ok_iff, take_eq_ok_iff]
    constructor
    · rintro ⟨n, behind, ⟨hlt, hbytes⟩, hlength, hbehind⟩
      rw [hbytes, hbehind, ← hlength, ← List.append_assoc]
      exact ⟨hlength ▸ hlt, rfl⟩
    · rintro ⟨hlt, hbytes⟩
      rw [hbytes]
      exact ⟨blob.length, _, ⟨hlt, List.append_assoc _ _ _⟩, rfl, rfl⟩
  fits_of_length_lt {blob} h := by
    change (Wire.encodeCount blob.length ++ blob).length < 2 ^ 64 at h
    rw [List.length_append] at h
    omega
  length_pos blob := by
    change 0 < (Wire.encodeCount blob.length ++ blob).length
    rw [List.length_append, Wire.length_encodeCount]
    omega

/-- No length but 64 is read as that of a signature. -/
instance : LawfulWire Signature where
  Fits _ := True
  read_eq_ok_iff {bytes rest s} := by
    change (count >>= fun n ↦ take .endOfText n >>= fun front ↦ _) bytes = _ ↔ _
    simp only [bind_eq_ok_iff, count_eq_ok_iff, take_eq_ok_iff, true_and]
    constructor
    · rintro ⟨n, behind, ⟨_, hbytes⟩, front, rest', ⟨hlength, hbehind⟩, h⟩
      cases hblock : Block.ofList? 64 front with
      | none =>
        rw [hblock] at h
        cases h
      | some b =>
        rw [hblock] at h
        obtain ⟨rfl, rfl⟩ := pure_eq_ok_iff.mp h
        have hfront := Block.eq_of_ofList? hblock
        rw [hfront, b.length_toList] at hlength
        rw [hbytes, hbehind, ← hlength, hfront, ← List.append_assoc]
        rfl
    · intro hbytes
      rw [hbytes]
      refine ⟨64, _, ⟨by decide, List.append_assoc _ _ _⟩, _, rest,
        ⟨s.block.length_toList, rfl⟩, ?_⟩
      rw [Block.ofList?_toList]
      rfl
  fits_of_length_lt _ := trivial
  length_pos s := by
    change 0 < (Wire.encodeCount 64 ++ s.block.toList).length
    rw [List.length_append, s.block.length_toList]
    omega

/-! ### Composites -/

variable {α β : Type} [Wire α] [LawfulWire α]

instance : LawfulWire (Option α) where
  Fits a? := ∀ a ∈ a?, Fits a
  read_eq_ok_iff {bytes rest a?} := by
    change Reader.optional Wire.read bytes = _ ↔ _
    unfold Reader.optional
    simp only [bind_eq_ok_iff, byte_eq_ok_iff]
    constructor
    · rintro ⟨tag, behind, hbytes, h⟩
      split at h
      · obtain ⟨rfl, rfl⟩ := pure_eq_ok_iff.mp h
        exact ⟨fun _ ha ↦ (nomatch ha), hbytes⟩
      · obtain ⟨a, hfits, rfl, hbehind⟩ := read_return_eq_ok_iff.mp h
        rw [hbytes, hbehind]
        exact ⟨fun _ ha ↦ Option.some.inj ha ▸ hfits, rfl⟩
      · cases h
    · rintro ⟨hfits, hbytes⟩
      cases a? with
      | none => exact ⟨0, rest, hbytes, rfl⟩
      | some a => exact ⟨1, _, hbytes, read_return_eq_ok_iff.mpr ⟨a, hfits a rfl, rfl, rfl⟩⟩
  fits_of_length_lt {a?} h a ha := by
    rw [Option.mem_def.mp ha] at h
    change (1 :: encode a).length < 2 ^ 64 at h
    rw [List.length_cons] at h
    exact fits_of_length_lt (by omega)
  length_pos a? := by
    cases a? with
    | none => exact Nat.one_pos
    | some a => exact Nat.succ_pos _

instance : LawfulWire (List α) where
  Fits xs := xs.length < 2 ^ 64 ∧ ∀ x ∈ xs, Fits x
  read_eq_ok_iff := (inverts_read α).list _ (Nat.le_refl _) _ _
  fits_of_length_lt {xs} h := by
    change (Wire.encodeList encode xs).length < 2 ^ 64 at h
    have hcount := @Wire.length_lt_encodeList α encode xs length_pos
    refine ⟨by omega, fun x hx ↦ ?_⟩
    have hle := @Wire.length_le_encodeList_of_mem α encode xs x hx
    exact fits_of_length_lt (by omega)
  length_pos xs := by
    have hcount := @Wire.length_lt_encodeList α encode xs length_pos
    exact Nat.zero_lt_of_lt hcount

instance [Wire β] [LawfulWire β] : LawfulWire (α × β) where
  Fits p := Fits p.1 ∧ Fits p.2
  read_eq_ok_iff :=
    (inverts_read α).pair (inverts_read β) _ (Nat.le_refl _) _ _
  fits_of_length_lt {p} h := by
    rw [Wire.encode_prod, List.length_append] at h
    exact ⟨fits_of_length_lt (by omega), fits_of_length_lt (by omega)⟩
  length_pos p := by
    have hpos := length_pos p.1
    rw [Wire.encode_prod, List.length_append]
    omega

/-! ### Structures -/

/-- What is written and read by its fields is lawful as they are. -/
abbrev ofFields {α β : Type} [Wire α] [Wire β] [LawfulWire β] (fields : α → β) (make : β → α)
    (hfields : ∀ b, fields (make b) = b) (hmake : ∀ a, make (fields a) = a)
    (hread : Wire.read = Wire.read >>= fun b ↦ pure (make b))
    (hencode : ∀ a, encode a = encode (fields a)) : LawfulWire α where
  Fits a := Fits (fields a)
  read_eq_ok_iff :=
    (inverts_read β).ofFields fields make hfields hmake hread (fun _ ↦ Iff.rfl) hencode _
      (Nat.le_refl _) _ _
  fits_of_length_lt {a} h := fits_of_length_lt (hencode a ▸ h)
  length_pos a := hencode a ▸ length_pos (fields a)

instance : LawfulWire TransactionId :=
  ofFields TransactionId.block TransactionId.mk (fun _ ↦ rfl) (fun _ ↦ rfl) rfl (fun _ ↦ rfl)

instance : LawfulWire AttachmentId :=
  ofFields AttachmentId.block AttachmentId.mk (fun _ ↦ rfl) (fun _ ↦ rfl) rfl (fun _ ↦ rfl)

instance : LawfulWire PublicKey :=
  ofFields PublicKey.block PublicKey.mk (fun _ ↦ rfl) (fun _ ↦ rfl) rfl (fun _ ↦ rfl)

instance : LawfulWire OutputRef :=
  ofFields (fun r ↦ (r.transaction, r.index)) (fun (t, i) ↦ ⟨t, i⟩) (fun _ ↦ rfl) (fun _ ↦ rfl)
    (by rw [Wire.bind_read_prod]; rfl) (fun _ ↦ rfl)

instance : LawfulWire Party :=
  ofFields (fun p ↦ (p.name, p.key)) (fun (n, k) ↦ ⟨n, k⟩) (fun _ ↦ rfl) (fun _ ↦ rfl)
    (by rw [Wire.bind_read_prod]; rfl) (fun _ ↦ rfl)

end LawfulWire

/-- All references are of one length. -/
theorem OutputRef.length_encode {r : OutputRef} : (encode r).length = 36 := by
  change (r.transaction.block.toList ++ Bytes.ofNatLE 4 r.index.toNat).length = 36
  rw [List.length_append, Block.length_toList, Bytes.length_ofNatLE]

end Custody
