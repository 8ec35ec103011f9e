import Custody.Proofs.Ledger.Verified
import Custody.Proofs.Trial

/-!
# The notaries of what is consumed

The rules hold every output to the notary of the transaction, but never look at the notary of an
input: whatever notaries the consumed entities name, the judgement is the same, its errors included.
So another authority may notarise a transaction than the one that decides about what it consumes. In
a verified archive an entity names the notary of the transaction it comes from, and the two agree
exactly when all sources name the notary of the transaction.
-/

namespace Custody

/-- The same entity under another notary. -/
def Located.renotarised (e : Located) (notary : Party) : Located :=
  ⟨{ e.entity with notary := notary }, e.ref⟩

/-- Nothing is read off the notary of an entity. -/
def Located.Blind {α : Type} (f : Located → α) : Prop :=
  ∀ e notary, f (e.renotarised notary) = f e

namespace Rules

open Located

variable {c : Content} {inputs : List Located} {attachments : Attachments}
  {notaryOf : Located → Party}

/-- The inputs under other notaries. -/
def renotarise (notaryOf : Located → Party) (inputs : List Located) : List Located :=
  inputs.map fun e ↦ e.renotarised (notaryOf e)

/-! ### Scanning the inputs -/

section Scan

variable {α : Type} {f : Located → α} {p : Located → Bool}

theorem comp_renotarised (h : Blind f) : (f ∘ fun e ↦ e.renotarised (notaryOf e)) = f :=
  funext fun e ↦ h e (notaryOf e)

theorem filter_renotarise (h : Blind p) :
    (renotarise notaryOf inputs).filter p = renotarise notaryOf (inputs.filter p) := by
  rw [renotarise, List.filter_map, comp_renotarised h, renotarise]

theorem find?_renotarise (h : Blind p) : (renotarise notaryOf inputs).find? p =
    (inputs.find? p).map fun e ↦ e.renotarised (notaryOf e) := by
  rw [renotarise, List.find?_map, comp_renotarised h]

theorem all_renotarise (h : Blind p) : (renotarise notaryOf inputs).all p = inputs.all p := by
  rw [renotarise, List.all_map, comp_renotarised h]

theorem filterMap_renotarise {g : Located → Option α} (h : Blind g) :
    (renotarise notaryOf inputs).filterMap g = inputs.filterMap g := by
  rw [renotarise, List.filterMap_map, comp_renotarised h]

theorem length_renotarise : (renotarise notaryOf inputs).length = inputs.length := List.length_map _

end Scan

/-! ### Every check -/

theorem checkEncumbrances_renotarise :
    c.checkEncumbrances (renotarise notaryOf inputs) = c.checkEncumbrances inputs := by
  unfold Content.checkEncumbrances
  rw [length_renotarise, renotarise, List.zip_map_right, List.forM_eq_forM, List.forM_map]
  rfl

theorem soleRequest_renotarise : soleRequest (renotarise notaryOf inputs) = soleRequest inputs := by
  match inputs with
  | [] => rfl
  | [_] => rfl
  | _ :: _ :: _ => rfl

theorem consumedLock_renotarise :
    consumedLock (renotarise notaryOf inputs) = consumedLock inputs := by
  unfold consumedLock
  rw [filterMap_renotarise fun _ _ ↦ rfl]
  generalize (inputs.filterMap fun i ↦ i.entity.lock?.map fun l ↦ (i.ref, l)) = locks
  match locks with
  | [] => rfl
  | _ :: _ :: _ => rfl
  | [(lockRef, lock)] =>
    simp only [pure_bind]
    rw [filter_renotarise fun _ _ ↦ rfl, find?_renotarise fun _ _ ↦ rfl, length_renotarise,
      all_renotarise fun _ _ ↦ rfl]
    cases (inputs.filter (·.ref != lockRef)).find? (!isGoverned lockRef ·) with
    | none => rfl
    | some stray => rfl

theorem checkAssets_renotarise :
    checkAssets c (renotarise notaryOf inputs) = checkAssets c inputs := by
  unfold checkAssets
  rw [renotarise, List.forM_eq_forM, List.forM_map]
  rfl

variable [Cryptosystem]

/-- Whatever notaries the consumed entities name, the judgement is the same. -/
theorem check_renotarise :
    check c (renotarise notaryOf inputs) attachments = check c inputs attachments := by
  have hrequest : checkRequest c (renotarise notaryOf inputs) = checkRequest c inputs := by
    unfold checkRequest
    rw [renotarise, List.isEmpty_map]
  have hreissue : checkReissue c (renotarise notaryOf inputs) = checkReissue c inputs := by
    unfold checkReissue
    rw [soleRequest_renotarise]
  have hreject : checkReject c (renotarise notaryOf inputs) = checkReject c inputs := by
    unfold checkReject
    rw [soleRequest_renotarise]
  have hunlock : checkUnlock c (renotarise notaryOf inputs) attachments =
      checkUnlock c inputs attachments := by
    unfold checkUnlock
    rw [consumedLock_renotarise]
  have hdelete : checkDelete c (renotarise notaryOf inputs) = checkDelete c inputs := by
    unfold checkDelete
    rw [consumedLock_renotarise]
  unfold check
  rw [checkEncumbrances_renotarise, hrequest, hreissue, hreject, hunlock, hdelete,
    checkAssets_renotarise]

end Rules

/-! ### In a verified archive -/

namespace Archive.Verified

variable [Cryptosystem] {archive : Archive} {t source : Transaction} {id : TransactionId}
  {inputs : List Located}

/-- What a transaction produces is under its notary. -/
theorem notary_eq (h : archive.Verified) (ht : archive[id]? = some t) {e : Entity}
    (hmem : e ∈ t.content.outputs) : e.notary = t.content.notary := by
  obtain ⟨_, _, -, hcheck⟩ := h.admits ht
  obtain ⟨index, houtput⟩ := List.mem_iff_getElem?.mp hmem
  exact ((Rules.check_eq_ok_iff.mp hcheck).1.output index e houtput).notary_eq

/-- What a transaction consumes is under its notary exactly when its sources name that notary. -/
theorem notaries_eq_iff (h : archive.Verified)
    (hinputs : archive.resolveInputs t.content = .ok inputs) :
    (∀ e ∈ inputs, e.entity.notary = t.content.notary) ↔
      ∀ id ∈ t.sources, ∀ source, archive[id]? = some source →
        source.content.notary = t.content.notary := by
  constructor
  · intro hall id hid source hsource
    obtain ⟨r, hr, rfl⟩ := List.mem_map.mp hid
    obtain ⟨e, he, hresolve⟩ := exists_mem_of_mem hinputs hr
    obtain ⟨-, held, hheld, houtput⟩ := resolve_eq_ok_iff.mp hresolve
    obtain rfl := Option.some.inj (hsource.symm.trans hheld)
    rw [← h.notary_eq hsource (List.mem_of_getElem? houtput), hall e he]
  · intro hall e he
    obtain ⟨source, hsource, houtput⟩ := exists_source_of_mem hinputs he
    rw [h.notary_eq hsource (List.mem_of_getElem? houtput)]
    exact hall _ (List.mem_map_of_mem (ref_mem_of_mem hinputs he)) source hsource

end Archive.Verified

/-! ### A second spend under another notary -/

namespace Rules.ForeignNotary

open Trial (key notary)

/-- The issue of a bond to a holder. -/
def issue : Transaction where
  id := ⟨.replicate 32 3⟩
  content := {
    inputs := []
    outputs := [⟨.asset ⟨"Bond", [7]⟩, [key 2], notary, none⟩]
    commands := [.asset "Issue" [key 1]]
    notary := notary
    attachments := []
    salt := .replicate 32 0 }
  endorsements := []

/-- A move of the bond to another holder, under some notary. -/
def move (id : TransactionId) (holder : PublicKey) (notary : Party) : Transaction where
  id := id
  content := {
    inputs := [issue.outputRef 0]
    outputs := [⟨.asset ⟨"Bond", [7]⟩, [holder], notary, none⟩]
    commands := [.asset "Move" [key 2]]
    notary := notary
    attachments := []
    salt := .replicate 32 0 }
  endorsements := []

/-- The second move, under a notary of the holder's own. -/
def again : Transaction := move ⟨.replicate 32 6⟩ (key 7) ⟨"Own", key 2⟩

def archive : Archive :=
  ((Archive.add ∅ issue).add (move ⟨.replicate 32 4⟩ (key 5) notary)).add again

theorem verified : @Archive.Verified .standard archive := by
  let _ : Cryptosystem := .standard
  refine .add (.add (.add .empty ⟨[], ∅, ?_, ?_⟩) ⟨issue.located, ∅, ?_, ?_⟩)
    ⟨issue.located, ∅, ?_, ?_⟩
  all_goals decide +kernel

/-- Not even in a verified archive is everything consumed under its own notary. -/
theorem not_notaries_eq :
    ¬ ∀ (archive : Archive) (t : Transaction) (inputs : List Located) (attachments : Attachments),
      @Archive.Verified .standard archive → archive[t.id]? = some t →
        archive.resolveInputs t.content = .ok inputs →
        @check .standard t.content inputs attachments = .ok () →
        ∀ e ∈ inputs, e.entity.notary = t.content.notary := by
  intro hall
  have hheld : archive[again.id]? = some again := by decide +kernel
  have hresolve : archive.resolveInputs again.content = .ok issue.located := by decide +kernel
  have hcheck : @check .standard again.content issue.located ∅ = .ok () := by decide +kernel
  have hsame := hall archive again issue.located ∅ verified hheld hresolve hcheck
  exact absurd hsame (by decide +kernel)

end Rules.ForeignNotary

end Custody
