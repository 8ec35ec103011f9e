import Custody.Ledger

/-!
# Lineage

The transactions a transaction rests on through its inputs. `walk` goes through them breadth first
and meets each once; it fails on the first one that is not held. `lineage` lists what was met so
that every transaction comes after the sources of its inputs: those without sources first, each
further one when the last of its sources has been listed. What lies on or below a cycle is never
listed.
-/

namespace Custody

/-- Taking a held key out of a map makes it smaller by one. -/
theorem size_erase_add_one {β : Type} {map : Std.TreeMap TransactionId β} {id : TransactionId}
    {b : β} (h : map[id]? = some b) : (map.erase id).size + 1 = map.size := by
  have hcontains : map.contains id = true := by
    rw [Std.TreeMap.contains_eq_isSome_getElem?, h]
    rfl
  have hempty : map.isEmpty = false := Std.TreeMap.isEmpty_eq_false_of_contains hcontains
  rw [Std.TreeMap.isEmpty_eq_size_eq_zero, beq_eq_false_iff_ne] at hempty
  rw [Std.TreeMap.size_erase, if_pos hcontains]
  omega

namespace Archive

/-- The first transaction in the queue that was not met so far, with its id and the queue behind it.
Ids met before are passed over, and one that is not held is an error. -/
def nextUnvisited (archive unvisited : Archive) :
    List TransactionId →
      Except LedgerError (Option (TransactionId × Transaction × List TransactionId))
  | [] => .ok none
  | id :: queue =>
    match unvisited[id]? with
    | some t => .ok (some (id, t, queue))
    | none =>
      if id ∈ archive then nextUnvisited archive unvisited queue else .error (.notFound id)

theorem getElem?_of_nextUnvisited {archive unvisited : Archive} {queue rest : List TransactionId}
    {id : TransactionId} {t : Transaction}
    (h : nextUnvisited archive unvisited queue = .ok (some (id, t, rest))) :
    unvisited[id]? = some t := by
  induction queue with
  | nil => simp [nextUnvisited] at h
  | cons first queue ih =>
    unfold nextUnvisited at h
    split at h
    · rename_i found hfound
      simp only [Except.ok.injEq, Option.some.injEq, Prod.mk.injEq] at h
      rw [← h.1, ← h.2.1]
      exact hfound
    · split at h
      · exact ih h
      · simp at h

/-- Goes through the queue, first in first out. `unvisited` holds the transactions not met so far,
and `met` those met, latest first. -/
def walkFrom (archive : Archive) (queue : List TransactionId) (unvisited : Archive)
    (met : List Transaction) : Except LedgerError (List Transaction) :=
  match _h : archive.nextUnvisited unvisited queue with
  | .error e => .error e
  | .ok none => .ok met.reverse
  | .ok (some (id, t, queue)) =>
    archive.walkFrom (queue ++ t.sources) (unvisited.erase id) (t :: met)
termination_by unvisited.size
decreasing_by
  have hsize := size_erase_add_one (getElem?_of_nextUnvisited _h)
  omega

/-- Everything reachable from the given ids, in the order of discovery. -/
def walk (archive : Archive) (ids : List TransactionId) : Except LedgerError (List Transaction) :=
  archive.walkFrom ids archive []

/-- The ids reachable from the given ones, those included, in ascending order. -/
def ancestors (archive : Archive) (ids : List TransactionId) :
    Except LedgerError (List TransactionId) := do
  let met ← archive.walk ids
  return (Std.TreeSet.ofList (met.map Transaction.id) compare).toList

end Archive

namespace Lineage

/-- How many sources of a transaction are still to be listed; those with none are left out. -/
abbrev Waiting := Std.TreeMap TransactionId Nat

/-- Each transaction a listed source frees counts one source less; those that wait for no other are
taken out and returned in order. -/
def free (waiting : Waiting) : List Transaction → Waiting × List Transaction
  | [] => (waiting, [])
  | t :: ts =>
    match waiting[t.id]? with
    | none => free waiting ts
    | some n =>
      if n ≤ 1 then
        let (waiting, freed) := free (waiting.erase t.id) ts
        (waiting, t :: freed)
      else free (waiting.insert t.id (n - 1)) ts

theorem size_free (waiting : Waiting) (ts : List Transaction) :
    (free waiting ts).1.size + (free waiting ts).2.length = waiting.size := by
  induction ts generalizing waiting with
  | nil => simp [free]
  | cons t ts ih =>
    unfold free
    split
    · exact ih waiting
    · rename_i n hn
      split
      · have hsize := size_erase_add_one hn
        have hrest := ih (waiting.erase t.id)
        simp only [List.length_cons]
        omega
      · have hcontains : waiting.contains t.id = true := by
          rw [Std.TreeMap.contains_eq_isSome_getElem?, hn]
          rfl
        rw [ih, Std.TreeMap.size_insert, if_pos hcontains]

/-- Lists what is ready, first in first out, and what each listed transaction frees after it. -/
def listReady (consumers : Std.TreeMap TransactionId (List Transaction)) (waiting : Waiting)
    (ready listed : List Transaction) : List Transaction :=
  match ready with
  | [] => listed.reverse
  | t :: ready =>
    let next := free waiting (consumers.getD t.id [])
    listReady consumers next.1 (ready ++ next.2) (t :: listed)
termination_by waiting.size + ready.length
decreasing_by
  have := size_free waiting (consumers.getD t.id [])
  simp only [List.length_append, List.length_cons]
  omega

/-- The transactions that consume outputs of each transaction, in the order given. -/
def consumers (ts : List Transaction) : Std.TreeMap TransactionId (List Transaction) :=
  ts.foldr
    (fun t map ↦
      t.sources.eraseDups.foldl (fun map source ↦ map.insert source (t :: map.getD source [])) map)
    ∅

/-- Transactions rearranged so that each comes after its sources. -/
def arrange (ts : List Transaction) : List Transaction :=
  let waiting : Waiting := ts.foldl
    (fun waiting t ↦
      match t.sources.eraseDups.length with
      | 0 => waiting
      | n => waiting.insert t.id n)
    ∅
  listReady (consumers ts) waiting (ts.filter (·.sources.isEmpty)) []

end Lineage

/-- Everything reachable from the given ids, sources before consumers. -/
def Archive.lineage (archive : Archive) (ids : List TransactionId) :
    Except LedgerError (List Transaction) := do
  return Lineage.arrange (← archive.walk ids)

end Custody
