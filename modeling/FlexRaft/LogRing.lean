import FlexRaft.Lib.RingBuffer
import FlexRaft.LogManager

namespace FlexRaft

inductive Status
  | kOk
  | kMemAllocateFail
  | kIndexBeyondRange
  | kNeedSnapshot
  deriving DecidableEq, Repr

/-- `LogManager` as it is stored: `entries_` with `capacity_`, and the ends of the part in use. `deleter` gives what is
left in a slot after `deleter_` ran on it. Operations return `none` where a signed sum of the source exceeds an `int`. -/
structure LogRing where
  entries : RingBuffer LogEntry
  front : Nat := 0
  back : Nat := 0
  count : Nat := 0
  base : Nat := 1
  lastSnapshotIndex : Nat := 0
  lastSnapshotTerm : Nat := 0
  deleter : LogEntry → LogEntry

namespace LogRing

/-- `new LogEntry[cap]`. -/
def newEntries (cap : Nat) : RingBuffer LogEntry := { capacity := cap, array := fun _ => {} }

/-- The constructor. -/
def create (initialCap : Nat) (deleter : LogEntry → LogEntry) : LogRing := { entries := newEntries initialCap, deleter }

def capacity (r : LogRing) : Nat := r.entries.capacity

def kExpandFactor : Nat := 4

/-- A result of type `int`: values from `2 ^ 31` on overflow. -/
def int (n : Nat) : Option Nat := if n < 2 ^ 31 then some n else none

/-- `(i - 1 + Capacity()) % Capacity()`. The sum is an `int`. -/
def previousSlot (r : LogRing) (i : Nat) : Option Nat := (int (i + r.capacity - 1)).map fun _ => r.entries.previous i

/-- Unsigned 32-bit arithmetic. -/
def raftIndexToArrayIndex (r : LogRing) (idx : Nat) : Nat := (2 ^ 32 + idx - r.base + r.front) % 2 ^ 32 % r.capacity

def lastLogEntryIndex (r : LogRing) : Option Nat :=
  if r.count = 0 then some r.lastSnapshotIndex else (r.previousSlot r.back).map fun i => (r.entries.array i).index

def lastLogEntryTerm (r : LogRing) : Option Nat :=
  if r.count = 0 then some r.lastSnapshotTerm else (r.previousSlot r.back).map fun i => (r.entries.array i).term

/-- The test `Count() <= 0 || idx < base_ || idx > LastLogEntryIndex()`. -/
def beyondRange (r : LogRing) (idx : Nat) : Option Bool :=
  if r.count = 0 ∨ idx < r.base then some true else r.lastLogEntryIndex.map fun last => decide (last < idx)

/-- The loop that multiplies the requested capacity until it suffices. Thirty-two rounds leave the range of an `int`
unless the capacity is zero, in which case the loop does not end. -/
def requestCapacity (needed : Nat) : Nat → Nat → Option Nat
  | 0, _ => none
  | fuel + 1, requestCap =>
    if requestCap < needed then (int (requestCap * kExpandFactor)).bind (requestCapacity needed fuel) else some requestCap

/-- `allocated` tells whether `new` gets its memory. -/
def ensureCapacity (r : LogRing) (allocated : Bool) (entryCnt : Nat) : Option (Status × LogRing) := do
  let needed ← int (r.count + entryCnt)
  if needed ≤ r.capacity then return (.kOk, r)
  let limit ← int (r.capacity + entryCnt)
  let requestCap ← requestCapacity limit 32 r.capacity
  if !allocated then return (.kMemAllocateFail, r)
  let (newArray, newIdx) := r.entries.copyTo r.count r.front (newEntries requestCap) 0
  return (.kOk, { r with entries := newArray, front := 0, back := newIdx })

/-- After the entry is stored its index is read back for a log line. -/
def appendEntryHelper (r : LogRing) (allocated : Bool) (entry : LogEntry) : Option (Status × LogRing) := do
  let (stat, r) ← r.ensureCapacity allocated 1
  if stat ≠ .kOk then return (stat, r)
  let r := { r with entries := r.entries.write r.back entry, back := r.entries.next r.back, count := r.count + 1 }
  let _ ← r.previousSlot r.back
  return (.kOk, r)

def appendLogEntry (r : LogRing) (allocated : Bool) (entry : LogEntry) : Option (Status × LogRing) :=
  r.appendEntryHelper allocated entry

def appendLogEntryAtomic (r : LogRing) (allocated : Bool) (entry : LogEntry) : Option (Nat × Status × LogRing) := do
  let allocatedIndex := ((← r.lastLogEntryIndex) + 1) % 2 ^ 32
  let (stat, r) ← r.appendEntryHelper allocated { entry with index := allocatedIndex }
  return (if stat ≠ .kOk then 0 else allocatedIndex, stat, r)

def overWriteLogEntry (r : LogRing) (entry : LogEntry) (idx : Nat) : Option (Status × LogRing) := do
  if ← r.beyondRange idx then return (.kIndexBeyondRange, r)
  return (.kOk, { r with entries := r.entries.write (r.raftIndexToArrayIndex idx) entry })

/-- The loop of `DeleteLogEntriesFrom`, which ends at the slot before the last one deleted. -/
def deleteBackwards (r : LogRing) : Nat → Nat → Option (LogRing × Nat)
  | 0, startIdx => some (r, startIdx)
  | n + 1, startIdx => do
    let deleted := { r with entries := r.entries.write startIdx (r.deleter (r.entries.array startIdx)) }
    deleteBackwards deleted n (← r.previousSlot startIdx)

def deleteLogEntriesFrom (r : LogRing) (idx : Nat) : Option (Status × LogRing) := do
  if ← r.beyondRange idx then return (.kIndexBeyondRange, r)
  let last ← r.lastLogEntryIndex
  let deleteCnt := last - idx + 1
  let (r, startIdx) ← r.deleteBackwards deleteCnt (r.raftIndexToArrayIndex last)
  return (.kOk, { r with back := r.entries.next startIdx, count := r.count - deleteCnt })

def getLogEntriesFrom (r : LogRing) (idx : Nat) : Option (Status × List LogEntry) := do
  if r.count = 0 then return (.kIndexBeyondRange, [])
  let last ← r.lastLogEntryIndex
  if last < idx then return (.kIndexBeyondRange, [])
  if idx < r.base then return (.kNeedSnapshot, [])
  return (.kOk, r.entries.fetch (last - idx + 1) (r.raftIndexToArrayIndex idx))

/-- The inner `none` is the null pointer. -/
def getSingleLogEntry (r : LogRing) (idx : Nat) : Option (Option LogEntry) := do
  if ← r.beyondRange idx then return none
  return some (r.entries.array (r.raftIndexToArrayIndex idx))

/-- The entry is written to `ent`, which keeps its value if there is none. -/
def getEntryObject (r : LogRing) (idx : Nat) (ent : LogEntry) : Option (Status × LogEntry) := do
  if ← r.beyondRange idx then return (.kIndexBeyondRange, ent)
  return (.kOk, r.entries.array (r.raftIndexToArrayIndex idx))

def termAt (r : LogRing) (idx : Nat) : Option Nat := do
  if idx < predIndex r.base then return kNoTerm
  let last ← r.lastLogEntryIndex
  if last < idx then return kNoTerm
  if idx = r.lastSnapshotIndex then return r.lastSnapshotTerm
  return (r.entries.array (r.raftIndexToArrayIndex idx)).term

/-- From `front` on the ring holds the list `held`, and no sum of a slot in use and the capacity exceeds an `int`. -/
structure Window (r : LogRing) (held : List LogEntry) : Prop where
  positive : 0 < r.capacity
  front : r.front < r.capacity
  holds : r.entries.Holds r.front held
  back : r.back = r.entries.slot r.front held.length
  count : r.count = held.length
  small : ∀ j ≤ held.length, r.entries.slot r.front j + r.capacity ≤ 2 ^ 31

section Window

variable {r : LogRing} {held : List LogEntry} {j : Nat}

theorem Window.array_slot (window : r.Window held) (bound : j < held.length) :
    r.entries.array (r.entries.slot r.front j) = held[j] :=
  window.holds.read j held[j] (List.getElem?_eq_getElem bound)

theorem Window.slot_zero (window : r.Window held) : r.entries.slot r.front 0 = r.front := Nat.mod_eq_of_lt window.front

theorem Window.fetch_eq (window : r.Window held) : r.entries.fetch r.count r.front = held := by
  have fetched := window.holds.fetch held.length 0 (Nat.zero_add _).le
  rw [window.slot_zero, List.drop_zero, List.take_length] at fetched
  rw [window.count]
  exact fetched

theorem Window.previousSlot_slot (window : r.Window held) (bound : j < held.length) :
    r.previousSlot (r.entries.slot r.front (j + 1)) = some (r.entries.slot r.front j) := by
  have small := window.small (j + 1) bound
  have positive := window.positive
  unfold previousSlot int
  rw [if_pos (by omega), Option.map_some, r.entries.previous_slot r.front j positive]

theorem Window.previousSlot_back (window : r.Window held) (nonempty : held ≠ []) :
    r.previousSlot r.back = some (r.entries.slot r.front (held.length - 1)) := by
  have positive := List.length_pos_of_ne_nil nonempty
  rw [window.back, ← window.previousSlot_slot (j := held.length - 1) (by omega)]
  congr 2
  omega

theorem Window.last_slot (window : r.Window held) (nonempty : held ≠ []) :
    (r.previousSlot r.back).map r.entries.array = some (held.getLast nonempty) := by
  have positive := List.length_pos_of_ne_nil nonempty
  rw [window.previousSlot_back nonempty, Option.map_some, window.array_slot (by omega), List.getLast_eq_getElem]

theorem Window.lastLogEntryIndex_of_ne (window : r.Window held) (nonempty : held ≠ []) :
    r.lastLogEntryIndex = some (held.getLast nonempty).index := by
  have positive := List.length_pos_of_ne_nil nonempty
  have last := congrArg (Option.map LogEntry.index) (window.last_slot nonempty)
  rw [Option.map_map] at last
  unfold lastLogEntryIndex
  rw [window.count, if_neg (by omega)]
  exact last

theorem Window.lastLogEntryTerm_of_ne (window : r.Window held) (nonempty : held ≠ []) :
    r.lastLogEntryTerm = some (held.getLast nonempty).term := by
  have positive := List.length_pos_of_ne_nil nonempty
  have last := congrArg (Option.map LogEntry.term) (window.last_slot nonempty)
  rw [Option.map_map] at last
  unfold lastLogEntryTerm
  rw [window.count, if_neg (by omega)]
  exact last

theorem Window.raftIndexToArrayIndex_eq (window : r.Window held) (bound : j < held.length) :
    r.raftIndexToArrayIndex (r.base + j) = r.entries.slot r.front j := by
  have small := window.small 0 (Nat.zero_le _)
  have fits : held.length ≤ r.capacity := window.holds.fits
  have front := window.front
  unfold raftIndexToArrayIndex RingBuffer.slot
  have plain : (2 ^ 32 + (r.base + j) - r.base + r.front) % 2 ^ 32 = r.front + j := by omega
  rw [plain]
  rfl

/-- A positive capacity is multiplied once. -/
theorem requestCapacity_eq {cap : Nat} (positive : 0 < cap) (bound : cap * kExpandFactor < 2 ^ 31) :
    requestCapacity (cap + 1) 32 cap = some (cap * kExpandFactor) := by
  have enough : ¬ cap * kExpandFactor < cap + 1 := by
    unfold kExpandFactor
    omega
  rw [requestCapacity, if_pos (Nat.lt_succ_self cap), int, if_pos bound, Option.bind_some, requestCapacity, if_neg enough]

theorem Window.ensureCapacity_room (window : r.Window held) (allocated : Bool) (room : held.length < r.capacity)
    (next : held.length + 1 < 2 ^ 31) : r.ensureCapacity allocated 1 = some (.kOk, r) := by
  unfold ensureCapacity int
  rw [window.count, if_pos next]
  simp only [Option.bind_eq_bind, Option.bind_some]
  exact if_pos room

theorem Window.ensureCapacity_full (window : r.Window held) (allocated : Bool) (full : ¬ held.length < r.capacity)
    (bound : r.capacity * kExpandFactor < 2 ^ 31) :
    r.ensureCapacity allocated 1 = some (if allocated then
        (.kOk, { r with
          entries := (r.entries.copyTo held.length r.front (newEntries (r.capacity * kExpandFactor)) 0).1
          front := 0
          back := (r.entries.copyTo held.length r.front (newEntries (r.capacity * kExpandFactor)) 0).2 })
      else (.kMemAllocateFail, r)) := by
  have fits : held.length ≤ r.capacity := window.holds.fits
  have positive := window.positive
  have next : r.capacity + 1 < 2 ^ 31 := by
    unfold kExpandFactor at bound
    omega
  unfold ensureCapacity int
  rw [window.count, if_pos (by omega), if_pos next]
  simp only [Option.bind_eq_bind, Option.bind_some]
  rw [if_neg (by omega), requestCapacity_eq positive bound]
  cases allocated with
  | false => rfl
  | true => rfl

theorem Window.ensureCapacity_grown (window : r.Window held) (full : ¬ held.length < r.capacity)
    (bound : held.length + 1 + r.capacity * kExpandFactor ≤ 2 ^ 31) :
    ∃ entries back, r.ensureCapacity true 1 = some (.kOk, { r with entries, front := 0, back }) ∧
      LogRing.Window { r with entries, front := 0, back } held ∧ entries.capacity = r.capacity * kExpandFactor := by
  have fits : held.length ≤ r.capacity := window.holds.fits
  have positive := window.positive
  have more : held.length < (newEntries (r.capacity * kExpandFactor)).capacity := by
    change held.length < r.capacity * 4
    omega
  obtain ⟨copy, copied, capacity, holds⟩ := window.holds.copyTo more held.length 0 (Nat.zero_add _) (.nil _ _)
  have ensured := window.ensureCapacity_full true full (by omega)
  rw [window.slot_zero] at copied
  rw [copied] at ensured
  refine ⟨copy, held.length, ensured, ?_, capacity⟩
  have larger : held.length < copy.capacity := capacity ▸ more
  exact {
    positive := Nat.zero_lt_of_lt larger
    front := Nat.zero_lt_of_lt larger
    holds := holds
    back := by
      change held.length = (0 + held.length) % copy.capacity
      rw [Nat.zero_add, Nat.mod_eq_of_lt larger]
    count := window.count
    small := by
      intro j inside
      change (0 + j) % copy.capacity + copy.capacity ≤ 2 ^ 31
      have width : copy.capacity = r.capacity * kExpandFactor := capacity
      rw [Nat.zero_add, Nat.mod_eq_of_lt (inside.trans_lt larger), width]
      omega }

/-- The ring after an entry was stored in the slot behind the others. -/
def stored (r : LogRing) (entry : LogEntry) : LogRing :=
  { r with entries := r.entries.write r.back entry, back := r.entries.next r.back, count := r.count + 1 }

theorem Window.push (window : r.Window held) (room : held.length < r.capacity)
    (sum : r.entries.slot r.front (held.length + 1) + r.capacity ≤ 2 ^ 31) (entry : LogEntry) :
    (r.stored entry).Window (held ++ [entry]) where
  positive := window.positive
  front := window.front
  holds := by
    change (r.entries.write r.back entry).Holds r.front (held ++ [entry])
    rw [window.back]
    exact window.holds.push room entry
  back := by
    change r.entries.next r.back = r.entries.slot r.front (held ++ [entry]).length
    rw [window.back, r.entries.next_slot, List.length_append]
    rfl
  count := by
    change r.count + 1 = (held ++ [entry]).length
    rw [List.length_append, window.count]
    rfl
  small := by
    intro j inside
    rw [List.length_append, List.length_singleton] at inside
    rcases Nat.lt_or_eq_of_le inside with old | rfl
    · exact window.small j (Nat.le_of_lt_succ old)
    · exact sum

theorem Window.appendEntryHelper_room (window : r.Window held) {allocated : Bool} (room : held.length < r.capacity)
    (sum : r.entries.slot r.front (held.length + 1) + r.capacity ≤ 2 ^ 31) (entry : LogEntry)
    {start : LogRing} (ensured : start.ensureCapacity allocated 1 = some (.kOk, r)) :
    start.appendEntryHelper allocated entry = some (.kOk, r.stored entry) := by
  have pushed := window.push room sum entry
  have readBack := pushed.previousSlot_back (List.append_ne_nil_of_right_ne_nil _ (List.cons_ne_nil _ _))
  unfold stored at readBack
  unfold appendEntryHelper
  rw [ensured]
  simp only [Option.bind_eq_bind, Option.bind_some, ne_eq, not_true_eq_false, if_false, readBack]
  rfl

/-- The loop deletes the `n` entries behind the first `kept` ones, from the last one on. The others stay. -/
theorem Window.deleteBackwards_eq (window : r.Window held) (n kept : Nat) (inside : kept + n ≤ held.length)
    {entries : RingBuffer LogEntry} (capacity : entries.capacity = r.capacity) (holds : entries.Holds r.front (held.take kept)) :
    ∃ entries', deleteBackwards { r with entries } n (r.entries.previous (r.entries.slot r.front (kept + n))) =
        some ({ r with entries := entries' }, r.entries.previous (r.entries.slot r.front kept)) ∧
      entries'.capacity = r.capacity ∧ entries'.Holds r.front (held.take kept) ∧
      ∀ j, held.length ≤ j → j < r.capacity →
        entries'.array (r.entries.slot r.front j) = entries.array (r.entries.slot r.front j) := by
  induction n generalizing entries with
  | zero => exact ⟨entries, rfl, capacity, holds, fun _ _ _ => rfl⟩
  | succ n ih =>
    have fits : held.length ≤ r.capacity := window.holds.fits
    have length : (held.take kept).length = kept := List.length_take_of_le (by omega)
    have slots (j : Nat) : entries.slot r.front j = r.entries.slot r.front j := by
      unfold RingBuffer.slot
      rw [capacity]
      rfl
    have here : r.entries.previous (r.entries.slot r.front (kept + (n + 1))) = r.entries.slot r.front (kept + n) := by
      rw [← Nat.add_assoc, r.entries.previous_slot r.front _ window.positive]
    have back : LogRing.previousSlot { r with entries } (r.entries.slot r.front (kept + n)) =
        some (r.entries.previous (r.entries.slot r.front (kept + n))) := by
      have small := window.small (kept + n) (by omega)
      have positive := window.positive
      unfold previousSlot int LogRing.capacity RingBuffer.previous
      dsimp only
      unfold LogRing.capacity at capacity small positive
      rw [capacity, if_pos (by omega)]
      rfl
    have behind := holds.write_behind (length.le.trans (Nat.le_add_right kept n)) (by omega)
      (r.deleter (entries.array (r.entries.slot r.front (kept + n))))
    rw [slots] at behind
    obtain ⟨entries', deleted, capacity', holds', others⟩ := ih (by omega) (by exact capacity) behind
    refine ⟨entries', ?_, capacity', holds', ?_⟩
    · rw [here, deleteBackwards, back]
      exact deleted
    · intro j outside bound
      rw [others j outside bound]
      exact Function.update_of_ne (r.entries.slot_ne r.front (by omega) bound).symm _ _

theorem deleteLogEntriesFrom_inside {idx last i : Nat} {deleted : LogRing} (inside : r.beyondRange idx = some false)
    (lastIndex : r.lastLogEntryIndex = some last)
    (loop : r.deleteBackwards (last - idx + 1) (r.raftIndexToArrayIndex last) = some (deleted, i)) :
    r.deleteLogEntriesFrom idx =
      some (.kOk, { deleted with back := deleted.entries.next i, count := deleted.count - (last - idx + 1) }) := by
  unfold deleteLogEntriesFrom
  rw [inside, lastIndex]
  simp only [Option.bind_eq_bind, Option.bind_some, Bool.false_eq_true, if_false]
  rw [loop]
  rfl

/-- Deleting from the entry that is `j` behind the base on leaves the `j` entries before it. The slots outside the
part in use stay as they were. -/
theorem Window.deleteLogEntriesFrom_eq (window : r.Window held) (bound : j < held.length)
    (inside : r.beyondRange (r.base + j) = some false)
    (lastIndex : r.lastLogEntryIndex = some (r.base + (held.length - 1))) :
    ∃ entries back, r.deleteLogEntriesFrom (r.base + j) = some (.kOk, { r with entries, back, count := j }) ∧
      LogRing.Window { r with entries, back, count := j } (held.take j) ∧ entries.capacity = r.capacity ∧
      ∀ i, held.length ≤ i → i < r.capacity →
        entries.array (r.entries.slot r.front i) = r.entries.array (r.entries.slot r.front i) := by
  have length : (held.take j).length = j := List.length_take_of_le bound.le
  have number : r.base + (held.length - 1) - (r.base + j) + 1 = held.length - j := by omega
  have start : r.raftIndexToArrayIndex (r.base + (held.length - 1)) =
      r.entries.previous (r.entries.slot r.front (j + (held.length - j))) := by
    rw [Nat.add_sub_cancel' bound.le, window.raftIndexToArrayIndex_eq (by omega),
      ← r.entries.previous_slot r.front (held.length - 1) window.positive]
    congr 2
    omega
  obtain ⟨entries, deleted, capacity, holds, others⟩ :=
    window.deleteBackwards_eq (held.length - j) j (by omega) rfl (window.holds.take j)
  rw [← start, ← number] at deleted
  have performed := deleteLogEntriesFrom_inside inside lastIndex deleted
  have left : r.count - (r.base + (held.length - 1) - (r.base + j) + 1) = j := by
    rw [number, window.count]
    omega
  dsimp only at performed
  rw [left] at performed
  refine ⟨entries, _, performed, ?_, capacity, others⟩
  have around := r.entries.next_previous (Nat.mod_lt (r.front + j) window.positive)
  exact {
    positive := by
      change 0 < entries.capacity
      rw [capacity]
      exact window.positive
    front := by
      change r.front < entries.capacity
      rw [capacity]
      exact window.front
    holds := holds
    back := by
      unfold RingBuffer.next at around ⊢
      unfold RingBuffer.slot
      rw [length]
      change (r.entries.previous (r.entries.slot r.front j) + 1) % entries.capacity = (r.front + j) % entries.capacity
      rw [capacity]
      exact around
    count := length.symm
    small := by
      intro i small
      rw [length] at small
      have sum := window.small i (by omega)
      change (r.front + i) % entries.capacity + entries.capacity ≤ 2 ^ 31
      rw [capacity]
      exact sum }

end Window

end LogRing

end FlexRaft
