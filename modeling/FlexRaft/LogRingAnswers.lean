import FlexRaft.Lib.Steps
import FlexRaft.LogRing

namespace FlexRaft

namespace LogRing

/-- The ring holds the list `l`, whose first entry has index 1. With `small`, no sum of a slot and the capacity
exceeds an `int`. -/
structure Represents (r : LogRing) (l : List LogEntry) : Prop where
  positive : 0 < r.capacity
  front : r.front = 0
  holds : r.entries.Holds r.front l
  back : r.back = r.entries.slot r.front l.length
  count : r.count = l.length
  base : r.base = 1
  lastSnapshotIndex : r.lastSnapshotIndex = 0
  lastSnapshotTerm : r.lastSnapshotTerm = 0
  indexed : LogManager.Indexed { entries := l }
  small : l.length + r.capacity ≤ 2 ^ 31

section Represents

variable {r : LogRing} {l : List LogEntry} {j : Nat}

theorem create_represents {initialCap : Nat} (positive : 1 ≤ initialCap) (bound : initialCap < 2 ^ 31)
    (deleter : LogEntry → LogEntry) : (create initialCap deleter).Represents [] where
  positive := positive
  front := rfl
  holds := .nil _ _
  back := (Nat.zero_mod _).symm
  count := rfl
  base := rfl
  lastSnapshotIndex := rfl
  lastSnapshotTerm := rfl
  indexed := LogManager.indexed_nil
  small := by
    rw [List.length_nil, Nat.zero_add]
    exact bound.le

theorem Represents.window (repr : r.Represents l) : r.Window l where
  positive := repr.positive
  front := by
    rw [repr.front]
    exact repr.positive
  holds := repr.holds
  back := repr.back
  count := repr.count
  small := by
    intro j inside
    have slot_le : r.entries.slot r.front j ≤ j := by
      unfold RingBuffer.slot
      rw [repr.front, Nat.zero_add]
      exact Nat.mod_le _ _
    have small := repr.small
    omega

theorem Represents.of_window {r' : LogRing} {l' : List LogEntry} (repr : r.Represents l) (window : r'.Window l')
    (front : r'.front = r.front) (base : r'.base = r.base) (lastSnapshotIndex : r'.lastSnapshotIndex = r.lastSnapshotIndex)
    (lastSnapshotTerm : r'.lastSnapshotTerm = r.lastSnapshotTerm) (indexed : LogManager.Indexed { entries := l' })
    (small : l'.length + r'.capacity ≤ 2 ^ 31) : r'.Represents l' where
  positive := window.positive
  front := front.trans repr.front
  holds := window.holds
  back := window.back
  count := window.count
  base := base.trans repr.base
  lastSnapshotIndex := lastSnapshotIndex.trans repr.lastSnapshotIndex
  lastSnapshotTerm := lastSnapshotTerm.trans repr.lastSnapshotTerm
  indexed := indexed
  small := small

theorem Represents.array_slot (repr : r.Represents l) (bound : j < l.length) :
    r.entries.array (r.entries.slot r.front j) = l[j] :=
  repr.window.array_slot bound

theorem Represents.raftIndexToArrayIndex_eq (repr : r.Represents l) (bound : j < l.length) :
    r.raftIndexToArrayIndex (j + 1) = r.entries.slot r.front j := by
  rw [← repr.window.raftIndexToArrayIndex_eq bound, repr.base, Nat.add_comm]

theorem Represents.lastLogEntryIndex_eq (repr : r.Represents l) : r.lastLogEntryIndex = some l.length := by
  by_cases empty : l = []
  · unfold lastLogEntryIndex
    rw [repr.count, repr.lastSnapshotIndex, empty]
    rfl
  · have positive := List.length_pos_of_ne_nil empty
    have inside : l.length - 1 < l.length := by omega
    have place := repr.indexed (l.length - 1) _ (List.getElem?_eq_getElem inside)
    rw [repr.window.lastLogEntryIndex_of_ne empty, List.getLast_eq_getElem, place, Nat.sub_add_cancel positive]

theorem Represents.lastLogEntryTerm_eq (repr : r.Represents l) :
    r.lastLogEntryTerm = some (({ entries := l } : LogManager).lastLogEntryTerm) := by
  unfold LogManager.lastLogEntryTerm
  by_cases empty : l = []
  · unfold lastLogEntryTerm
    rw [repr.count, repr.lastSnapshotTerm, empty]
    rfl
  · rw [repr.window.lastLogEntryTerm_of_ne empty, List.getLast?_eq_some_getLast empty]

theorem Represents.beyondRange_eq (repr : r.Represents l) (idx : Nat) :
    r.beyondRange idx = some (decide (idx < 1 ∨ l.length < idx)) := by
  unfold beyondRange
  rw [repr.count, repr.base, repr.lastLogEntryIndex_eq]
  split
  · rw [decide_eq_true]
    omega
  · rw [Option.map_some, decide_eq_decide.mpr]
    omega

theorem Represents.beyondRange_succ (repr : r.Represents l) (bound : j < l.length) :
    r.beyondRange (j + 1) = some false := by
  rw [repr.beyondRange_eq, decide_eq_false]
  omega

theorem Represents.beyondRange_outside (repr : r.Represents l) {idx : Nat} (outside : idx < 1 ∨ l.length < idx) :
    r.beyondRange idx = some true := by
  rw [repr.beyondRange_eq, decide_eq_true outside]

theorem Represents.getSingleLogEntry_eq (repr : r.Represents l) (idx : Nat) :
    r.getSingleLogEntry idx = some (if idx = 0 then none else l[idx - 1]?) := by
  unfold getSingleLogEntry
  by_cases outside : idx < 1 ∨ l.length < idx
  · rw [repr.beyondRange_outside outside]
    split
    · rfl
    · rw [List.getElem?_eq_none (by omega)]
      rfl
  · obtain ⟨j, rfl⟩ : ∃ j, idx = j + 1 := ⟨idx - 1, by omega⟩
    have bound : j < l.length := by omega
    rw [repr.beyondRange_succ bound, repr.raftIndexToArrayIndex_eq bound, repr.array_slot bound, if_neg (by omega),
      Nat.add_sub_cancel, List.getElem?_eq_getElem bound]
    rfl

theorem Represents.getEntryObject_eq (repr : r.Represents l) (idx : Nat) (ent : LogEntry) :
    r.getEntryObject idx ent = some (if idx = 0 then (.kIndexBeyondRange, ent) else
      (l[idx - 1]?.map (Status.kOk, ·)).getD (.kIndexBeyondRange, ent)) := by
  unfold getEntryObject
  by_cases outside : idx < 1 ∨ l.length < idx
  · rw [repr.beyondRange_outside outside]
    split
    · rfl
    · rw [List.getElem?_eq_none (by omega)]
      rfl
  · obtain ⟨j, rfl⟩ : ∃ j, idx = j + 1 := ⟨idx - 1, by omega⟩
    have bound : j < l.length := by omega
    rw [repr.beyondRange_succ bound, repr.raftIndexToArrayIndex_eq bound, repr.array_slot bound, if_neg (by omega),
      Nat.add_sub_cancel, List.getElem?_eq_getElem bound]
    rfl

theorem Represents.getLogEntriesFrom_eq (repr : r.Represents l) (idx : Nat) :
    r.getLogEntriesFrom idx = some (if l.length = 0 ∨ l.length < idx then (.kIndexBeyondRange, []) else
      if idx = 0 then (.kNeedSnapshot, []) else (.kOk, l.drop (idx - 1))) := by
  unfold getLogEntriesFrom
  rw [repr.count, repr.base, repr.lastLogEntryIndex_eq]
  by_cases empty : l.length = 0
  · rw [if_pos empty, if_pos (Or.inl empty)]
    rfl
  rw [if_neg empty]
  by_cases beyond : l.length < idx
  · rw [if_pos (Or.inr beyond)]
    exact if_pos beyond
  rw [if_neg (by omega)]
  rcases idx with _ | j
  · rfl
  · have bound : j < l.length := by omega
    have count : l.length - (j + 1) + 1 = (l.drop j).length := by
      rw [List.length_drop]
      omega
    have fetched := repr.holds.fetch (l.drop j).length j (by omega)
    rw [List.take_length] at fetched
    rw [if_neg (by omega), Nat.add_sub_cancel, ← fetched, repr.raftIndexToArrayIndex_eq bound]
    simp only [Option.bind_eq_bind, Option.bind_some, count, if_neg beyond]
    rfl

theorem Represents.termAt_eq (repr : r.Represents l) (idx : Nat) :
    r.termAt idx = some (if idx = 0 then 0 else (l[idx - 1]?.map LogEntry.term).getD kNoTerm) := by
  unfold termAt
  rw [repr.base, repr.lastLogEntryIndex_eq, repr.lastSnapshotIndex, repr.lastSnapshotTerm,
    if_neg (show ¬ idx < predIndex 1 from Nat.not_lt_zero idx)]
  simp only [Option.bind_eq_bind, Option.bind_some]
  rcases idx with _ | j
  · rfl
  · rw [if_neg (Nat.succ_ne_zero j), if_neg (Nat.succ_ne_zero j), Nat.add_sub_cancel]
    by_cases bound : j < l.length
    · rw [if_neg (by omega), repr.raftIndexToArrayIndex_eq bound, repr.array_slot bound, List.getElem?_eq_getElem bound]
      rfl
    · rw [if_pos (by omega), List.getElem?_eq_none (by omega)]
      rfl

end Represents

section Operations

variable {r : LogRing} {l : List LogEntry} {allocated : Bool}

/-- One more entry fits and all sums stay in the range of an `int`, after the growth if there is one. -/
def HasRoom (r : LogRing) (allocated : Bool) : Prop :=
  if r.count < r.capacity then r.count + 1 + r.capacity ≤ 2 ^ 31
  else r.capacity * kExpandFactor < 2 ^ 31 ∧ (allocated → r.count + 1 + r.capacity * kExpandFactor ≤ 2 ^ 31)

instance (r : LogRing) (allocated : Bool) : Decidable (r.HasRoom allocated) :=
  inferInstanceAs (Decidable (if r.count < r.capacity then r.count + 1 + r.capacity ≤ 2 ^ 31
    else r.capacity * kExpandFactor < 2 ^ 31 ∧ (allocated → r.count + 1 + r.capacity * kExpandFactor ≤ 2 ^ 31)))

theorem Represents.ensureCapacity_room (repr : r.Represents l) (allocated : Bool) (room : l.length < r.capacity) :
    r.ensureCapacity allocated 1 = some (.kOk, r) := by
  have small := repr.small
  exact repr.window.ensureCapacity_room allocated room (by omega)

theorem Represents.ensureCapacity_grown (repr : r.Represents l) (full : ¬ l.length < r.capacity)
    (bound : l.length + 1 + r.capacity * kExpandFactor ≤ 2 ^ 31) :
    ∃ r', r.ensureCapacity true 1 = some (.kOk, r') ∧ r'.Represents l ∧ r'.capacity = r.capacity * kExpandFactor := by
  obtain ⟨entries, back, ensured, window, capacity⟩ := repr.window.ensureCapacity_grown full bound
  refine ⟨_, ensured, repr.of_window window repr.front.symm rfl rfl rfl repr.indexed ?_, capacity⟩
  change l.length + entries.capacity ≤ 2 ^ 31
  omega

theorem Represents.appendEntryHelper_room (repr : r.Represents l) (room : l.length < r.capacity)
    (small : l.length + 1 + r.capacity ≤ 2 ^ 31) {entry : LogEntry} (place : entry.index = l.length + 1)
    {start : LogRing} (ensured : start.ensureCapacity allocated 1 = some (.kOk, r)) :
    ∃ r', start.appendEntryHelper allocated entry = some (.kOk, r') ∧ r'.Represents (l ++ [entry]) := by
  have sum : r.entries.slot r.front (l.length + 1) + r.capacity ≤ 2 ^ 31 := by
    have slot_le : r.entries.slot r.front (l.length + 1) ≤ l.length + 1 := by
      unfold RingBuffer.slot
      rw [repr.front, Nat.zero_add]
      exact Nat.mod_le _ _
    omega
  refine ⟨r.stored entry, repr.window.appendEntryHelper_room room sum entry ensured, ?_⟩
  refine repr.of_window (repr.window.push room sum entry) rfl rfl rfl rfl (repr.indexed.appendLogEntry place) ?_
  rw [List.length_append]
  exact small

theorem Represents.appendEntryHelper_eq (repr : r.Represents l) (room : r.HasRoom allocated)
    {entry : LogEntry} (place : entry.index = l.length + 1) :
    (∃ r', r.appendEntryHelper allocated entry = some (.kOk, r') ∧ r'.Represents (l ++ [entry])) ∨
    r.appendEntryHelper allocated entry = some (.kMemAllocateFail, r) := by
  unfold HasRoom at room
  rw [repr.count] at room
  split at room
  · rename_i free
    exact Or.inl (repr.appendEntryHelper_room free room place (repr.ensureCapacity_room allocated free))
  · rename_i full
    cases allocated with
    | true =>
      obtain ⟨grown, ensured, repr', capacity⟩ := repr.ensureCapacity_grown full (room.2 rfl)
      have fits : l.length ≤ r.capacity := repr.holds.fits
      have positive := repr.positive
      refine Or.inl (repr'.appendEntryHelper_room ?_ ?_ place ensured)
      · rw [capacity, kExpandFactor]
        omega
      · rw [capacity]
        exact room.2 rfl
    | false =>
      right
      unfold appendEntryHelper
      rw [repr.window.ensureCapacity_full false full room.1]
      rfl

theorem Represents.overWriteLogEntry_eq (repr : r.Represents l) {entry : LogEntry} {idx : Nat} (place : entry.index = idx) :
    ∃ stat r', r.overWriteLogEntry entry idx = some (stat, r') ∧
      r'.Represents (if idx = 0 then l else l.set (idx - 1) entry) := by
  unfold overWriteLogEntry
  by_cases outside : idx < 1 ∨ l.length < idx
  · refine ⟨.kIndexBeyondRange, r, ?_, ?_⟩
    · rw [repr.beyondRange_outside outside]
      rfl
    · split
      · exact repr
      · rw [List.set_eq_of_length_le (by omega)]
        exact repr
  · obtain ⟨j, rfl⟩ : ∃ j, idx = j + 1 := ⟨idx - 1, by omega⟩
    have bound : j < l.length := by omega
    have written : LogRing.Represents { r with entries := r.entries.write (r.entries.slot r.front j) entry } (l.set j entry) := {
      positive := repr.positive
      front := repr.front
      holds := repr.holds.set bound entry
      back := by
        rw [List.length_set]
        exact repr.back
      count := by
        rw [List.length_set]
        exact repr.count
      base := repr.base
      lastSnapshotIndex := repr.lastSnapshotIndex
      lastSnapshotTerm := repr.lastSnapshotTerm
      indexed := by
        have indexed := repr.indexed.overWriteLogEntry (Nat.le_add_left 1 j) bound place
        unfold LogManager.Indexed at indexed
        rw [repr.indexed.overWriteLogEntry_entries bound] at indexed
        exact indexed
      small := by
        rw [List.length_set]
        exact repr.small }
    refine ⟨.kOk, _, ?_, written⟩
    rw [repr.beyondRange_succ bound, repr.raftIndexToArrayIndex_eq bound]
    rfl

theorem Represents.deleteLogEntriesFrom_eq (repr : r.Represents l) (idx : Nat) :
    ∃ stat r', r.deleteLogEntriesFrom idx = some (stat, r') ∧
      r'.Represents (if idx = 0 then l else l.take (idx - 1)) := by
  by_cases outside : idx < 1 ∨ l.length < idx
  · refine ⟨.kIndexBeyondRange, r, ?_, ?_⟩
    · unfold deleteLogEntriesFrom
      rw [repr.beyondRange_outside outside]
      rfl
    · split
      · exact repr
      · rw [List.take_of_length_le (by omega)]
        exact repr
  · obtain ⟨j, rfl⟩ : ∃ j, idx = j + 1 := ⟨idx - 1, by omega⟩
    have bound : j < l.length := by omega
    have place : j + 1 = r.base + j := by
      rw [repr.base]
      omega
    have inside := repr.beyondRange_succ bound
    have last : r.lastLogEntryIndex = some (r.base + (l.length - 1)) := by
      rw [repr.lastLogEntryIndex_eq, repr.base]
      congr 1
      omega
    rw [place] at inside ⊢
    obtain ⟨entries, back, deleted, window, capacity, -⟩ := repr.window.deleteLogEntriesFrom_eq bound inside last
    refine ⟨.kOk, _, deleted, ?_⟩
    rw [← place, if_neg (Nat.succ_ne_zero j)]
    refine repr.of_window window rfl rfl rfl rfl (repr.indexed.take j) ?_
    change (l.take j).length + entries.capacity ≤ 2 ^ 31
    have small := repr.small
    rw [List.length_take_of_le bound.le]
    omega

end Operations

/-- The answers of a plain list whose first entry has index 1. -/
structure AnswersAs (r : LogRing) (l : List LogEntry) : Prop where
  getSingleLogEntry : ∀ idx, r.getSingleLogEntry idx = some (if idx = 0 then none else l[idx - 1]?)
  getEntryObject : ∀ idx ent, r.getEntryObject idx ent = some (if idx = 0 then (.kIndexBeyondRange, ent) else
    (l[idx - 1]?.map (Status.kOk, ·)).getD (.kIndexBeyondRange, ent))
  getLogEntriesFrom : ∀ idx, r.getLogEntriesFrom idx = some (if l.length = 0 ∨ l.length < idx then (.kIndexBeyondRange, [])
    else if idx = 0 then (.kNeedSnapshot, []) else (.kOk, l.drop (idx - 1)))
  termAt : ∀ idx, r.termAt idx = some (if idx = 0 then 0 else (l[idx - 1]?.map LogEntry.term).getD kNoTerm)
  lastLogEntryIndex : r.lastLogEntryIndex = some l.length
  lastLogEntryTerm : r.lastLogEntryTerm = some ((l.getLast?.map LogEntry.term).getD 0)

theorem Represents.answersAs {r : LogRing} {l : List LogEntry} (repr : r.Represents l) : r.AnswersAs l where
  getSingleLogEntry := repr.getSingleLogEntry_eq
  getEntryObject := repr.getEntryObject_eq
  getLogEntriesFrom := repr.getLogEntriesFrom_eq
  termAt := repr.termAt_eq
  lastLogEntryIndex := repr.lastLogEntryIndex_eq
  lastLogEntryTerm := by
    rw [repr.lastLogEntryTerm_eq]
    unfold LogManager.lastLogEntryTerm
    cases l.getLast? with
    | none => rfl
    | some e => rfl

end LogRing

/-- The operations that change the log. `allocated` tells whether there is memory for a growth. -/
inductive LogOp
  | appendLogEntry (allocated : Bool) (entry : LogEntry)
  | appendLogEntryAtomic (allocated : Bool) (entry : LogEntry)
  | overWriteLogEntry (entry : LogEntry) (idx : Nat)
  | deleteLogEntriesFrom (idx : Nat)

namespace LogOp

def onRing (r : LogRing) : LogOp → Option (Status × LogRing)
  | appendLogEntry allocated entry => r.appendLogEntry allocated entry
  | appendLogEntryAtomic allocated entry => (r.appendLogEntryAtomic allocated entry).map Prod.snd
  | overWriteLogEntry entry idx => r.overWriteLogEntry entry idx
  | deleteLogEntriesFrom idx => r.deleteLogEntriesFrom idx

/-- The same operation on a plain list. A list always has memory, so an append only happens if it did on the ring. -/
def onList (stat : Status) (l : List LogEntry) : LogOp → List LogEntry
  | appendLogEntry _ entry => if stat = .kMemAllocateFail then l else l ++ [entry]
  | appendLogEntryAtomic _ entry => if stat = .kMemAllocateFail then l else l ++ [{ entry with index := l.length + 1 }]
  | overWriteLogEntry entry idx => if idx = 0 then l else l.set (idx - 1) entry
  | deleteLogEntriesFrom idx => if idx = 0 then l else l.take (idx - 1)

/-- One operation on a ring and on the list beside it. -/
def step (s : LogRing × List LogEntry) (op : LogOp) : Option (LogRing × List LogEntry) :=
  (op.onRing s.1).map fun result => (result.2, op.onList result.1 s.2)

/-- The indices are those an append or an overwrite has to have, and an append has room. -/
def Admissible (s : LogRing × List LogEntry) : LogOp → Prop
  | appendLogEntry allocated entry => entry.index = s.2.length + 1 ∧ s.1.HasRoom allocated
  | appendLogEntryAtomic allocated _ => s.1.HasRoom allocated
  | overWriteLogEntry entry idx => entry.index = idx
  | deleteLogEntriesFrom _ => True

instance (s : LogRing × List LogEntry) (op : LogOp) : Decidable (op.Admissible s) :=
  match op with
  | appendLogEntry allocated entry => inferInstanceAs (Decidable (entry.index = s.2.length + 1 ∧ s.1.HasRoom allocated))
  | appendLogEntryAtomic allocated _ => inferInstanceAs (Decidable (s.1.HasRoom allocated))
  | overWriteLogEntry entry idx => inferInstanceAs (Decidable (entry.index = idx))
  | deleteLogEntriesFrom _ => inferInstanceAs (Decidable True)

variable {r : LogRing} {l : List LogEntry} {op : LogOp}

theorem step_append (repr : r.Represents l) {allocated : Bool} (room : r.HasRoom allocated) {entry : LogEntry}
    (place : entry.index = l.length + 1) :
    ∃ stat r', r.appendEntryHelper allocated entry = some (stat, r') ∧
      r'.Represents (if stat = .kMemAllocateFail then l else l ++ [entry]) := by
  rcases repr.appendEntryHelper_eq room place with ⟨r', stored, repr'⟩ | failed
  · exact ⟨.kOk, r', stored, repr'⟩
  · exact ⟨.kMemAllocateFail, r, failed, repr⟩

theorem appendLogEntryAtomic_eq (repr : r.Represents l) (allocated : Bool) (entry : LogEntry) :
    (r.appendLogEntryAtomic allocated entry).map Prod.snd =
      r.appendEntryHelper allocated { entry with index := l.length + 1 } := by
  have small := repr.small
  unfold LogRing.appendLogEntryAtomic
  rw [repr.lastLogEntryIndex_eq]
  simp only [Option.bind_eq_bind, Option.bind_some]
  rw [Nat.mod_eq_of_lt (by omega)]
  cases r.appendEntryHelper allocated { entry with index := l.length + 1 } with
  | none => rfl
  | some result => rfl

/-- An admissible operation does the same on both. -/
theorem step_represents (repr : r.Represents l) (admissible : op.Admissible (r, l)) :
    ∃ stat r', op.onRing r = some (stat, r') ∧ r'.Represents (op.onList stat l) := by
  cases op with
  | appendLogEntry allocated entry => exact step_append repr admissible.2 admissible.1
  | appendLogEntryAtomic allocated entry =>
    have place : ({ entry with index := l.length + 1 } : LogEntry).index = l.length + 1 := rfl
    obtain ⟨stat, r', stored, repr'⟩ := step_append repr admissible place
    exact ⟨stat, r', (appendLogEntryAtomic_eq repr allocated entry).trans stored, repr'⟩
  | overWriteLogEntry entry idx =>
    obtain ⟨stat, r', written, repr'⟩ := repr.overWriteLogEntry_eq admissible
    exact ⟨stat, r', written, repr'⟩
  | deleteLogEntriesFrom idx =>
    obtain ⟨stat, r', deleted, repr'⟩ := repr.deleteLogEntriesFrom_eq idx
    exact ⟨stat, r', deleted, repr'⟩

theorem reach_represents {initialCap : Nat} (positive : 1 ≤ initialCap) (bound : initialCap < 2 ^ 31)
    (deleter : LogEntry → LogEntry) {s : LogRing × List LogEntry}
    (run : Steps.Reach step (fun s op => op.Admissible s) (.create initialCap deleter, []) s) : s.1.Represents s.2 := by
  refine run.holds (P := fun s => s.1.Represents s.2) (LogRing.create_represents positive bound deleter) ?_
  intro before op after repr admissible stepped
  obtain ⟨stat, r', performed, repr'⟩ := step_represents repr admissible
  unfold step at stepped
  rw [performed, Option.map_some] at stepped
  cases stepped
  exact repr'

/-- Two appends with a growth between them, an overwrite, a deletion and another append. -/
def grownRun : Option (LogRing × List LogEntry) :=
  Steps.exec step (fun s op => op.Admissible s) (.create 1 (fun _ => {}), [])
    [appendLogEntry true { term := 1, index := 1 }, appendLogEntryAtomic true { term := 1 },
      overWriteLogEntry { term := 2, index := 1 } 1, deleteLogEntriesFrom 2, appendLogEntry true { term := 3, index := 2 }]

theorem grownRun_isSome : grownRun.isSome := by decide +kernel

/-- The operation on the log of a server as `RaftState` sees it. -/
def onLogManager (lm : LogManager) : LogOp → LogManager
  | appendLogEntry _ entry => lm.appendLogEntry entry
  | appendLogEntryAtomic _ entry => (lm.appendLogEntryAtomic entry).1
  | overWriteLogEntry entry idx => lm.overWriteLogEntry entry idx
  | deleteLogEntriesFrom idx => lm.deleteLogEntriesFrom idx

theorem onLogManager_entries {lm : LogManager} (indexed : lm.Indexed) (op : LogOp) :
    (op.onLogManager lm).entries = op.onList .kOk lm.entries := by
  cases op with
  | appendLogEntry allocated entry => rfl
  | appendLogEntryAtomic allocated entry =>
    change lm.entries ++ [{ entry with index := lm.lastLogEntryIndex + 1 }] = _
    rw [indexed.lastLogEntryIndex_eq]
    rfl
  | overWriteLogEntry entry idx =>
    change (lm.overWriteLogEntry entry idx).entries = if idx = 0 then lm.entries else lm.entries.set (idx - 1) entry
    by_cases outside : idx < 1 ∨ lm.entries.length < idx
    · unfold LogManager.overWriteLogEntry
      rw [indexed.lastLogEntryIndex_eq, if_pos outside]
      split
      · rfl
      · rw [List.set_eq_of_length_le (by omega)]
    · rw [if_neg (by omega), indexed.overWriteLogEntry_at (by omega) (by omega)]
  | deleteLogEntriesFrom idx =>
    change (lm.deleteLogEntriesFrom idx).entries = if idx = 0 then lm.entries else lm.entries.take (idx - 1)
    by_cases outside : idx < 1 ∨ lm.entries.length < idx
    · unfold LogManager.deleteLogEntriesFrom
      rw [indexed.lastLogEntryIndex_eq, if_pos outside]
      split
      · rfl
      · rw [List.take_of_length_le (by omega)]
    · rw [if_neg (by omega), indexed.deleteLogEntriesFrom_entries (by omega) (by omega)]

theorem onList_of_ne {stat : Status} (succeeded : stat ≠ .kMemAllocateFail) (l : List LogEntry) (op : LogOp) :
    op.onList stat l = op.onList .kOk l := by
  cases op with
  | appendLogEntry allocated entry => exact if_neg succeeded
  | appendLogEntryAtomic allocated entry => exact if_neg succeeded
  | overWriteLogEntry entry idx => rfl
  | deleteLogEntriesFrom idx => rfl

/-- The log of a server is refined by the ring: an operation that succeeds on the ring does the same on the log. -/
theorem onRing_refines {lm : LogManager} (repr : r.Represents lm.entries)
    (admissible : op.Admissible (r, lm.entries)) :
    ∃ stat r', op.onRing r = some (stat, r') ∧
      (stat ≠ .kMemAllocateFail → r'.Represents (op.onLogManager lm).entries) := by
  obtain ⟨stat, r', performed, repr'⟩ := step_represents repr admissible
  refine ⟨stat, r', performed, ?_⟩
  intro succeeded
  rw [onLogManager_entries repr.indexed, ← onList_of_ne succeeded]
  exact repr'

end LogOp

end FlexRaft
