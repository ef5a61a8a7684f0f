import FlexRaft.RaftType

namespace FlexRaft

/-- The log of a server as the list its ring buffer holds. `RaftState` never discards
a prefix: `base_` stays 1 and the snapshot index and term stay 0. -/
structure LogManager where
  entries : List LogEntry := []
  deriving DecidableEq, Repr

namespace LogManager

def lastSnapshotIndex (_ : LogManager) : Nat := 0

def lastSnapshotTerm (_ : LogManager) : Nat := 0

/-- The index stored in the last entry, not the number of entries. -/
def lastLogEntryIndex (lm : LogManager) : Nat :=
  match lm.entries.getLast? with
  | none => lm.lastSnapshotIndex
  | some e => e.index

def lastLogEntryTerm (lm : LogManager) : Nat :=
  match lm.entries.getLast? with
  | none => lm.lastSnapshotTerm
  | some e => e.term

def getSingleLogEntry (lm : LogManager) (idx : Nat) : Option LogEntry :=
  if idx < 1 ∨ lm.lastLogEntryIndex < idx then none else lm.entries[idx - 1]?

def termAt (lm : LogManager) (idx : Nat) : Nat :=
  if lm.lastLogEntryIndex < idx then kNoTerm
  else if idx = lm.lastSnapshotIndex then lm.lastSnapshotTerm
  else match lm.entries[idx - 1]? with
    | none => kNoTerm
    | some e => e.term

def appendLogEntry (lm : LogManager) (entry : LogEntry) : LogManager :=
  { lm with entries := lm.entries ++ [entry] }

/-- Allocates the next index and appends in one step. -/
def appendLogEntryAtomic (lm : LogManager) (entry : LogEntry) : LogManager × Nat :=
  let allocated := lm.lastLogEntryIndex + 1
  (lm.appendLogEntry { entry with index := allocated }, allocated)

def overWriteLogEntry (lm : LogManager) (entry : LogEntry) (idx : Nat) : LogManager :=
  if idx < 1 ∨ lm.lastLogEntryIndex < idx then lm
  else { lm with entries := lm.entries.set (idx - 1) entry }

def deleteLogEntriesFrom (lm : LogManager) (idx : Nat) : LogManager :=
  if idx < 1 ∨ lm.lastLogEntryIndex < idx then lm
  else { lm with entries := lm.entries.take (lm.entries.length - (lm.lastLogEntryIndex - idx + 1)) }

/-- Every entry stands at the place its index names. -/
def Indexed (lm : LogManager) : Prop := ∀ j e, lm.entries[j]? = some e → e.index = j + 1

theorem indexed_nil : Indexed {} := by
  intro j e at_j
  simp at at_j

@[simp] theorem getSingleLogEntry_zero (lm : LogManager) : lm.getSingleLogEntry 0 = none := by
  simp [getSingleLogEntry]

section Indexed

variable {lm : LogManager} {e : LogEntry} {j raftIndex : Nat}

theorem Indexed.lastLogEntryIndex_eq (indexed : lm.Indexed) : lm.lastLogEntryIndex = lm.entries.length := by
  unfold lastLogEntryIndex
  rw [List.getLast?_eq_getElem?]
  cases last : lm.entries[lm.entries.length - 1]? with
  | none =>
    have short := List.getElem?_eq_none_iff.mp last
    simp only [lastSnapshotIndex]
    omega
  | some e =>
    have place := indexed _ _ last
    have bound := (List.getElem?_eq_some_iff.mp last).1
    simp only [place]
    omega

theorem Indexed.getSingleLogEntry_succ (indexed : lm.Indexed) (j : Nat) :
    lm.getSingleLogEntry (j + 1) = lm.entries[j]? := by
  unfold getSingleLogEntry
  rw [indexed.lastLogEntryIndex_eq]
  split
  · rename_i outside
    exact (List.getElem?_eq_none (by omega)).symm
  · rfl

theorem Indexed.getSingleLogEntry_eq_some (indexed : lm.Indexed) {i : Nat} :
    lm.getSingleLogEntry i = some e ↔ 1 ≤ i ∧ lm.entries[i - 1]? = some e := by
  cases i with
  | zero => simp
  | succ j => simp [indexed.getSingleLogEntry_succ]

theorem Indexed.termAt_succ (indexed : lm.Indexed) (at_j : lm.entries[j]? = some e) : lm.termAt (j + 1) = e.term := by
  have bound := (List.getElem?_eq_some_iff.mp at_j).1
  unfold termAt
  rw [indexed.lastLogEntryIndex_eq, if_neg (by omega), if_neg (by simp [lastSnapshotIndex])]
  simp [at_j]

theorem appendLogEntry_getElem? {f : LogEntry} (at_j : (lm.appendLogEntry e).entries[j]? = some f) :
    lm.entries[j]? = some f ∨ f = e ∧ j = lm.entries.length := by
  simp only [LogManager.appendLogEntry, List.getElem?_append] at at_j
  split at at_j
  · exact Or.inl at_j
  · obtain ⟨bound, value⟩ := List.getElem?_eq_some_iff.mp at_j
    simp only [List.length_singleton] at bound
    have zero : j - lm.entries.length = 0 := by omega
    exact Or.inr ⟨by simpa [zero] using value.symm, by omega⟩

theorem Indexed.appendLogEntry (indexed : lm.Indexed) (place : e.index = lm.entries.length + 1) :
    (lm.appendLogEntry e).Indexed := by
  intro j f at_j
  rcases appendLogEntry_getElem? at_j with old | ⟨rfl, rfl⟩
  · exact indexed j f old
  · exact place

theorem lastLogEntryIndex_appendLogEntry (lm : LogManager) (e : LogEntry) :
    (lm.appendLogEntry e).lastLogEntryIndex = e.index := by
  unfold lastLogEntryIndex LogManager.appendLogEntry
  rw [List.getLast?_append_of_ne_nil _ (List.cons_ne_nil e [])]
  rfl

theorem Indexed.getSingleLogEntry_new (indexed : lm.Indexed) (place : e.index = lm.lastLogEntryIndex + 1) :
    (lm.appendLogEntry e).getSingleLogEntry (lm.lastLogEntryIndex + 1) = some e := by
  have last := indexed.lastLogEntryIndex_eq
  rw [(indexed.appendLogEntry (place.trans (congrArg (· + 1) last))).getSingleLogEntry_succ, last]
  exact List.getElem?_concat_length

theorem Indexed.overWriteLogEntry_entries (indexed : lm.Indexed)
    (bound : j < lm.entries.length) : (lm.overWriteLogEntry e (j + 1)).entries = lm.entries.set j e := by
  unfold overWriteLogEntry
  rw [indexed.lastLogEntryIndex_eq, if_neg (by omega)]
  rfl

theorem Indexed.overWriteLogEntry_at (indexed : lm.Indexed)
    (positive : 1 ≤ raftIndex) (inside : raftIndex ≤ lm.entries.length) :
    (lm.overWriteLogEntry e raftIndex).entries = lm.entries.set (raftIndex - 1) e := by
  obtain ⟨n, rfl⟩ : ∃ n, raftIndex = n + 1 := ⟨raftIndex - 1, by omega⟩
  exact indexed.overWriteLogEntry_entries inside

theorem Indexed.overWriteLogEntry (indexed : lm.Indexed)
    (positive : 1 ≤ raftIndex) (inside : raftIndex ≤ lm.entries.length) (place : e.index = raftIndex) :
    (lm.overWriteLogEntry e raftIndex).Indexed := by
  intro j f at_j
  rw [indexed.overWriteLogEntry_at positive inside, List.getElem?_set] at at_j
  split at at_j
  · rw [if_pos (by omega)] at at_j
    cases at_j
    omega
  · exact indexed j f at_j

theorem Indexed.deleteLogEntriesFrom_entries (indexed : lm.Indexed)
    (positive : 1 ≤ raftIndex) (bound : raftIndex ≤ lm.entries.length) :
    (lm.deleteLogEntriesFrom raftIndex).entries = lm.entries.take (raftIndex - 1) := by
  unfold LogManager.deleteLogEntriesFrom
  rw [indexed.lastLogEntryIndex_eq, if_neg (by omega)]
  dsimp only
  congr 1
  omega

theorem Indexed.take (indexed : lm.Indexed) (n : Nat) : Indexed { entries := lm.entries.take n } := by
  intro j e at_j
  rw [List.getElem?_take] at at_j
  split at at_j
  · exact indexed j e at_j
  · cases at_j

end Indexed

end LogManager

end FlexRaft
