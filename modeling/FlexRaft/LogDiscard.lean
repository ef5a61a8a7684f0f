import FlexRaft.LogRingAnswers

namespace FlexRaft

namespace LogRing

/-- The third component are the indices for which `lrc_cache_cleanup_cb_` is called. `discard_cnt` is negative if the
last index is below the base, and then nothing is deleted and the count grows. -/
def discardLogEntriesBefore (r : LogRing) (idx : Nat) : Option (Status × LogRing × List Nat) := do
  if r.count = 0 ∨ idx < r.base then return (.kOk, r, [])
  let dest := min (← r.lastLogEntryIndex) idx
  let discardCnt := dest - r.base
  let (entries, startIdx) := r.entries.modify r.deleter discardCnt r.front
  -- `old_base` is read after `base_` was set
  let cleaned := (List.range discardCnt).map (dest + ·)
  return (.kOk, { r with entries, base := dest, front := startIdx, count := r.count + r.base - dest }, cleaned)

/-- The index is in the range of the base and the count. -/
def Held (r : LogRing) (i : Nat) : Prop := r.base ≤ i ∧ i < r.base + r.count

instance (r : LogRing) (i : Nat) : Decidable (r.Held i) := inferInstanceAs (Decidable (_ ∧ _))

/-- The callback is run once for each index that is discarded, and for no other, just if none is. If some are, it is run
for as many from the new base on. -/
theorem cleanup_matches_iff {r r' : LogRing} {idx : Nat} {stat : Status} {cleaned : List Nat}
    (performed : r.discardLogEntriesBefore idx = some (stat, r', cleaned)) :
    (∀ i, cleaned.count i = if r.Held i ∧ ¬ r'.Held i then 1 else 0) ↔
      r.count = 0 ∨ ∀ last, r.lastLogEntryIndex = some last → min last idx ≤ r.base := by
  unfold discardLogEntriesBefore at performed
  split at performed
  · rename_i idle
    cases performed
    have unchanged : ∀ i, List.count i [] = if r.Held i ∧ ¬ r.Held i then 1 else 0 := fun i => by simp
    refine iff_of_true unchanged (idle.imp_right fun below last _ => ?_)
    omega
  · rename_i busy
    obtain ⟨last, found, result⟩ := Option.bind_eq_some_iff.mp performed
    cases result
    rw [found]
    by_cases kept : min last idx ≤ r.base
    · have none : min last idx - r.base = 0 := Nat.sub_eq_zero_of_le kept
      refine iff_of_true (fun i => ?_) (Or.inr fun other same => Option.some.inj same ▸ kept)
      rw [none, if_neg]
      · rfl
      · rintro ⟨⟨lower, upper⟩, gone⟩
        exact gone ⟨kept.trans lower, by dsimp only; omega⟩
    · refine iff_of_false (fun exact => ?_) fun idle => idle.elim (busy ∘ Or.inl) fun all => kept (all last rfl)
      -- the new base itself is either still held or was not held before
      have base := exact (min last idx)
      rw [if_neg, List.count_eq_zero] at base
      · exact base (List.mem_map.mpr ⟨0, List.mem_range.mpr (by omega), rfl⟩)
      · rintro ⟨⟨-, upper⟩, gone⟩
        exact gone ⟨le_rfl, by dsimp only; omega⟩

def appended : Nat → Option LogRing
  | 0 => some (create 4 fun e => e)
  | n + 1 => (appended n).bind fun r => (r.appendLogEntryAtomic true {}).map fun result => result.2.2

theorem appended_isSome : (appended 3).isSome := by decide +kernel

/-- A log with the indices 1, 2 and 3. -/
def threeEntries : LogRing := (appended 3).get appended_isSome

theorem threeEntries_discard (idx : Nat) : (threeEntries.discardLogEntriesBefore idx).isSome := by
  have last : threeEntries.lastLogEntryIndex = some 3 := by decide +kernel
  unfold discardLogEntriesBefore
  split
  · rfl
  · rw [last]
    rfl

theorem cleanup_matches_iff_nothing_discarded : threeEntries.count = 3 ∧
    ∀ i, ((threeEntries.discardLogEntriesBefore 1).get (threeEntries_discard 1)).2.2.count i =
      if threeEntries.Held i ∧ ¬ ((threeEntries.discardLogEntriesBefore 1).get (threeEntries_discard 1)).2.1.Held i
      then 1 else 0 := by
  refine ⟨by decide +kernel, (cleanup_matches_iff (Option.some_get (threeEntries_discard 1)).symm).mpr ?_⟩
  exact Or.inr fun last _ => Nat.min_le_right last 1

/-- The entries 1 and 2 are discarded, and the callback is run for 3 and 4. -/
theorem cleanup_misses_discarded : (threeEntries.Held 1 ∧ threeEntries.Held 2) ∧
    (¬ ((threeEntries.discardLogEntriesBefore 3).get (threeEntries_discard 3)).2.1.Held 1 ∧
      ¬ ((threeEntries.discardLogEntriesBefore 3).get (threeEntries_discard 3)).2.1.Held 2) ∧
    ((threeEntries.discardLogEntriesBefore 3).get (threeEntries_discard 3)).2.2 = [3, 4] := by decide +kernel

theorem Window.discard {r : LogRing} {held : List LogEntry} (window : r.Window held) {n : Nat} (inside : n ≤ held.length)
    (small : r.capacity ≤ 2 ^ 30) (base : Nat) :
    Window { r with
      entries := (r.entries.modify r.deleter n r.front).1
      base
      front := r.entries.slot r.front n
      count := r.count - n } (held.drop n) := by
  have positive := window.positive
  have width : (r.entries.modify r.deleter n r.front).1.capacity = r.capacity := r.entries.modify_capacity _ _ _
  have slots (j : Nat) : (r.entries.modify r.deleter n r.front).1.slot (r.entries.slot r.front n) j =
      r.entries.slot r.front (n + j) := by
    rw [← r.entries.slot_slot r.front n j]
    unfold RingBuffer.slot
    rw [width]
    rfl
  exact {
    positive := by
      change 0 < (r.entries.modify r.deleter n r.front).1.capacity
      rw [width]
      exact positive
    front := by
      change _ < (r.entries.modify r.deleter n r.front).1.capacity
      rw [width]
      exact Nat.mod_lt _ positive
    holds := window.holds.modify r.deleter inside window.front
    back := by
      change r.back = (r.entries.modify r.deleter n r.front).1.slot (r.entries.slot r.front n) (held.drop n).length
      rw [slots, window.back, List.length_drop, Nat.add_sub_cancel' inside]
    count := by
      change r.count - n = (held.drop n).length
      rw [window.count, List.length_drop]
    small := by
      intro j _
      change (r.entries.modify r.deleter n r.front).1.slot (r.entries.slot r.front n) j +
        (r.entries.modify r.deleter n r.front).1.capacity ≤ 2 ^ 31
      have slot_lt : r.entries.slot r.front (n + j) < r.capacity := Nat.mod_lt _ positive
      rw [slots, width]
      omega }

end LogRing

/-- The operations on a log whose beginning may be discarded. -/
inductive CompactOp
  | change (op : LogOp)
  | discardLogEntriesBefore (idx : Nat)

namespace CompactOp

open LogRing

/-- Beside the ring stands the entry that was discarded last. -/
def step (s : LogRing × Option LogEntry) : CompactOp → Option (LogRing × Option LogEntry)
  | change op => (op.onRing s.1).map fun result => (result.2, s.2)
  | discardLogEntriesBefore idx => (s.1.discardLogEntriesBefore idx).map fun result =>
      (result.2.1, (s.1.entries.fetch (result.2.1.base - s.1.base) s.1.front).getLast?.or s.2)

/-- What a log from which a beginning was discarded should keep. -/
structure WellFormed (s : LogRing × Option LogEntry) : Prop where
  last : ∃ last, s.1.lastLogEntryIndex = some last ∧ s.1.base - 1 ≤ last ∧ last + 1 = s.1.base + s.1.count
  contiguous : (s.1.entries.fetch s.1.count s.1.front).map LogEntry.index = List.range' s.1.base s.1.count
  termAt : ∀ e, s.2 = some e → s.1.termAt (s.1.base - 1) = some e.term

/-- There is an index for one more entry and a slot. Once entries were discarded, the slot before the front is not
used either and the ring does not grow. -/
def HasSlot (r : LogRing) : Prop :=
  r.base + r.count < 2 ^ 32 ∧
  (r.count + 1 < r.capacity ∨ r.base = 1 ∧ (r.count < r.capacity ∨ r.capacity * kExpandFactor ≤ 2 ^ 30))

/-- Nothing disturbs the slot before the front: appends leave it free, a deletion does not empty a log that has lost
its beginning, and a discard does not end at the first slot of the array unless the capacity divides `2 ^ 32`. -/
def Orderly (r : LogRing) : CompactOp → Prop
  | change (.appendLogEntry _ entry) => entry.index = r.base + r.count ∧ HasSlot r
  | change (.appendLogEntryAtomic _ _) => HasSlot r
  | change (.overWriteLogEntry entry idx) => entry.index = idx
  | change (.deleteLogEntriesFrom idx) => 1 < r.base → idx ≠ r.base
  | discardLogEntriesBefore idx => r.base < min (r.base + r.count - 1) idx →
      (r.front + (min (r.base + r.count - 1) idx - r.base)) % r.capacity ≠ 0 ∨ r.capacity ∣ 2 ^ 32

instance decidableHasSlot (r : LogRing) : Decidable (HasSlot r) :=
  inferInstanceAs (Decidable (r.base + r.count < 2 ^ 32 ∧
    (r.count + 1 < r.capacity ∨ r.base = 1 ∧ (r.count < r.capacity ∨ r.capacity * kExpandFactor ≤ 2 ^ 30))))

instance decidableOrderly (r : LogRing) (op : CompactOp) : Decidable (op.Orderly r) :=
  match op with
  | change (.appendLogEntry _ entry) => inferInstanceAs (Decidable (entry.index = r.base + r.count ∧ HasSlot r))
  | change (.appendLogEntryAtomic _ _) => inferInstanceAs (Decidable (HasSlot r))
  | change (.overWriteLogEntry entry idx) => inferInstanceAs (Decidable (entry.index = idx))
  | change (.deleteLogEntriesFrom idx) => inferInstanceAs (Decidable (1 < r.base → idx ≠ r.base))
  | discardLogEntriesBefore idx => inferInstanceAs (Decidable (r.base < min (r.base + r.count - 1) idx →
      (r.front + (min (r.base + r.count - 1) idx - r.base)) % r.capacity ≠ 0 ∨ r.capacity ∣ 2 ^ 32))

/-- The ring holds the list `l` from its base on, and the slot before the front still has the term of the entry
before the base. -/
structure Compacted (r : LogRing) (l : List LogEntry) : Prop where
  window : r.Window (l.drop (r.base - 1))
  base : 1 ≤ r.base
  nonempty : 1 < r.base → r.base ≤ l.length
  free : 1 < r.base → r.count < r.capacity
  lastSnapshotIndex : r.lastSnapshotIndex = 0
  lastSnapshotTerm : r.lastSnapshotTerm = 0
  indexed : LogManager.Indexed { entries := l }
  capacity : r.capacity ≤ 2 ^ 30
  length : l.length < 2 ^ 32
  deleter : ∀ e, (r.deleter e).term = e.term
  slot : 1 < r.base → r.raftIndexToArrayIndex (r.base - 1) = r.entries.previous r.front
  before : 1 < r.base → ∀ e, l[r.base - 2]? = some e → (r.entries.array (r.entries.previous r.front)).term = e.term

section Compacted

variable {r : LogRing} {l : List LogEntry} {entries : RingBuffer LogEntry} {back idx : Nat}

theorem create_compacted {initialCap : Nat} (positive : 1 ≤ initialCap) (bound : initialCap ≤ 2 ^ 30)
    {deleter : LogEntry → LogEntry} (kept : ∀ e, (deleter e).term = e.term) :
    Compacted (create initialCap deleter) [] where
  window := (create_represents positive (bound.trans_lt (by decide)) deleter).window
  base := le_rfl
  nonempty later := absurd later (lt_irrefl 1)
  free later := absurd later (lt_irrefl 1)
  lastSnapshotIndex := rfl
  lastSnapshotTerm := rfl
  indexed := LogManager.indexed_nil
  capacity := bound
  length := by decide
  deleter := kept
  slot later := absurd later (lt_irrefl 1)
  before later := absurd later (lt_irrefl 1)

theorem Compacted.count_eq (compacted : Compacted r l) : r.base + r.count = l.length + 1 := by
  have base := compacted.base
  have nonempty := compacted.nonempty
  rw [compacted.window.count, List.length_drop]
  omega

theorem Compacted.sum_le (compacted : Compacted r l) (j : Nat) : r.entries.slot r.front j + r.capacity ≤ 2 ^ 31 := by
  have slot_lt : r.entries.slot r.front j < r.capacity := Nat.mod_lt _ compacted.window.positive
  have capacity := compacted.capacity
  omega

theorem Compacted.lastLogEntryIndex_eq (compacted : Compacted r l) : r.lastLogEntryIndex = some l.length := by
  have count := compacted.count_eq
  have base := compacted.base
  by_cases empty : r.count = 0
  · have nonempty := compacted.nonempty
    unfold lastLogEntryIndex
    rw [if_pos empty, compacted.lastSnapshotIndex]
    congr 1
    omega
  · have held : l.drop (r.base - 1) ≠ [] := by
      apply List.ne_nil_of_length_pos
      rw [← compacted.window.count]
      omega
    have inside : l.length - 1 < l.length := by omega
    have place := compacted.indexed (l.length - 1) _ (List.getElem?_eq_getElem inside)
    rw [compacted.window.lastLogEntryIndex_of_ne held, List.getLast_drop, List.getLast_eq_getElem, place]
    congr 1
    omega

theorem Compacted.beyondRange_eq (compacted : Compacted r l) (idx : Nat) :
    r.beyondRange idx = some (decide (idx < r.base ∨ l.length < idx)) := by
  have count := compacted.count_eq
  unfold beyondRange
  rw [compacted.lastLogEntryIndex_eq]
  split
  · rw [decide_eq_true]
    omega
  · rw [Option.map_some, decide_eq_decide.mpr]
    omega

theorem Compacted.held_iff (compacted : Compacted r l) (idx : Nat) : r.Held idx ↔ r.beyondRange idx = some false := by
  have count := compacted.count_eq
  rw [compacted.beyondRange_eq, Option.some.injEq, decide_eq_false_iff_not, Held]
  omega

theorem Compacted.contiguous (compacted : Compacted r l) :
    (r.entries.fetch r.count r.front).map LogEntry.index = List.range' r.base r.count := by
  have base := compacted.base
  have number : (l.drop (r.base - 1)).length = r.count := compacted.window.count.symm
  rw [compacted.window.fetch_eq]
  apply List.ext_getElem
  · rw [List.length_map, List.length_range', number]
  · intro j left right
    rw [List.length_map] at left
    have place := compacted.indexed (r.base - 1 + j) ((l.drop (r.base - 1))[j])
      (by rw [← List.getElem?_drop]; exact List.getElem?_eq_getElem left)
    rw [List.getElem_map, List.getElem_range', place]
    omega

theorem Compacted.termAt_before (compacted : Compacted r l) (later : 1 < r.base) {e : LogEntry}
    (last : l[r.base - 2]? = some e) : r.termAt (r.base - 1) = some e.term := by
  have bound := compacted.nonempty later
  have inside : ¬ r.base - 1 < predIndex r.base := by
    unfold predIndex
    rw [if_neg (by omega)]
    exact lt_irrefl _
  unfold termAt
  rw [compacted.lastLogEntryIndex_eq, compacted.lastSnapshotIndex, if_neg inside]
  simp only [Option.bind_eq_bind, Option.bind_some]
  rw [if_neg (by omega), if_neg (by omega), compacted.slot later, compacted.before later e last]
  rfl

theorem Compacted.of_window (compacted : Compacted r l) {count : Nat} {l' : List LogEntry}
    (window : Window { r with entries, back, count } (l'.drop (r.base - 1))) (capacity : entries.capacity = r.capacity)
    (nonempty : 1 < r.base → r.base ≤ l'.length) (free : 1 < r.base → count < r.capacity)
    (indexed : LogManager.Indexed { entries := l' }) (length : l'.length < 2 ^ 32)
    (same : 1 < r.base → l'[r.base - 2]? = l[r.base - 2]?)
    (untouched : 1 < r.base → entries.array (r.entries.previous r.front) = r.entries.array (r.entries.previous r.front)) :
    Compacted { r with entries, back, count } l' := by
  have previous : entries.previous r.front = r.entries.previous r.front := by
    unfold RingBuffer.previous
    rw [capacity]
    rfl
  exact {
    window := window
    base := compacted.base
    nonempty := nonempty
    free := by
      intro later
      change count < entries.capacity
      rw [capacity]
      exact free later
    lastSnapshotIndex := compacted.lastSnapshotIndex
    lastSnapshotTerm := compacted.lastSnapshotTerm
    indexed := indexed
    capacity := by
      change entries.capacity ≤ 2 ^ 30
      rw [capacity]
      exact compacted.capacity
    length := length
    deleter := compacted.deleter
    slot := by
      intro later
      have place := compacted.slot later
      unfold raftIndexToArrayIndex at place ⊢
      change _ % entries.capacity = entries.previous r.front
      rw [capacity, previous]
      exact place
    before := by
      intro later e last
      change (entries.array (entries.previous r.front)).term = e.term
      rw [previous, untouched later]
      rw [same later] at last
      exact compacted.before later e last }

/-- A write to a slot in use, or to the free slot behind them unless it is the last one, leaves the slot before the front. -/
theorem Compacted.write_before (compacted : Compacted r l) {j : Nat} (bound : j + 1 < r.capacity) (entry : LogEntry) :
    (r.entries.write (r.entries.slot r.front j) entry).array (r.entries.previous r.front) =
      r.entries.array (r.entries.previous r.front) := by
  have positive := compacted.window.positive
  rw [r.entries.previous_eq_slot r.front positive]
  exact Function.update_of_ne (r.entries.slot_ne r.front (show j < r.capacity - 1 by omega) (Nat.sub_lt positive Nat.one_pos)).symm _ _

theorem Compacted.stored (compacted : Compacted r l) {entry : LogEntry} (place : entry.index = l.length + 1)
    (number : l.length + 1 < 2 ^ 32) (room : r.count < r.capacity) (free : 1 < r.base → r.count + 1 < r.capacity) :
    Compacted (r.stored entry) (l ++ [entry]) := by
  have base := compacted.base
  have total := compacted.count_eq
  have count := compacted.window.count
  have window := compacted.window.push (count ▸ room) (compacted.sum_le _) entry
  rw [← List.drop_append_of_le_length (by omega)] at window
  have length : (l ++ [entry]).length = l.length + 1 := List.length_append
  refine compacted.of_window window rfl ?_ free (compacted.indexed.appendLogEntry place) (length ▸ number) ?_ ?_
  · intro later
    have nonempty := compacted.nonempty later
    omega
  · intro later
    have nonempty := compacted.nonempty later
    rw [List.getElem?_append_left (by omega)]
  · intro later
    rw [compacted.window.back, ← count]
    exact compacted.write_before (free later) entry

theorem Compacted.grown (compacted : Compacted r l) (start : r.base = 1)
    (window : Window { r with entries, front := 0, back } (l.drop (r.base - 1))) (capacity : entries.capacity ≤ 2 ^ 30) :
    Compacted { r with entries, front := 0, back } l where
  window := window
  base := compacted.base
  nonempty := compacted.nonempty
  free later := absurd start later.ne'
  lastSnapshotIndex := compacted.lastSnapshotIndex
  lastSnapshotTerm := compacted.lastSnapshotTerm
  indexed := compacted.indexed
  capacity := capacity
  length := compacted.length
  deleter := compacted.deleter
  slot later := absurd start later.ne'
  before later := absurd start later.ne'

theorem Compacted.appendEntryHelper_eq (compacted : Compacted r l) (allocated : Bool) (room : HasSlot r) {entry : LogEntry}
    (place : entry.index = l.length + 1) :
    (∃ r', r.appendEntryHelper allocated entry = some (.kOk, r') ∧ r'.base = r.base ∧ Compacted r' (l ++ [entry])) ∨
    r.appendEntryHelper allocated entry = some (.kMemAllocateFail, r) := by
  have total := compacted.count_eq
  have count := compacted.window.count
  have bound := compacted.capacity
  obtain ⟨number, slot⟩ := room
  by_cases free : r.count < r.capacity
  · have ensured := compacted.window.ensureCapacity_room allocated (count ▸ free) (by omega)
    refine Or.inl ⟨_, compacted.window.appendEntryHelper_room (count ▸ free) (compacted.sum_le _) entry ensured, rfl, ?_⟩
    exact compacted.stored place (total ▸ number) free (fun later => by omega)
  · have full : ¬ (l.drop (r.base - 1)).length < r.capacity := count ▸ free
    have fits : (l.drop (r.base - 1)).length ≤ r.capacity := compacted.window.holds.fits
    have growth : r.base = 1 ∧ r.capacity * kExpandFactor ≤ 2 ^ 30 := by omega
    unfold kExpandFactor at growth
    cases allocated with
    | false =>
      right
      unfold appendEntryHelper
      rw [compacted.window.ensureCapacity_full false full (by unfold kExpandFactor; omega)]
      rfl
    | true =>
      obtain ⟨entries, back, ensured, window, capacity⟩ :=
        compacted.window.ensureCapacity_grown full (by unfold kExpandFactor; omega)
      unfold kExpandFactor at capacity
      have positive := compacted.window.positive
      have grown := compacted.grown growth.1 window (by omega)
      have more : (l.drop (r.base - 1)).length < entries.capacity := by omega
      refine Or.inl ⟨_, window.appendEntryHelper_room more (grown.sum_le _) entry ensured, rfl, ?_⟩
      refine grown.stored place (total ▸ number) ?_ (fun later => absurd growth.1 later.ne')
      change r.count < entries.capacity
      omega

theorem Compacted.overWriteLogEntry_eq (compacted : Compacted r l) {entry : LogEntry} (place : entry.index = idx) :
    ∃ stat r' l', r.overWriteLogEntry entry idx = some (stat, r') ∧ r'.base = r.base ∧ Compacted r' l' ∧
      ∀ i < r.base - 1, l'[i]? = l[i]? := by
  have base := compacted.base
  unfold overWriteLogEntry
  rw [compacted.beyondRange_eq]
  by_cases outside : idx < r.base ∨ l.length < idx
  · rw [decide_eq_true outside]
    exact ⟨.kIndexBeyondRange, r, l, rfl, rfl, compacted, fun _ _ => rfl⟩
  · obtain ⟨j, rfl⟩ : ∃ j, idx = r.base + j := ⟨idx - r.base, by omega⟩
    have inside : j < (l.drop (r.base - 1)).length := by
      rw [List.length_drop]
      omega
    have fits : (l.drop (r.base - 1)).length ≤ r.capacity := compacted.window.holds.fits
    have count := compacted.window.count
    have written : Window { r with entries := r.entries.write (r.entries.slot r.front j) entry }
        ((l.set (r.base - 1 + j) entry).drop (r.base - 1)) := by
      rw [List.drop_set, if_neg (by omega), Nat.add_sub_cancel_left]
      exact {
        positive := compacted.window.positive
        front := compacted.window.front
        holds := compacted.window.holds.set inside entry
        back := by
          rw [List.length_set]
          exact compacted.window.back
        count := by
          rw [List.length_set]
          exact count
        small := fun i _ => compacted.sum_le i }
    have length : (l.set (r.base - 1 + j) entry).length = l.length := List.length_set
    have indexed : LogManager.Indexed { entries := l.set (r.base - 1 + j) entry } := by
      have kept := compacted.indexed.overWriteLogEntry (show 1 ≤ r.base - 1 + j + 1 by omega)
        (show r.base - 1 + j + 1 ≤ l.length by omega) (show entry.index = r.base - 1 + j + 1 by omega)
      unfold LogManager.Indexed at kept
      rw [compacted.indexed.overWriteLogEntry_entries (show r.base - 1 + j < l.length by omega)] at kept
      exact kept
    rw [decide_eq_false outside, compacted.window.raftIndexToArrayIndex_eq inside]
    refine ⟨.kOk, _, l.set (r.base - 1 + j) entry, rfl, rfl, ?_, ?_⟩
    · refine compacted.of_window written rfl (length.symm ▸ compacted.nonempty) compacted.free indexed
        (length.symm ▸ compacted.length) ?_ ?_
      · intro later
        rw [List.getElem?_set_ne (by omega)]
      · intro later
        have free := compacted.free later
        exact compacted.write_before (by omega) entry
    · intro i below
      rw [List.getElem?_set_ne (by omega)]

theorem Compacted.deleteLogEntriesFrom_eq (compacted : Compacted r l) (kept : 1 < r.base → idx ≠ r.base) :
    ∃ stat r' l', r.deleteLogEntriesFrom idx = some (stat, r') ∧ r'.base = r.base ∧ Compacted r' l' ∧
      ∀ i < r.base - 1, l'[i]? = l[i]? := by
  have base := compacted.base
  have beyond := compacted.beyondRange_eq idx
  by_cases outside : idx < r.base ∨ l.length < idx
  · rw [decide_eq_true outside] at beyond
    unfold deleteLogEntriesFrom
    rw [beyond]
    exact ⟨.kIndexBeyondRange, r, l, rfl, rfl, compacted, fun _ _ => rfl⟩
  · obtain ⟨j, rfl⟩ : ∃ j, idx = r.base + j := ⟨idx - r.base, by omega⟩
    have length : (l.drop (r.base - 1)).length = l.length - (r.base - 1) := List.length_drop
    have inside : j < (l.drop (r.base - 1)).length := by omega
    have count := compacted.window.count
    have last : r.lastLogEntryIndex = some (r.base + ((l.drop (r.base - 1)).length - 1)) := by
      rw [compacted.lastLogEntryIndex_eq]
      congr 1
      omega
    rw [decide_eq_false outside] at beyond
    obtain ⟨entries, back, deleted, window, capacity, others⟩ := compacted.window.deleteLogEntriesFrom_eq inside beyond last
    have short : (l.take (r.base - 1 + j)).length = r.base - 1 + j := List.length_take_of_le (by omega)
    rw [List.take_drop] at window
    refine ⟨.kOk, _, l.take (r.base - 1 + j), deleted, rfl, ?_, ?_⟩
    · refine compacted.of_window window capacity ?_ ?_ (compacted.indexed.take _) ?_ ?_ ?_
      · intro later
        have different := kept later
        omega
      · intro later
        have free := compacted.free later
        omega
      · have bound := compacted.length
        omega
      · intro later
        rw [List.getElem?_take_of_lt (by omega)]
      · intro later
        have free := compacted.free later
        rw [r.entries.previous_eq_slot r.front compacted.window.positive]
        exact others _ (show (l.drop (r.base - 1)).length ≤ r.capacity - 1 by omega) (Nat.sub_lt compacted.window.positive Nat.one_pos)
    · intro i below
      rw [List.getElem?_take_of_lt (by omega)]

theorem before_front {cap i : Nat} (bound : i < cap) (small : cap ≤ 2 ^ 30) (aligned : i ≠ 0 ∨ cap ∣ 2 ^ 32) :
    (2 ^ 32 - 1 + i) % 2 ^ 32 % cap = (i + cap - 1) % cap := by
  by_cases first : i = 0
  · subst first
    obtain ⟨times, whole⟩ := aligned.resolve_left (fun different => different rfl)
    have positive : 0 < times := Nat.pos_of_ne_zero (fun none => by simp [none] at whole)
    have last : 2 ^ 32 - 1 = cap - 1 + cap * (times - 1) := by
      rw [Nat.mul_sub_one, ← whole]
      have le : cap ≤ cap * times := Nat.le_mul_of_pos_right cap positive
      omega
    rw [Nat.zero_add, Nat.mod_eq_of_lt (show 2 ^ 32 - 1 + 0 < 2 ^ 32 by decide), Nat.add_zero, last, Nat.add_mul_mod_self_left]
  · have around : i + cap - 1 = i - 1 + cap := by omega
    have plain : (2 ^ 32 - 1 + i) % 2 ^ 32 = i - 1 := by omega
    rw [plain, around, Nat.add_mod_right]

/-- Discarding up to an index behind the base. What was deleted last is the entry before the new base. -/
theorem Compacted.discarded (compacted : Compacted r l) {n : Nat} (some_gone : 0 < n) (inside : r.base + n ≤ l.length)
    (aligned : (r.front + n) % r.capacity ≠ 0 ∨ r.capacity ∣ 2 ^ 32) :
    Compacted { r with
      entries := (r.entries.modify r.deleter n r.front).1
      base := r.base + n
      front := (r.entries.modify r.deleter n r.front).2
      count := r.count - n } l := by
  have base := compacted.base
  have total := compacted.count_eq
  have count := compacted.window.count
  have window := compacted.window
  have fits : (l.drop (r.base - 1)).length ≤ r.capacity := window.holds.fits
  have width : (r.entries.modify r.deleter n r.front).1.capacity = r.capacity := r.entries.modify_capacity _ _ _
  have front : (r.entries.modify r.deleter n r.front).2 = r.entries.slot r.front n := by
    have behind := r.entries.modify_behind r.front r.deleter n 0
    rw [window.slot_zero, Nat.zero_add] at behind
    exact behind
  have rest := window.discard (n := n) (by omega) compacted.capacity (r.base + n)
  rw [List.drop_drop, show r.base - 1 + n = r.base + n - 1 by omega] at rest
  have previous : (r.entries.modify r.deleter n r.front).1.previous (r.entries.slot r.front n) = r.entries.slot r.front (n - 1) := by
    rw [← r.entries.previous_slot r.front (n - 1) window.positive, Nat.sub_add_cancel some_gone]
    unfold RingBuffer.previous
    rw [width]
    rfl
  rw [front]
  exact {
    window := rest
    base := by
      change 1 ≤ r.base + n
      omega
    nonempty := fun _ => inside
    free := by
      intro _
      change r.count - n < (r.entries.modify r.deleter n r.front).1.capacity
      rw [width]
      omega
    lastSnapshotIndex := compacted.lastSnapshotIndex
    lastSnapshotTerm := compacted.lastSnapshotTerm
    indexed := compacted.indexed
    capacity := by
      change (r.entries.modify r.deleter n r.front).1.capacity ≤ 2 ^ 30
      rw [width]
      exact compacted.capacity
    length := compacted.length
    deleter := compacted.deleter
    slot := by
      intro _
      unfold raftIndexToArrayIndex RingBuffer.previous LogRing.capacity
      dsimp only
      have plain : 2 ^ 32 + (r.base + n - 1) - (r.base + n) = 2 ^ 32 - 1 := by omega
      rw [plain, width]
      exact before_front (Nat.mod_lt _ window.positive) compacted.capacity aligned
    before := by
      intro _ e last
      have gone : (l.drop (r.base - 1))[n - 1]? = some e := by
        rw [List.getElem?_drop, ← last]
        congr 1
        change r.base - 1 + (n - 1) = r.base + n - 2
        omega
      have old := r.entries.modify_array r.front r.deleter n 0 (n - 1) (show 0 + n ≤ r.capacity by omega)
        (show n - 1 < r.capacity by omega)
      rw [window.slot_zero, if_pos (by omega), window.holds.read _ _ gone] at old
      dsimp only
      rw [previous, old]
      exact compacted.deleter e }

theorem Compacted.discardLogEntriesBefore_eq (compacted : Compacted r l)
    (orderly : (discardLogEntriesBefore idx).Orderly r) :
    ∃ r' cleaned n, r.discardLogEntriesBefore idx = some (.kOk, r', cleaned) ∧ r'.base = r.base + n ∧ r.base + n ≤ l.length + 1 ∧
      Compacted r' l := by
  have total := compacted.count_eq
  unfold LogRing.discardLogEntriesBefore
  by_cases idle : r.count = 0 ∨ idx < r.base
  · exact ⟨r, [], 0, if_pos idle, rfl, by omega, compacted⟩
  rw [if_neg idle, compacted.lastLogEntryIndex_eq]
  obtain ⟨n, dest⟩ : ∃ n, min l.length idx = r.base + n := ⟨min l.length idx - r.base, by omega⟩
  dsimp only [Orderly] at orderly
  rw [total, Nat.add_sub_cancel] at orderly
  simp only [Option.bind_eq_bind, Option.bind_some]
  rw [dest] at orderly ⊢
  rw [Nat.add_sub_cancel_left] at orderly ⊢
  have number : r.count + r.base - (r.base + n) = r.count - n := by omega
  rw [number]
  refine ⟨_, _, n, rfl, rfl, by omega, ?_⟩
  rcases Nat.eq_zero_or_pos n with rfl | positive
  · exact compacted
  · exact compacted.discarded positive (by omega) (orderly (by omega))

end Compacted

/-- The entry discarded last is the one before the base. -/
structure Tracks (s : LogRing × Option LogEntry) (l : List LogEntry) : Prop where
  compacted : Compacted s.1 l
  last : ∀ e, s.2 = some e → 1 < s.1.base ∧ l[s.1.base - 2]? = some e

section Tracks

variable {s : LogRing × Option LogEntry} {l : List LogEntry} {op : LogOp}

theorem Tracks.change (tracks : Tracks s l) {stat : Status} {r' : LogRing} {l' : List LogEntry}
    (performed : op.onRing s.1 = some (stat, r')) (base : r'.base = s.1.base) (compacted : Compacted r' l')
    (same : ∀ i < s.1.base - 1, l'[i]? = l[i]?) : ∃ s' l', step s (change op) = some s' ∧ Tracks s' l' := by
  refine ⟨(r', s.2), l', ?_, compacted, ?_⟩
  · dsimp only [step]
    rw [performed]
    rfl
  · intro e found
    obtain ⟨later, before⟩ := tracks.last e found
    change 1 < r'.base ∧ l'[r'.base - 2]? = some e
    rw [base, same _ (by omega)]
    exact ⟨later, before⟩

theorem Tracks.append (tracks : Tracks s l) (allocated : Bool) (entry : LogEntry) (room : HasSlot s.1)
    (place : entry.index = l.length + 1) (performed : op.onRing s.1 = s.1.appendEntryHelper allocated entry) :
    ∃ s' l', step s (CompactOp.change op) = some s' ∧ Tracks s' l' := by
  have total := tracks.compacted.count_eq
  rcases tracks.compacted.appendEntryHelper_eq allocated room place with ⟨r', stored, base, compacted⟩ | failed
  · refine tracks.change (performed.trans stored) base compacted ?_
    intro i below
    rw [List.getElem?_append_left (by omega)]
  · exact tracks.change (performed.trans failed) rfl tracks.compacted (fun _ _ => rfl)

theorem Compacted.appendLogEntryAtomic_eq {r : LogRing} (compacted : Compacted r l) (allocated : Bool) (room : HasSlot r) (entry : LogEntry) :
    r.appendLogEntryAtomic allocated entry =
      (r.appendEntryHelper allocated { entry with index := l.length + 1 }).map fun result =>
        (if result.1 = .kOk then l.length + 1 else 0, result) := by
  have total := compacted.count_eq
  have bound := room.1
  unfold LogRing.appendLogEntryAtomic
  rw [compacted.lastLogEntryIndex_eq]
  simp only [Option.bind_eq_bind, Option.bind_some]
  rw [Nat.mod_eq_of_lt (by omega)]
  cases r.appendEntryHelper allocated { entry with index := l.length + 1 } with
  | none => rfl
  | some result =>
    simp only [Option.bind_some, Option.map_some, ne_eq, ite_not]
    rfl

theorem Tracks.discard (tracks : Tracks s l) {idx : Nat} (orderly : (discardLogEntriesBefore idx).Orderly s.1) :
    ∃ s' l', step s (discardLogEntriesBefore idx) = some s' ∧ Tracks s' l' := by
  obtain ⟨r', cleaned, n, performed, base, inside, compacted⟩ := tracks.compacted.discardLogEntriesBefore_eq orderly
  have start := tracks.compacted.base
  have gone : s.1.entries.fetch n s.1.front = (l.drop (s.1.base - 1)).take n := by
    have fetched := tracks.compacted.window.holds.fetch n 0 (by rw [List.length_drop]; omega)
    rw [tracks.compacted.window.slot_zero] at fetched
    exact fetched
  refine ⟨(r', ((l.drop (s.1.base - 1)).take n).getLast?.or s.2), l, ?_, compacted, ?_⟩
  · dsimp only [step]
    rw [performed, Option.map_some]
    dsimp only
    rw [base, Nat.add_sub_cancel_left, gone]
  · intro e found
    dsimp only at found ⊢
    rcases n with _ | n
    · rw [List.take_zero, List.getLast?_nil, Option.none_or] at found
      rw [base]
      exact tracks.last e found
    · have last : ((l.drop (s.1.base - 1)).take (n + 1)).getLast? = l[s.1.base + (n + 1) - 2]? := by
        rw [List.getLast?_eq_getElem?, List.length_take_of_le (by rw [List.length_drop]; omega), Nat.add_sub_cancel,
          List.getElem?_take_of_lt (Nat.lt_succ_self n), List.getElem?_drop]
        congr 1
        omega
      have present : (l[s.1.base + (n + 1) - 2]?).isSome := by
        rw [List.getElem?_eq_getElem (by omega)]
        rfl
      rw [last, Option.or_of_isSome present] at found
      rw [base]
      exact ⟨by omega, found⟩

theorem Tracks.step (tracks : Tracks s l) {op : CompactOp} (orderly : op.Orderly s.1) :
    ∃ s' l', step s op = some s' ∧ Tracks s' l' := by
  have total := tracks.compacted.count_eq
  cases op with
  | discardLogEntriesBefore idx => exact tracks.discard orderly
  | change op =>
    cases op with
    | appendLogEntry allocated entry => exact tracks.append allocated entry orderly.2 (orderly.1.trans total) rfl
    | appendLogEntryAtomic allocated entry =>
      refine tracks.append allocated { entry with index := l.length + 1 } orderly rfl ?_
      dsimp only [LogOp.onRing]
      rw [tracks.compacted.appendLogEntryAtomic_eq allocated orderly, Option.map_map]
      exact Option.map_id'
    | overWriteLogEntry entry idx =>
      obtain ⟨stat, r', l', performed, base, compacted, same⟩ := tracks.compacted.overWriteLogEntry_eq orderly
      exact tracks.change performed base compacted same
    | deleteLogEntriesFrom idx =>
      obtain ⟨stat, r', l', performed, base, compacted, same⟩ := tracks.compacted.deleteLogEntriesFrom_eq orderly
      exact tracks.change performed base compacted same

theorem Tracks.wellFormed (tracks : Tracks s l) : WellFormed s where
  last := by
    have total := tracks.compacted.count_eq
    exact ⟨l.length, tracks.compacted.lastLogEntryIndex_eq, by omega, total.symm⟩
  contiguous := tracks.compacted.contiguous
  termAt := by
    intro e found
    obtain ⟨later, before⟩ := tracks.last e found
    exact tracks.compacted.termAt_before later before

end Tracks

theorem reach_tracks {initialCap : Nat} (positive : 1 ≤ initialCap) (bound : initialCap ≤ 2 ^ 30)
    {deleter : LogEntry → LogEntry} (kept : ∀ e, (deleter e).term = e.term) {s : LogRing × Option LogEntry}
    (run : Steps.Reach step (fun s op => op.Orderly s.1) (.create initialCap deleter, none) s) : ∃ l, Tracks s l := by
  refine run.holds (P := fun s => ∃ l, Tracks s l) ⟨[], create_compacted positive bound kept, fun e h => by cases h⟩ ?_
  rintro before op after ⟨l, tracks⟩ orderly stepped
  obtain ⟨s', l', performed, tracks'⟩ := tracks.step orderly
  obtain rfl := Option.some.inj (performed.symm.trans stepped)
  exact ⟨l', tracks'⟩

/-- As long as the operations are orderly, the log is well formed in every state, each of them returns, and an atomic
append gets the last index plus one. -/
theorem discarding_keeps_well_formed {initialCap : Nat} (positive : 1 ≤ initialCap) (bound : initialCap ≤ 2 ^ 30)
    {deleter : LogEntry → LogEntry} (kept : ∀ e, (deleter e).term = e.term) {s : LogRing × Option LogEntry}
    (run : Steps.Reach step (fun s op => op.Orderly s.1) (.create initialCap deleter, none) s) :
    WellFormed s ∧ (∀ op : CompactOp, op.Orderly s.1 → (step s op).isSome) ∧
    ∀ allocated entry, (change (.appendLogEntryAtomic allocated entry)).Orderly s.1 →
      ∃ last stat r', s.1.lastLogEntryIndex = some last ∧
        s.1.appendLogEntryAtomic allocated entry = some (if stat = .kOk then last + 1 else 0, stat, r') := by
  obtain ⟨l, tracks⟩ := reach_tracks positive bound kept run
  refine ⟨tracks.wellFormed, ?_, ?_⟩
  · intro op orderly
    obtain ⟨s', l', performed, -⟩ := tracks.step orderly
    rw [performed]
    rfl
  · intro allocated entry room
    have allocates := tracks.compacted.appendLogEntryAtomic_eq allocated room entry
    have place : ({ entry with index := l.length + 1 } : LogEntry).index = l.length + 1 := rfl
    rcases tracks.compacted.appendEntryHelper_eq allocated room place with ⟨r', stored, -, -⟩ | failed
    · rw [stored] at allocates
      exact ⟨l.length, .kOk, r', tracks.compacted.lastLogEntryIndex_eq, allocates⟩
    · rw [failed] at allocates
      exact ⟨l.length, .kMemAllocateFail, s.1, tracks.compacted.lastLogEntryIndex_eq, allocates⟩

/-- Four appends, a discard, a deletion behind the base and another append, in a ring of four slots. -/
def discardedRun : Option (LogRing × Option LogEntry) :=
  Steps.exec step (fun s op => op.Orderly s.1) (.create 4 (fun e => { e with commandDataField := [] }), none)
    [change (.appendLogEntryAtomic true { term := 1 }), change (.appendLogEntryAtomic true { term := 2 }),
      change (.appendLogEntryAtomic true { term := 3 }), discardLogEntriesBefore 2,
      change (.deleteLogEntriesFrom 3), change (.appendLogEntryAtomic true { term := 5 })]

theorem discardedRun_isSome : discardedRun.isSome := by decide +kernel

theorem discarding_keeps_well_formed_discardedRun :
    (discardedRun.get discardedRun_isSome).1.base = 2 ∧ WellFormed (discardedRun.get discardedRun_isSome) := by
  have run : Steps.Reach step (fun s op => op.Orderly s.1) (.create 4 (fun e => { e with commandDataField := [] }), none)
      (discardedRun.get discardedRun_isSome) := .of_get discardedRun_isSome
  refine ⟨by decide +kernel, (discarding_keeps_well_formed ?_ ?_ ?_ run).1⟩
  · decide
  · decide
  · intro e
    rfl

/-- Three appends, the first two entries are discarded, and the third one is deleted. -/
def emptiedRun : Option (LogRing × Option LogEntry) :=
  Steps.exec step (fun _ _ => True) (.create 4 (fun e => { e with commandDataField := [] }), none)
    [change (.appendLogEntryAtomic true { term := 1 }), change (.appendLogEntryAtomic true { term := 2 }),
      change (.appendLogEntryAtomic true { term := 3 }), discardLogEntriesBefore 3, change (.deleteLogEntriesFrom 3)]

/-- Two appends, the first entry is discarded, and two more appends fill the three slots. -/
def filledRun : Option (LogRing × Option LogEntry) :=
  Steps.exec step (fun _ _ => True) (.create 3 (fun e => { e with commandDataField := [] }), none)
    [change (.appendLogEntryAtomic true { term := 1 }), change (.appendLogEntryAtomic true { term := 2 }),
      discardLogEntriesBefore 2, change (.appendLogEntryAtomic true { term := 3 }),
      change (.appendLogEntryAtomic true { term := 4 })]

theorem emptiedRun_isSome : emptiedRun.isSome := by decide +kernel

theorem filledRun_isSome : filledRun.isSome := by decide +kernel

/-- In an emptied log the last index is 0 and the next entry gets index 1, below the base. In a full one `TermAt`
gives the term of the newest entry for the index before the base. -/
theorem discarding_breaks_log :
    Steps.Reach step (fun _ _ => True) (.create 4 (fun e => { e with commandDataField := [] }), none)
      (emptiedRun.get emptiedRun_isSome) ∧
    ((emptiedRun.get emptiedRun_isSome).1.base = 3 ∧ (emptiedRun.get emptiedRun_isSome).1.lastLogEntryIndex = some 0 ∧
      ((emptiedRun.get emptiedRun_isSome).1.appendLogEntryAtomic true {}).map Prod.fst = some 1 ∧
      ¬ WellFormed (emptiedRun.get emptiedRun_isSome)) ∧
    Steps.Reach step (fun _ _ => True) (.create 3 (fun e => { e with commandDataField := [] }), none)
      (filledRun.get filledRun_isSome) ∧
    ((filledRun.get filledRun_isSome).2.map LogEntry.term = some 1 ∧
      (filledRun.get filledRun_isSome).1.base = 2 ∧ (filledRun.get filledRun_isSome).1.termAt 1 = some 4 ∧
      ¬ WellFormed (filledRun.get filledRun_isSome)) := by
  have base : (emptiedRun.get emptiedRun_isSome).1.base = 3 := by decide +kernel
  have empty : (emptiedRun.get emptiedRun_isSome).1.lastLogEntryIndex = some 0 := by decide +kernel
  have gone : (filledRun.get filledRun_isSome).2.map LogEntry.term = some 1 := by decide +kernel
  have start : (filledRun.get filledRun_isSome).1.base = 2 := by decide +kernel
  have term : (filledRun.get filledRun_isSome).1.termAt 1 = some 4 := by decide +kernel
  refine ⟨.of_get emptiedRun_isSome, ⟨base, empty, by decide +kernel, ?_⟩,
    .of_get filledRun_isSome, gone, start, term, ?_⟩
  · intro wellFormed
    obtain ⟨last, found, bound, -⟩ := wellFormed.last
    rw [empty] at found
    cases found
    omega
  · intro wellFormed
    obtain ⟨e, last, termOfLast⟩ := Option.map_eq_some_iff.mp gone
    have same := wellFormed.termAt e last
    rw [start, termOfLast] at same
    exact absurd (same.symm.trans term) (by decide)

end CompactOp

end FlexRaft
