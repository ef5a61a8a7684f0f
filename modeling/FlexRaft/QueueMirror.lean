import FlexRaft.LogChanges

namespace FlexRaft

theorem places_of_consecutive {entries : List LogEntry} {start : Nat}
    (consecutive : entries.map LogEntry.index = List.range' start entries.length) (i : Nat) (e : LogEntry)
    (at_i : entries[i]? = some e) : e.index = start + i := by
  have bound := (List.getElem?_eq_some_iff.mp at_i).1
  have same := congrArg (fun indices => indices[i]?) consecutive
  rw [List.getElem?_map, at_i, List.getElem?_range' bound, Nat.one_mul] at same
  exact Option.some.inj same

namespace PersistQueue

/-- The items that storage does not have yet. -/
def unwritten (q : PersistQueue) : List PersistItem :=
  match q.worker with
  | .written _ toIdx => q.queue.dropWhile fun item => decide (item.index ≤ toIdx)
  | _ => q.queue

/-- The queue is empty and its worker idle. -/
def Settled (q : PersistQueue) : Prop := q.queue = [] ∧ q.worker = .idle

instance (q : PersistQueue) : Decidable q.Settled := inferInstanceAs (Decidable (q.queue = [] ∧ q.worker = .idle))

/-- The log consists of what the file holds and of what is still to be written. -/
structure Mirrors (f : StorageFormat) (lm : LogManager) (q : PersistQueue) : Prop where
  indexed : lm.Indexed
  stored : ∃ log, q.file.Holds f log ∧ lm.entries = log ++ q.unwritten.map PersistItem.entry ∧
    ∀ fromIdx toIdx, q.worker = .written fromIdx toIdx → toIdx ≤ log.length
  own : ∀ item ∈ q.queue, item.entry.index = item.index
  fits : ∀ item ∈ q.queue, f.Fits item.entry
  collected : ∀ batch, q.worker = .collected batch → batch <+: q.queue

/-- Everything is written, and the file holds the log. -/
structure Stores (f : StorageFormat) (lm : LogManager) (q : PersistQueue) : Prop where
  settled : q.Settled
  indexed : lm.Indexed
  holds : q.file.Holds f lm.entries

section Mirrors

variable {f : StorageFormat} {lm : LogManager} {q q' : PersistQueue} {log : ListLog}

theorem Settled.unwritten_eq (settled : q.Settled) : q.unwritten = [] := by
  unfold unwritten
  rw [settled.2]
  exact settled.1

theorem Stores.mirrors (stores : Stores f lm q) : Mirrors f lm q := by
  have none : ∀ item, item ∉ q.queue := by
    rw [stores.settled.1]
    exact fun item => List.not_mem_nil
  refine ⟨stores.indexed, ⟨lm.entries, stores.holds, ?_, fun _ _ worker => ?_⟩, fun item member => ?_,
    fun item member => ?_, fun batch worker => ?_⟩
  · rw [stores.settled.unwritten_eq, List.map_nil, List.append_nil]
  · cases stores.settled.2.symm.trans worker
  · exact absurd member (none item)
  · exact absurd member (none item)
  · cases stores.settled.2.symm.trans worker

theorem Mirrors.stores (mirrors : Mirrors f lm q) (settled : q.Settled) : Stores f lm q := by
  obtain ⟨log, holds, whole, _⟩ := mirrors.stored
  rw [settled.unwritten_eq, List.map_nil, List.append_nil] at whole
  exact ⟨settled, mirrors.indexed, whole ▸ holds⟩

theorem Mirrors.withFile {file : FileStorage} (mirrors : Mirrors f lm q)
    (same : ∀ log, q.file.Holds f log → file.Holds f log) : Mirrors f lm { q with file := file } := by
  obtain ⟨log, holds, whole, written⟩ := mirrors.stored
  exact ⟨mirrors.indexed, ⟨log, same log holds, whole, written⟩, mirrors.own, mirrors.fits, mirrors.collected⟩

theorem Mirrors.sync (mirrors : Mirrors f lm q) : Mirrors f lm q.sync :=
  mirrors.withFile fun _ holds => holds.congr rfl rfl rfl rfl

theorem Mirrors.saveState {s s' : RaftState} {granted : Bool} (mirrors : Mirrors f lm q) :
    Mirrors f lm (q.saveState s s' granted) := by
  unfold PersistQueue.saveState
  split
  · exact mirrors.withFile fun _ holds => holds.congr rfl rfl rfl rfl
  · exact mirrors

theorem unwritten_index {j : Nat} {item : PersistItem} (indexed : lm.Indexed)
    (whole : lm.entries = log ++ q.unwritten.map PersistItem.entry) (at_j : q.unwritten[j]? = some item) :
    item.entry.index = log.length + 1 + j := by
  have stands : lm.entries[log.length + j]? = some item.entry := by
    rw [whole, List.getElem?_append_right (by omega), Nat.add_sub_cancel_left, List.getElem?_map, at_j]
    rfl
  have place := indexed _ _ stands
  omega

theorem unwritten_push {entry : LogEntry} {index : Nat}
    (above : ∀ fromIdx toIdx, q.worker = .written fromIdx toIdx → toIdx < index) :
    (q.push entry index).unwritten.map PersistItem.entry = q.unwritten.map PersistItem.entry ++ [entry] := by
  have worker : (q.push entry index).worker = q.worker := rfl
  unfold unwritten
  rw [worker]
  cases at_work : q.worker with
  | idle => exact List.map_append
  | collected batch => exact List.map_append
  | written fromIdx toIdx =>
    have late := above fromIdx toIdx at_work
    dsimp only [PersistQueue.push]
    rw [List.dropWhile_append]
    split
    · rename_i empty
      rw [List.isEmpty_iff] at empty
      rw [empty, List.dropWhile_cons_of_neg]
      · rfl
      · rw [decide_eq_true_iff]
        dsimp only
        omega
    · exact List.map_append

theorem Mirrors.push {e : LogEntry} (mirrors : Mirrors f lm q) (place : e.index = lm.entries.length + 1)
    (fits : f.Fits e) : Mirrors f (lm.appendLogEntry e) (q.push e (lm.entries.length + 1)) := by
  obtain ⟨log, holds, whole, written⟩ := mirrors.stored
  have length := congrArg List.length whole
  rw [List.length_append] at length
  refine ⟨mirrors.indexed.appendLogEntry place, ⟨log, holds, ?_, written⟩, fun item member => ?_,
    fun item member => ?_, fun batch worker => (mirrors.collected batch worker).trans (List.prefix_append _ _)⟩
  · rw [unwritten_push fun fromIdx toIdx worker => ?_, ← List.append_assoc, ← whole]
    · rfl
    · have low := written fromIdx toIdx worker
      omega
  · rcases List.mem_append.mp member with old | new
    · exact mirrors.own item old
    · rw [List.mem_singleton.mp new]
      exact place
  · rcases List.mem_append.mp member with old | new
    · exact mirrors.fits item old
    · rw [List.mem_singleton.mp new]
      exact fits

theorem Mirrors.collect (mirrors : Mirrors f lm q) (collects : q.collect = some q') : Mirrors f lm q' := by
  obtain ⟨idle, batch, front, rfl⟩ := of_collect collects
  obtain ⟨log, holds, whole, _⟩ := mirrors.stored
  have same : q.unwritten = q.queue := by
    unfold unwritten
    rw [idle]
  rw [same] at whole
  refine ⟨mirrors.indexed, ⟨log, holds, whole, fun _ _ worker => (nomatch worker)⟩, mirrors.own, mirrors.fits,
    fun collected worker => ?_⟩
  cases worker
  exact front

theorem Mirrors.mark (mirrors : Mirrors f lm q) (marks : q.mark = some q') : Mirrors f lm q' := by
  obtain ⟨fromIdx, toIdx, worker, rfl⟩ := of_mark marks
  obtain ⟨log, holds, whole, _⟩ := mirrors.stored
  have left : q.unwritten = q.queue.dropWhile fun item => decide (item.index ≤ toIdx) := by
    unfold unwritten
    rw [worker]
  rw [left] at whole
  have subset : (q.queue.dropWhile fun item => decide (item.index ≤ toIdx)) ⊆ q.queue :=
    (List.dropWhile_sublist _).subset
  exact ⟨mirrors.indexed, ⟨log, holds, whole, fun _ _ idle => (nomatch idle)⟩,
    fun item member => mirrors.own item (subset member), fun item member => mirrors.fits item (subset member),
    fun _ idle => (nomatch idle)⟩

theorem foldl_put {batch : List LogEntry}
    (consecutive : batch.map LogEntry.index = List.range' (log.length + 1) batch.length) :
    batch.foldl ListLog.put log = log ++ batch := by
  induction batch generalizing log with
  | nil => simp
  | cons ent rest ih =>
    obtain ⟨here, later⟩ := List.cons.inj consecutive
    have put : log.put ent = log ++ [ent] := if_neg (by omega)
    rw [List.foldl_cons, put, ih, List.append_assoc]
    · rfl
    · rw [List.length_append]
      exact later

/-- What `collect` takes up are the first items of the queue, which stand behind the end of the file. -/
theorem Mirrors.batch_index {batch later : List PersistItem} (mirrors : Mirrors f lm q)
    (whole : lm.entries = log ++ q.unwritten.map PersistItem.entry) (all : q.unwritten = q.queue)
    (split : batch ++ later = q.queue) :
    (batch.map PersistItem.index = List.range' (log.length + 1) batch.length) ∧
      ∀ item ∈ later, log.length + batch.length < item.index := by
  have place : ∀ (j : Nat) (item : PersistItem), (batch ++ later)[j]? = some item → item.index = log.length + 1 + j := by
    intro j item at_j
    rw [split] at at_j
    rw [← mirrors.own item (List.mem_of_getElem? at_j)]
    exact unwritten_index mirrors.indexed whole (all ▸ at_j)
  constructor
  · apply List.ext_getElem?
    intro j
    by_cases bound : j < batch.length
    · have at_j : (batch ++ later)[j]? = some batch[j] := by
        rw [List.getElem?_append_left bound, List.getElem?_eq_getElem bound]
      rw [List.getElem?_map, List.getElem?_eq_getElem bound, Option.map_some, place j _ at_j, List.getElem?_range' bound]
      congr 1
      omega
    · rw [List.getElem?_eq_none (by simp; omega), List.getElem?_eq_none (by simp; omega)]
  · intro item member
    obtain ⟨j, at_j⟩ := List.mem_iff_getElem?.mp member
    have stands : (batch ++ later)[batch.length + j]? = some item := by
      rw [List.getElem?_append_right (by omega), Nat.add_sub_cancel_left, at_j]
    have := place _ _ stands
    omega

/-- The items of a written batch are not to be written any more, those behind it are. -/
theorem dropWhile_batch {batch later : List PersistItem} {lo toIdx : Nat}
    (low : batch.map PersistItem.index = List.range' lo batch.length) (last : lo + batch.length = toIdx + 1)
    (high : ∀ item ∈ later, toIdx < item.index) :
    ((batch ++ later).dropWhile fun item => decide (item.index ≤ toIdx)) = later := by
  rw [List.dropWhile_append_of_pos]
  · cases later with
    | nil => rfl
    | cons item rest =>
      have above := high item List.mem_cons_self
      refine List.dropWhile_cons_of_neg ?_
      rw [decide_eq_true_iff]
      omega
  · intro item member
    have inRange : item.index ∈ List.range' lo batch.length := low ▸ List.mem_map_of_mem member
    have bounds := List.mem_range'_1.mp inRange
    rw [decide_eq_true_iff]
    omega

theorem Mirrors.persistEntries {batch later : List PersistItem} (mirrors : Mirrors f lm q)
    (holds : q.file.Holds f log) (split : batch ++ later = q.queue)
    (indices : batch.map PersistItem.index = List.range' (log.length + 1) batch.length) :
    ∃ file, q.file.persistEntries f (log.length + 1) (log.length + batch.length) (batch.map PersistItem.entry) = some file ∧
      file.Holds f (log ++ batch.map PersistItem.entry) := by
  have inQueue : ∀ item ∈ batch, item ∈ q.queue := by
    intro item member
    rw [← split]
    exact List.mem_append_left _ member
  have consecutive : (batch.map PersistItem.entry).map LogEntry.index =
      List.range' (log.length + 1) (batch.map PersistItem.entry).length := by
    rw [List.map_map, List.length_map, ← indices]
    exact List.map_congr_left fun item member => mirrors.own item (inQueue item member)
  have fits : ∀ ent ∈ batch.map PersistItem.entry, f.Fits ent := by
    intro ent member
    obtain ⟨item, inBatch, rfl⟩ := List.mem_map.mp member
    exact mirrors.fits item (inQueue item inBatch)
  have count : log.length + batch.length + 1 = log.length + 1 + (batch.map PersistItem.entry).length := by
    rw [List.length_map]
    omega
  rw [← foldl_put consecutive]
  exact holds.persistEntries ⟨by omega, by omega, count, fits, consecutive⟩

theorem Mirrors.write (mirrors : Mirrors f lm q) (writes : q.write f = some q') : Mirrors f lm q' := by
  obtain ⟨first, rest, file, worker, _, persisted, rfl⟩ := of_write writes
  obtain ⟨log, holds, whole, _⟩ := mirrors.stored
  obtain ⟨later, split⟩ := mirrors.collected _ worker
  have all : q.unwritten = q.queue := by
    unfold unwritten
    rw [worker]
  obtain ⟨indices, behind⟩ := mirrors.batch_index whole all split
  have lo : first.index = log.length + 1 := by
    have head := indices
    exact (List.cons.inj head).1
  have hi : ((first :: rest).getLastD first).index = log.length + (first :: rest).length := by
    have last := congrArg List.getLast? indices
    rw [List.getLast?_map, List.getLast?_range', List.length_cons, if_neg (by omega)] at last
    obtain ⟨item, found, index⟩ := Option.map_eq_some_iff.mp last
    rw [List.getLastD_eq_getLast?, found, Option.getD_some, index, List.length_cons]
    omega
  obtain ⟨file', persisted', holds'⟩ := mirrors.persistEntries holds split indices
  rw [lo, hi, persisted'] at persisted
  cases persisted
  have left : (q.queue.dropWhile fun item => decide (item.index ≤ ((first :: rest).getLastD first).index)) = later := by
    rw [← split, hi]
    exact dropWhile_batch indices (by omega) behind
  refine ⟨mirrors.indexed, ⟨log ++ (first :: rest).map PersistItem.entry, holds'.congr rfl rfl rfl rfl, ?_, ?_⟩,
    mirrors.own, mirrors.fits, fun _ worker => (nomatch worker)⟩
  · have parts : lm.entries = log ++ (first :: rest).map PersistItem.entry ++ later.map PersistItem.entry := by
      rw [whole, all, ← split, List.map_append, List.append_assoc]
    exact parts.trans (congrArg (fun items => _ ++ List.map PersistItem.entry items) left.symm)
  · intro fromIdx toIdx written
    injection written with _ same
    rw [← same, hi, List.length_append, List.length_map]

end Mirrors

section Stores

variable {f : StorageFormat} {lm : LogManager} {q : PersistQueue}
  {entries : List LogEntry} {raftIndex : Nat} {s : RaftState}

theorem holds_appendAll {st : FileStorage} {log : ListLog} (holds : st.Holds f log)
    (places : ∀ i e, entries[i]? = some e → e.index = log.length + 1 + i) (fits : ∀ e ∈ entries, f.Fits e) :
    (entries.foldl (fun file ent => file.appendEntry f ent) st).Holds f (log ++ entries) := by
  induction entries generalizing st log with
  | nil => simpa using holds
  | cons e rest ih =>
    have place := places 0 e rfl
    have appended := holds.appendEntry (fits e List.mem_cons_self)
    rw [ListLog.append, if_pos (by omega)] at appended
    have later := ih appended (fun i e' at_i => ?_) fun e' member => fits e' (List.mem_cons_of_mem e member)
    · rw [List.append_assoc] at later
      exact later
    · have := places (i + 1) e' at_i
      rw [List.length_append, List.length_singleton]
      omega

theorem Stores.appendNew (stores : Stores f lm q)
    (places : ∀ i e, entries[i]? = some e → e.index = lm.entries.length + 1 + i) (fits : ∀ e ∈ entries, f.Fits e) :
    Stores f (lm.appendNew entries).1 (q.appendNew f entries) := by
  rw [LogManager.appendNew_eq]
  exact ⟨stores.settled, stores.indexed.append places, holds_appendAll stores.holds places fits⟩

/-- A rewriting of the log has come to `raftIndex`: the file holds the entries before it, and either nothing else
or the log as it was, which can be cut here. -/
structure Rewriting (f : StorageFormat) (lm : LogManager) (q : PersistQueue) (raftIndex : Nat) : Prop where
  settled : q.Settled
  indexed : lm.Indexed
  positive : 1 ≤ raftIndex
  bound : raftIndex ≤ lm.entries.length + 1
  holds : ∃ log, q.file.Holds f log ∧ log.take (raftIndex - 1) = lm.entries.take (raftIndex - 1) ∧
    (log.length + 1 = raftIndex ∨ log = lm.entries ∧ q.file.CutsCleanly f raftIndex)

theorem Stores.rewriting (stores : Stores f lm q) (positive : 1 ≤ raftIndex)
    (bound : raftIndex ≤ lm.entries.length) (clean : q.file.CutsCleanly f raftIndex) : Rewriting f lm q raftIndex :=
  ⟨stores.settled, stores.indexed, positive, by omega, lm.entries, stores.holds, rfl, Or.inr ⟨rfl, clean⟩⟩

theorem Rewriting.stores (rewriting : Rewriting f lm q raftIndex)
    (ended : raftIndex = lm.entries.length + 1) : Stores f lm q := by
  obtain ⟨log, holds, same, short | ⟨whole, _⟩⟩ := rewriting.holds
  · rw [List.take_of_length_le (by omega), List.take_of_length_le (by omega)] at same
    exact ⟨rewriting.settled, rewriting.indexed, same ▸ holds⟩
  · exact ⟨rewriting.settled, rewriting.indexed, whole ▸ holds⟩

theorem Rewriting.deleted (rewriting : Rewriting f lm q raftIndex) :
    (q.file.deleteEntriesFrom raftIndex).Holds f (lm.entries.take (raftIndex - 1)) := by
  obtain ⟨log, holds, same, short | ⟨_, clean⟩⟩ := rewriting.holds
  · have beyond : ¬ raftIndex ≤ q.file.lastIndex := by
      obtain ⟨_, _, _, last⟩ := holds
      omega
    rw [← same]
    exact holds.deleteEntriesFrom fun inside => absurd inside beyond
  · rw [← same]
    exact holds.deleteEntriesFrom fun _ => clean

theorem Rewriting.cut (rewriting : Rewriting f lm q raftIndex) (inside : raftIndex ≤ lm.entries.length) :
    Stores f (lm.deleteLogEntriesFrom raftIndex) (q.deleteEntriesFrom raftIndex) := by
  have left := rewriting.indexed.deleteLogEntriesFrom_entries rewriting.positive inside
  refine ⟨rewriting.settled, ?_, ?_⟩
  · intro j e at_j
    rw [left] at at_j
    exact rewriting.indexed.take _ j e at_j
  · rw [left]
    exact rewriting.deleted

theorem Rewriting.overwrite {ent : LogEntry} (rewriting : Rewriting f lm q raftIndex)
    (inside : raftIndex ≤ lm.entries.length) (place : ent.index = raftIndex) (fits : f.Fits ent) :
    Rewriting f (lm.overWriteLogEntry ent raftIndex) (q.overwriteEntry f raftIndex ent) (raftIndex + 1) := by
  have positive := rewriting.positive
  have written := rewriting.indexed.overWriteLogEntry_at positive inside (e := ent)
  refine ⟨rewriting.settled, rewriting.indexed.overWriteLogEntry positive inside place, by omega, ?_,
    lm.entries.take (raftIndex - 1) ++ [ent], ?_, ?_, Or.inl ?_⟩
  · rw [written, List.length_set]
    omega
  · have length : (lm.entries.take (raftIndex - 1)).length + 1 = raftIndex := by
      rw [List.length_take]
      omega
    have appended := rewriting.deleted.appendEntry fits
    rw [ListLog.append, if_pos (by omega)] at appended
    exact appended
  · obtain ⟨n, rfl⟩ : ∃ n, raftIndex = n + 1 := ⟨raftIndex - 1, by omega⟩
    rw [written, Nat.add_sub_cancel, Nat.add_sub_cancel, List.take_of_length_le (by simp),
      List.take_add_one, List.take_set_of_le (Nat.le_refl n), List.getElem?_set_self inside]
    rfl
  · rw [List.length_append, List.length_take, List.length_singleton]
    omega

/-- The stripes decode, or fail to, one after the other: each has fragments, and what it decodes to belongs to its
index and can be stored. -/
def decodesCleanly (f : StorageFormat) (s : RaftState) : Nat → List Stripe → Prop
  | _, [] => True
  | raftIndex, stripe :: rest =>
    stripe.collectedFragments ≠ [] ∧ s.decodingRaftEntry stripe ≠ .stop ∧
      (∀ ent, s.decodingRaftEntry stripe = .decoded ent → ent.index = raftIndex ∧ f.Fits ent) ∧
      decodesCleanly f s (raftIndex + 1) rest

/-- The loop of `DecodeCollectedStripe`, which changes nothing of the server but its log. -/
theorem Rewriting.decodeStripes {stripes : List Stripe}
    (rewriting : Rewriting f lm q raftIndex) (ended : raftIndex + stripes.length = lm.entries.length + 1)
    (clean : decodesCleanly f s raftIndex stripes) :
    Stores f (RaftState.decodeStripes stripes raftIndex { s with lm := lm }).lm
      (q.decodeStripes f s stripes raftIndex) := by
  induction stripes generalizing raftIndex lm q with
  | nil =>
    have stores := rewriting.stores ended
    exact ⟨stores.settled, stores.indexed, stores.holds.congr rfl rfl rfl rfl⟩
  | cons stripe rest ih =>
    obtain ⟨some, runs, decodes, clean⟩ := clean
    rw [List.length_cons] at ended
    have inside : raftIndex ≤ lm.entries.length := by omega
    have same : RaftState.decodingRaftEntry { s with lm := lm } stripe = s.decodingRaftEntry stripe := rfl
    unfold RaftState.decodeStripes PersistQueue.decodeStripes
    rw [if_neg some, if_neg some, same]
    cases outcome : s.decodingRaftEntry stripe with
    | stop => exact absurd outcome runs
    | failed =>
      have persisted : q.isUnpersisted raftIndex = false := by
        unfold isUnpersisted
        rw [rewriting.settled.1]
        rfl
      have stores := rewriting.cut inside
      rw [if_neg (by rw [persisted]; exact Bool.false_ne_true)]
      exact ⟨stores.settled, stores.indexed, stores.holds.congr rfl rfl rfl rfl⟩
    | decoded ent =>
      obtain ⟨place, fits⟩ := decodes ent outcome
      have next := rewriting.overwrite inside place fits
      have length : (lm.overWriteLogEntry ent raftIndex).entries.length = lm.entries.length := by
        unfold LogManager.overWriteLogEntry
        split
        · rfl
        · exact List.length_set
      exact ih next (show raftIndex + 1 + rest.length = (lm.overWriteLogEntry ent raftIndex).entries.length + 1 by omega)
        clean

/-- From `raftIndex` to the end of the log, every entry is replaced by one of the same term with a smaller `k`. -/
def overwritesToEnd : Nat → List LogEntry → LogManager → Bool
  | raftIndex, [], lm => decide (lm.lastLogEntryIndex < raftIndex)
  | raftIndex, entry :: rest, lm =>
    decide (lm.lastLogEntryIndex < raftIndex) ||
      decide (entry.term = lm.termAt raftIndex) &&
        ((lm.getSingleLogEntry raftIndex).any fun ent => needOverwriteLogEntry ent.chunkInfo entry.chunkInfo) &&
        overwritesToEnd (raftIndex + 1) rest (lm.overWriteLogEntry entry raftIndex)

theorem Rewriting.overwritesToEnd (rewriting : Rewriting f lm q raftIndex)
    (whole : PersistQueue.overwritesToEnd raftIndex entries lm = true)
    (places : ∀ i e, entries[i]? = some e → e.index = raftIndex + i) (fits : ∀ e ∈ entries, f.Fits e) :
    ∃ lm' infos, lm.checkConflictEntryAndAppendNew raftIndex entries = some (lm', infos) ∧
      Stores f lm' (q.checkConflictEntryAndAppendNew f raftIndex entries lm) := by
  induction entries generalizing raftIndex lm q with
  | nil =>
    have ended := of_decide_eq_true whole
    rw [rewriting.indexed.lastLogEntryIndex_eq] at ended
    have bound := rewriting.bound
    exact ⟨lm, [], rfl, rewriting.stores (by omega)⟩
  | cons entry rest ih =>
    have last := rewriting.indexed.lastLogEntryIndex_eq
    have bound := rewriting.bound
    unfold LogManager.checkConflictEntryAndAppendNew PersistQueue.checkConflictEntryAndAppendNew
    by_cases ended : lm.lastLogEntryIndex < raftIndex
    · rw [if_pos ended, if_pos ended]
      have stores := rewriting.stores (by omega)
      refine ⟨_, _, rfl, stores.appendNew (fun i e at_i => ?_) fits⟩
      have := places i e at_i
      omega
    · have inside : raftIndex ≤ lm.entries.length := by omega
      unfold PersistQueue.overwritesToEnd at whole
      rw [decide_eq_false ended, Bool.false_or, Bool.and_eq_true, Bool.and_eq_true, decide_eq_true_iff] at whole
      obtain ⟨⟨term, smaller⟩, whole⟩ := whole
      obtain ⟨ent, found, smaller⟩ := (Option.any_eq_true _ _).mp smaller
      rw [if_neg ended, if_neg ended, if_neg (not_not_intro term), if_neg (not_not_intro term), found]
      dsimp only
      rw [if_pos smaller, if_pos smaller]
      have next := rewriting.overwrite inside (by simpa using places 0 entry rfl) (fits entry List.mem_cons_self)
      have placesRest : ∀ i e, rest[i]? = some e → e.index = raftIndex + 1 + i := by
        intro i e at_i
        have := places (i + 1) e at_i
        omega
      obtain ⟨lm', infos, run, stores⟩ := ih next whole placesRest
        fun e member => fits e (List.mem_cons_of_mem entry member)
      exact ⟨lm', _, by rw [run]; rfl, stores⟩

/-- A request changes the log in a way that the storage can follow. Entries are appended when nothing waits to be
written. A conflict is met when the worker is idle: either everything is written and the file can be cut there, or
nothing from there on is written. An overwriting that begins goes on to the end of the log. -/
def rewritesCleanly (f : StorageFormat) (q : PersistQueue) : Nat → List LogEntry → LogManager → Prop
  | _, [], _ => True
  | raftIndex, entry :: rest, lm =>
    if lm.lastLogEntryIndex < raftIndex then q.Settled
    else if entry.term ≠ lm.termAt raftIndex then
      q.worker = .idle ∧ (q.queue = [] ∧ q.file.CutsCleanly f raftIndex ∨ ∃ item ∈ q.queue.head?, item.index = raftIndex)
    else if (lm.getSingleLogEntry raftIndex).any fun ent => needOverwriteLogEntry ent.chunkInfo entry.chunkInfo then
      q.Settled ∧ q.file.CutsCleanly f raftIndex ∧ overwritesToEnd raftIndex (entry :: rest) lm = true
    else rewritesCleanly f q (raftIndex + 1) rest lm

instance decidableRewritesCleanly (f : StorageFormat) (q : PersistQueue) : (raftIndex : Nat) →
    (entries : List LogEntry) → (lm : LogManager) → Decidable (q.rewritesCleanly f raftIndex entries lm)
  | _, [], _ => inferInstanceAs (Decidable True)
  | raftIndex, entry :: rest, lm =>
    have : Decidable (q.rewritesCleanly f (raftIndex + 1) rest lm) := decidableRewritesCleanly f q (raftIndex + 1) rest lm
    inferInstanceAs (Decidable (if lm.lastLogEntryIndex < raftIndex then q.Settled
      else if entry.term ≠ lm.termAt raftIndex then
        q.worker = .idle ∧ (q.queue = [] ∧ q.file.CutsCleanly f raftIndex ∨ ∃ item ∈ q.queue.head?, item.index = raftIndex)
      else if (lm.getSingleLogEntry raftIndex).any fun ent => needOverwriteLogEntry ent.chunkInfo entry.chunkInfo then
        q.Settled ∧ q.file.CutsCleanly f raftIndex ∧ overwritesToEnd raftIndex (entry :: rest) lm = true
      else q.rewritesCleanly f (raftIndex + 1) rest lm))

theorem rewritesCleanly_saveState {s' : RaftState} {granted : Bool}
    (clean : q.rewritesCleanly f raftIndex entries lm) :
    (q.saveState s s' granted).rewritesCleanly f raftIndex entries lm := by
  unfold PersistQueue.saveState
  split
  · induction entries generalizing raftIndex with
    | nil => exact trivial
    | cons entry rest ih =>
      unfold rewritesCleanly at clean ⊢
      split at clean
      · rwa [if_pos ‹_›]
      · rw [if_neg ‹_›]
        split at clean
        · rwa [if_pos ‹_›]
        · rw [if_neg ‹_›]
          split at clean
          · rwa [if_pos ‹_›]
          · rw [if_neg ‹_›]
            exact ih clean
  · exact clean

/-- At a conflict the file, or the queue, loses what the log loses. -/
theorem Mirrors.conflict (mirrors : Mirrors f lm q) (positive : 1 ≤ raftIndex)
    (inside : raftIndex ≤ lm.entries.length) (idle : q.worker = .idle)
    (clean : q.queue = [] ∧ q.file.CutsCleanly f raftIndex ∨ ∃ item ∈ q.queue.head?, item.index = raftIndex) :
    Stores f (lm.deleteLogEntriesFrom raftIndex)
      (if q.isUnpersisted raftIndex then q.truncateFrom raftIndex else q.deleteEntriesFrom raftIndex) := by
  rcases clean with ⟨empty, clean⟩ | ⟨item, first, index⟩
  · have persisted : ¬ q.isUnpersisted raftIndex = true := by
      unfold isUnpersisted
      rw [empty]
      exact Bool.false_ne_true
    rw [if_neg persisted]
    exact ((mirrors.stores ⟨empty, idle⟩).rewriting positive inside clean).cut inside
  · obtain ⟨log, holds, whole, _⟩ := mirrors.stored
    have all : q.unwritten = q.queue := by
      unfold unwritten
      rw [idle]
    obtain ⟨rest, queue⟩ : ∃ rest, q.queue = item :: rest := List.head?_eq_some_iff.mp first
    have waiting : q.isUnpersisted raftIndex = true := by
      unfold isUnpersisted isUnpersistedIn
      rw [queue]
      exact if_pos index
    rw [if_pos waiting]
    -- the queue begins at the conflict, so all of it goes
    obtain ⟨indices, behind⟩ := mirrors.batch_index whole all (show [item] ++ rest = q.queue from queue.symm)
    have start : item.index = log.length + 1 := (List.cons.inj indices).1
    have gone : (q.truncateFrom raftIndex).queue = [] := by
      refine List.dropWhile_eq_nil_iff.mpr fun other member => decide_eq_true ?_
      rw [queue] at member
      rcases List.mem_cons.mp member with rfl | later
      · omega
      · have := behind other later
        omega
    have left : (lm.deleteLogEntriesFrom raftIndex).entries = log := by
      rw [mirrors.indexed.deleteLogEntriesFrom_entries positive inside, whole, List.take_left' (by omega)]
    refine ⟨⟨gone, idle⟩, fun j e at_j => ?_, left.symm ▸ holds⟩
    rw [mirrors.indexed.deleteLogEntriesFrom_entries positive inside] at at_j
    exact mirrors.indexed.take _ j e at_j

/-- A request that can be followed leaves everything stored, or has changed nothing. -/
theorem Mirrors.checkConflictEntryAndAppendNew (mirrors : Mirrors f lm q)
    (positive : 1 ≤ raftIndex) (bound : raftIndex ≤ lm.entries.length + 1)
    (places : ∀ i e, entries[i]? = some e → e.index = raftIndex + i) (fits : ∀ e ∈ entries, f.Fits e)
    (clean : q.rewritesCleanly f raftIndex entries lm) :
    ∃ lm' infos, lm.checkConflictEntryAndAppendNew raftIndex entries = some (lm', infos) ∧
      (Stores f lm' (q.checkConflictEntryAndAppendNew f raftIndex entries lm) ∨
        lm' = lm ∧ q.checkConflictEntryAndAppendNew f raftIndex entries lm = q ∧
          lm.conflictIndex raftIndex entries = none ∧ raftIndex + entries.length ≤ lm.entries.length + 1) := by
  induction entries generalizing raftIndex with
  | nil => exact ⟨lm, [], rfl, Or.inr ⟨rfl, rfl, rfl, bound⟩⟩
  | cons entry rest ih =>
    have last := mirrors.indexed.lastLogEntryIndex_eq
    unfold rewritesCleanly at clean
    by_cases ended : lm.lastLogEntryIndex < raftIndex
    · rw [if_pos ended] at clean
      unfold LogManager.checkConflictEntryAndAppendNew PersistQueue.checkConflictEntryAndAppendNew
      rw [if_pos ended, if_pos ended]
      refine ⟨_, _, rfl, Or.inl ((mirrors.stores clean).appendNew (fun i e at_i => ?_) fits)⟩
      have := places i e at_i
      omega
    · have inside : raftIndex ≤ lm.entries.length := by omega
      rw [if_neg ended] at clean
      by_cases conflict : entry.term ≠ lm.termAt raftIndex
      · rw [if_pos conflict] at clean
        unfold LogManager.checkConflictEntryAndAppendNew PersistQueue.checkConflictEntryAndAppendNew
        rw [if_neg ended, if_neg ended, if_pos conflict, if_pos conflict]
        have cut := mirrors.conflict positive inside clean.1 clean.2
        refine ⟨_, _, rfl, Or.inl (cut.appendNew (fun i e at_i => ?_) fits)⟩
        have := places i e at_i
        rw [mirrors.indexed.deleteLogEntriesFrom_entries positive inside, List.length_take]
        omega
      · rw [if_neg conflict] at clean
        split at clean
        · obtain ⟨settled, cuts, whole⟩ := clean
          have rewriting := (mirrors.stores settled).rewriting positive inside cuts
          obtain ⟨lm', infos, run, stores⟩ := rewriting.overwritesToEnd whole places fits
          exact ⟨lm', infos, run, Or.inl stores⟩
        · rename_i kept
          have found : lm.getSingleLogEntry raftIndex = some lm.entries[raftIndex - 1] :=
            mirrors.indexed.getSingleLogEntry_eq_some.mpr ⟨positive, List.getElem?_eq_getElem (by omega)⟩
          rw [found, Option.any_some] at kept
          have placesRest : ∀ i e, rest[i]? = some e → e.index = raftIndex + 1 + i := by
            intro i e at_i
            have := places (i + 1) e at_i
            omega
          obtain ⟨lm', infos, run, outcome⟩ := ih (by omega) (by omega) placesRest
            (fun e member => fits e (List.mem_cons_of_mem entry member)) clean
          unfold LogManager.checkConflictEntryAndAppendNew PersistQueue.checkConflictEntryAndAppendNew
            LogManager.conflictIndex
          rw [if_neg ended, if_neg ended, if_neg ended, if_neg conflict, if_neg conflict, if_neg conflict, found]
          dsimp only
          rw [if_neg kept, if_neg kept, run]
          refine ⟨lm', _, rfl, outcome.imp_right ?_⟩
          rintro ⟨same, idle, none, reach⟩
          refine ⟨same, idle, none, ?_⟩
          rw [List.length_cons]
          omega

/-- A takeover that decodes stripes rewrites the log to its end, when nothing waits to be written. -/
def recoversCleanly (f : StorageFormat) (s : RaftState) (q : PersistQueue) : Prop :=
  s.livenessLevel + 1 ≤ s.preleaderStripeStore.collectedFragmentsCnt → s.preleaderStripeStore.stripes = [] ∨
    q.Settled ∧ 1 ≤ s.preleaderStripeStore.startIndex ∧
      s.preleaderStripeStore.startIndex + s.preleaderStripeStore.stripes.length = s.lm.lastLogEntryIndex + 1 ∧
      q.file.CutsCleanly f s.preleaderStripeStore.startIndex ∧
      decodesCleanly f s s.preleaderStripeStore.startIndex s.preleaderStripeStore.stripes

theorem Mirrors.preLeaderBecomeLeader (mirrors : Mirrors f s.lm q) (clean : recoversCleanly f s q) :
    Mirrors f s.preLeaderBecomeLeader.lm (q.preLeaderBecomeLeader f s) := by
  rw [RaftState.preLeaderBecomeLeader_lm]
  unfold PersistQueue.preLeaderBecomeLeader
  split
  · rename_i enough
    unfold RaftState.decodeCollectedStripe
    rcases clean enough with nothing | ⟨settled, positive, ended, cuts, decodes⟩
    · rw [nothing]
      exact mirrors.sync
    · rw [mirrors.indexed.lastLogEntryIndex_eq] at ended
      by_cases nothing : s.preleaderStripeStore.stripes = []
      · rw [nothing]
        exact mirrors.sync
      · have some := List.length_pos_iff.mpr nothing
        have rewriting := (mirrors.stores settled).rewriting positive (by omega) cuts
        exact (rewriting.decodeStripes ended decodes).mirrors
  · exact mirrors

end Stores

end PersistQueue

end FlexRaft
