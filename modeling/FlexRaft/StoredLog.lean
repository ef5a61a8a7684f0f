import FlexRaft.Storage
import FlexRaft.Lib.Steps

namespace FlexRaft

variable {f : StorageFormat}

/-- What a log file stands for: the list of its entries, index `i` at place `i - 1`. -/
abbrev ListLog := List LogEntry

namespace ListLog

def append (log : ListLog) (ent : LogEntry) : ListLog := if ent.index = log.length + 1 then log ++ [ent] else log

/-- Replaces the entry of an index, or appends. -/
def put (log : ListLog) (ent : LogEntry) : ListLog :=
  if ent.index ≤ log.length then log.set (ent.index - 1) ent else log ++ [ent]

def deleteFrom (log : ListLog) (raftIndex : Nat) : ListLog := log.take (raftIndex - 1)

def step (log : ListLog) : StorageOp → ListLog
  | .appendEntry ent => log.append ent
  | .persistEntries _ _ batch => batch.foldl put log
  | .overwriteEntry raftIndex ent => (log.deleteFrom raftIndex).append ent
  | .deleteEntriesFrom raftIndex => log.deleteFrom raftIndex
  | .persistState _ => log
  | .sync => log
  | .reopen _ => log

end ListLog

/-- The entry survives the serializer and fits the read buffer. -/
def StorageFormat.Fits (f : StorageFormat) (ent : LogEntry) : Prop := f.codec.Readable f.initBufSize ent

/-- What the callers of a log file that ends at `last` promise. -/
def StorageOp.Valid (f : StorageFormat) (last : Nat) : StorageOp → Prop
  | .appendEntry ent => f.Fits ent
  | .persistEntries lo hi batch =>
    0 < lo ∧ lo ≤ last + 1 ∧ hi + 1 = lo + batch.length ∧ (∀ ent ∈ batch, f.Fits ent) ∧
      batch.map LogEntry.index = List.range' lo batch.length
  | .overwriteEntry _ ent => f.Fits ent
  | .reopen buf => buf.length = f.initBufSize
  | _ => True

namespace FileStorage

/-- The extent recorded for the index is the start of a record, and the records in force of all lower indices
lie before it. -/
def CutsCleanly (f : StorageFormat) (st : FileStorage) (raftIndex : Nat) : Prop :=
  0 < raftIndex ∧ ∃ extent ∈ st.extents raftIndex, extent.offset ∈ (st.records f).map Prod.fst ∧
    ∀ j < raftIndex, ∀ kept ∈ st.constructedExtents f j, kept.offset < extent.offset

instance (f : StorageFormat) (st : FileStorage) (raftIndex : Nat) : Decidable (st.CutsCleanly f raftIndex) :=
  inferInstanceAs (Decidable (0 < raftIndex ∧ ∃ extent ∈ st.extents raftIndex, extent.offset ∈ (st.records f).map Prod.fst ∧
    ∀ j < raftIndex, ∀ kept ∈ st.constructedExtents f j, kept.offset < extent.offset))

/-- The entries of `records`, as far as they are in force, are those of `log`. -/
def InForce (records log : List LogEntry) : Prop :=
  ∀ j < log.length, LastWins.latest LogEntry.index (j + 1) records = log[j]?

/-- The file consists of the given records, and the header in memory describes it. -/
structure Consists (f : StorageFormat) (st : FileStorage) (records : List LogEntry) : Prop where
  data : st.data = f.codec.bytes records
  fits : ∀ ent ∈ records, f.Fits ent
  positive : ∀ ent ∈ records, 0 < ent.index
  lastOff : st.header.lastOff = st.data.length
  room : f.initBufSize ≤ st.buf.length

/-- The file stands for `log`. -/
def Holds (f : StorageFormat) (st : FileStorage) (log : ListLog) : Prop :=
  ∃ records, st.Consists f records ∧ InForce records log ∧ st.lastIndex = log.length

section Records

variable {f : StorageFormat} {st : FileStorage} {records : List LogEntry} {log : ListLog}

theorem Consists.scan_file (consists : st.Consists f records) :
    st.records f = f.codec.layout 0 records ∧ (st.scan f).2.length = st.buf.length := by
  unfold FileStorage.records scan
  rw [consists.lastOff, consists.data]
  exact RecordCodec.scan_file consists.fits consists.room

theorem Holds.logEntries_eq (holds : st.Holds f log) : st.logEntries f = {} :: log := by
  obtain ⟨records, consists, inForce, last⟩ := holds
  have last' : st.header.lastLogIndex = log.length := last
  unfold logEntries
  rw [consists.scan_file.1, RecordCodec.layout_snd, last']
  apply List.ext_getElem?
  intro i
  by_cases inside : i ≤ log.length
  · rw [LastWins.replay_getElem? _ inside (by simp; omega)]
    cases i with
    | zero =>
      -- no record has index zero
      have absent : LastWins.latest LogEntry.index 0 records = none := by
        cases found : LastWins.latest LogEntry.index 0 records with
        | none => rfl
        | some ent =>
          obtain ⟨member, zero⟩ := LastWins.mem_of_latest found
          have := consists.positive ent member
          omega
      simp [absent]
    | succ j =>
      rw [inForce j (by omega), List.getElem?_cons_succ, List.getElem?_eq_getElem (by omega : j < log.length)]
      rfl
  · rw [List.getElem?_eq_none (by simp; omega), List.getElem?_eq_none (by simp; omega)]

theorem Holds.lastIndex_eq (holds : st.Holds f log) : st.lastIndex = log.length := by
  obtain ⟨_, _, _, last⟩ := holds
  exact last

theorem writeAt_end (data bytes : List UInt8) : writeAt data data.length bytes = data ++ bytes := by
  simp [writeAt, truncateTo]

theorem Consists.append {ent : LogEntry} (consists : st.Consists f records) (fits : f.Fits ent) (positive : 0 < ent.index) :
    (st.append f ent).Consists f (records ++ [ent]) where
  data := by
    change writeAt st.data st.header.lastOff (f.codec.encode ent) = _
    rw [consists.lastOff, writeAt_end, consists.data, RecordCodec.bytes_append, RecordCodec.bytes_singleton]
  fits := by
    intro e member
    rcases List.mem_append.mp member with old | new
    · exact consists.fits e old
    · rw [List.mem_singleton.mp new]
      exact fits
  positive := by
    intro e member
    rcases List.mem_append.mp member with old | new
    · exact consists.positive e old
    · rw [List.mem_singleton.mp new]
      exact positive
  lastOff := by
    change st.header.lastOff + (f.codec.encode ent).length = (writeAt st.data st.header.lastOff _).length
    rw [consists.lastOff, writeAt_end, List.length_append]
  room := by
    have room := consists.room
    change _ ≤ (f.codec.encode ent ++ st.buf.drop (f.codec.encode ent).length).length
    rw [List.length_append, List.length_drop]
    omega

/-- What a file consists of does not depend on the index and the term in its header. -/
theorem Consists.congr {st' : FileStorage} (consists : st.Consists f records) (data : st'.data = st.data)
    (off : st'.header.lastOff = st.header.lastOff) (buf : st'.buf.length = st.buf.length) : st'.Consists f records where
  data := data.trans consists.data
  fits := consists.fits
  positive := consists.positive
  lastOff := by rw [off, data, consists.lastOff]
  room := by rw [buf]; exact consists.room

end Records

section InForce

variable {records front back : List LogEntry} {log : ListLog} {ent : LogEntry}

theorem InForce.put (inForce : InForce records log) (positive : 0 < ent.index) (next : ent.index ≤ log.length + 1) :
    InForce (records ++ [ent]) (log.put ent) := by
  intro j bound
  unfold ListLog.put at bound ⊢
  rw [LastWins.latest_concat]
  by_cases old : ent.index ≤ log.length
  · rw [if_pos old, List.length_set] at bound
    rw [if_pos old]
    by_cases here : ent.index = j + 1
    · rw [if_pos here, here, Nat.add_sub_cancel, List.getElem?_set_self bound]
    · rw [if_neg here, inForce j bound, List.getElem?_set_ne (by omega)]
  · rw [if_neg old, List.length_append, List.length_singleton] at bound
    rw [if_neg old]
    by_cases here : ent.index = j + 1
    · rw [if_pos here, List.getElem?_append_right (by omega)]
      have zero : j - log.length = 0 := by omega
      rw [zero, List.getElem?_cons_zero]
    · rw [if_neg here, List.getElem?_append_left (by omega)]
      exact inForce j (by omega)

theorem put_length (next : ent.index ≤ log.length + 1) : (log.put ent).length = max log.length ent.index := by
  unfold ListLog.put
  split
  · rw [List.length_set]
    omega
  · rw [List.length_append, List.length_singleton]
    omega

theorem append_eq_put (next : ent.index = log.length + 1) : log.append ent = log.put ent := by
  unfold ListLog.append ListLog.put
  rw [if_pos next, if_neg (by omega)]

theorem InForce.cut {raftIndex : Nat} (inForce : InForce (front ++ back) log)
    (kept : ∀ j < raftIndex, LastWins.latest LogEntry.index j front = LastWins.latest LogEntry.index j (front ++ back)) :
    InForce front (log.deleteFrom raftIndex) := by
  intro j bound
  rw [ListLog.deleteFrom, List.length_take] at bound
  rw [kept (j + 1) (by omega), inForce j (by omega), ListLog.deleteFrom, List.getElem?_take_of_lt (by omega)]

end InForce

section Ops

variable {f : StorageFormat} {st : FileStorage} {log : ListLog} {ent : LogEntry} {raftIndex lo : Nat}

theorem Holds.record (holds : st.Holds f log) (fits : f.Fits ent) (positive : 0 < ent.index)
    (next : ent.index ≤ log.length + 1) :
    ((st.append f ent).maybeUpdateLastIndexAndTerm ent.index ent.term).Holds f (log.put ent) := by
  obtain ⟨records, consists, inForce, last⟩ := holds
  have last' : st.header.lastLogIndex = log.length := last
  have same : (st.append f ent).header.lastLogIndex = st.header.lastLogIndex := rfl
  refine ⟨records ++ [ent], ?_, inForce.put positive next, ?_⟩
  · have written := consists.append fits positive
    unfold maybeUpdateLastIndexAndTerm
    split
    · exact written.congr rfl rfl rfl
    · exact written
  · rw [put_length next]
    unfold maybeUpdateLastIndexAndTerm lastIndex
    rw [same, last']
    split
    · change ent.index = _
      omega
    · rw [same, last']
      omega

theorem Holds.congr {st' : FileStorage} (holds : st.Holds f log) (data : st'.data = st.data)
    (off : st'.header.lastOff = st.header.lastOff) (last : st'.header.lastLogIndex = st.header.lastLogIndex)
    (buf : st'.buf.length = st.buf.length) : st'.Holds f log := by
  obtain ⟨records, consists, inForce, length⟩ := holds
  exact ⟨records, consists.congr data off buf, inForce, last.trans length⟩

theorem Holds.appendEntry (holds : st.Holds f log) (fits : f.Fits ent) :
    (st.appendEntry f ent).Holds f (log.append ent) := by
  have last : st.header.lastLogIndex = log.length := holds.lastIndex_eq
  unfold FileStorage.appendEntry
  rw [last]
  by_cases next : ent.index = log.length + 1
  · rw [if_neg (not_not_intro next), append_eq_put next]
    exact (holds.record fits (by omega) (by omega)).congr rfl rfl rfl rfl
  · rw [if_pos next, ListLog.append, if_neg next]
    exact holds

theorem Holds.deleteEntriesFrom (holds : st.Holds f log)
    (clean : raftIndex ≤ st.lastIndex → st.CutsCleanly f raftIndex) :
    (st.deleteEntriesFrom raftIndex).Holds f (log.deleteFrom raftIndex) := by
  obtain ⟨records, consists, inForce, last⟩ := holds
  have last' : st.header.lastLogIndex = log.length := last
  unfold FileStorage.deleteEntriesFrom
  by_cases beyond : st.header.lastLogIndex < raftIndex
  · rw [if_pos beyond, ListLog.deleteFrom, List.take_of_length_le (by omega)]
    exact ⟨records, consists, inForce, last⟩
  · obtain ⟨positive, extent, found, start, before⟩ := clean (Nat.le_of_not_lt beyond)
    rw [if_neg beyond, found]
    -- the records before the extent are what the truncated file consists of
    rw [consists.scan_file.1] at start
    obtain ⟨⟨off, first⟩, member, rfl⟩ := List.mem_map.mp start
    obtain ⟨front, back, rfl, place⟩ := RecordCodec.split_of_mem_layout member
    have kept : ∀ j < raftIndex, LastWins.latest LogEntry.index j front =
        LastWins.latest LogEntry.index j (front ++ first :: back) := by
      intro j below
      apply RecordCodec.latest_of_cut (c := f.codec)
      intro p found
      have early := before j below { offset := p.1, size := f.codec.size p.2 } (by
        rw [constructedExtents, consists.scan_file.1]
        exact congrArg (Option.map _) found)
      dsimp only at early
      omega
    have cut : truncateTo st.data extent.offset = f.codec.bytes front := by
      rw [consists.data, RecordCodec.bytes_append, place, Nat.zero_add, truncateTo, List.take_left, List.length_append,
        Nat.sub_eq_zero_of_le (Nat.le_add_right _ _), List.replicate_zero, List.append_nil]
    refine ⟨front, ?_, inForce.cut kept, ?_⟩
    · exact {
        data := cut
        fits := fun e member => consists.fits e (List.mem_append_left _ member)
        positive := fun e member => consists.positive e (List.mem_append_left _ member)
        lastOff := by
          change extent.offset = (truncateTo st.data extent.offset).length
          rw [cut, place, Nat.zero_add]
        room := consists.room }
    · change predIndex raftIndex = _
      rw [predIndex, if_neg (by omega), ListLog.deleteFrom, List.length_take]
      omega

theorem Holds.overwriteEntry (holds : st.Holds f log) (fits : f.Fits ent)
    (clean : raftIndex ≤ st.lastIndex → st.CutsCleanly f raftIndex) :
    (st.overwriteEntry f raftIndex ent).Holds f ((log.deleteFrom raftIndex).append ent) :=
  (holds.deleteEntriesFrom clean).appendEntry fits

/-- The loop of `PersistEntries` gets through a consecutive batch. -/
theorem Holds.persistBatch {batch : List LogEntry} (holds : st.Holds f log)
    (fits : ∀ ent ∈ batch, f.Fits ent) (positive : 0 < lo) (next : lo ≤ log.length + 1)
    (consecutive : batch.map LogEntry.index = List.range' lo batch.length) :
    ∃ st', st.persistBatch f lo batch = some st' ∧ st'.Holds f (batch.foldl ListLog.put log) := by
  induction batch generalizing st log lo with
  | nil => exact ⟨st, rfl, holds⟩
  | cons ent rest ih =>
    rw [List.map_cons, List.length_cons, List.range'_succ] at consecutive
    obtain ⟨here, later⟩ := List.cons.inj consecutive
    have stored := holds.record (fits ent List.mem_cons_self) (by omega) (by omega)
    have length := put_length (show ent.index ≤ log.length + 1 by omega)
    obtain ⟨st', run, holds'⟩ := ih stored (fun e member => fits e (List.mem_cons_of_mem ent member))
      (show 0 < lo + 1 by omega) (by omega) later
    refine ⟨st', ?_, holds'⟩
    rw [FileStorage.persistBatch, if_neg (by omega)]
    exact run

theorem Holds.persistEntries {hi : Nat} {batch : List LogEntry} (holds : st.Holds f log)
    (valid : (StorageOp.persistEntries lo hi batch).Valid f log.length) :
    ∃ st', st.persistEntries f lo hi batch = some st' ∧ st'.Holds f (batch.foldl ListLog.put log) := by
  obtain ⟨positive, next, range, fits, consecutive⟩ := valid
  obtain ⟨st', run, holds'⟩ := holds.persistBatch fits positive next consecutive
  unfold FileStorage.persistEntries
  by_cases nothing : hi < lo
  · have empty : batch = [] := List.eq_nil_of_length_eq_zero (by omega)
    subst empty
    exact ⟨st, if_pos nothing, holds⟩
  · rw [if_neg nothing, run]
    exact ⟨st'.persistHeader, rfl, holds'.congr rfl rfl rfl rfl⟩

theorem Holds.reopen {buf : List UInt8} (holds : st.Holds f log) (synced : st.disk = st.header)
    (size : buf.length = f.initBufSize) : (st.reopen f buf).Holds f log := by
  obtain ⟨records, consists, inForce, last⟩ := holds
  let fresh : FileStorage := { header := st.disk, disk := st.disk, data := st.data, buf := buf, extents := fun _ => none }
  have same : fresh.Consists f records := {
    data := consists.data
    fits := consists.fits
    positive := consists.positive
    lastOff := by
      change st.disk.lastOff = _
      rw [synced]
      exact consists.lastOff
    room := size.ge }
  refine ⟨records, same.congr rfl rfl same.scan_file.2, inForce, ?_⟩
  change st.disk.lastLogIndex = _
  rw [synced]
  exact last

end Ops

end FileStorage

namespace StorageOp

/-- A deletion finds an extent at which it cuts cleanly. -/
def Clean (f : StorageFormat) (st : FileStorage) : StorageOp → Prop
  | .overwriteEntry raftIndex _ => raftIndex ≤ st.lastIndex → st.CutsCleanly f raftIndex
  | .deleteEntriesFrom raftIndex => raftIndex ≤ st.lastIndex → st.CutsCleanly f raftIndex
  | _ => True

/-- The file is opened again only with a current header on disk. -/
def Synced (st : FileStorage) : StorageOp → Prop
  | .reopen _ => st.disk = st.header
  | _ => True

end StorageOp

/-- A call to the log file, and what it means for the list. -/
def stepWithList (f : StorageFormat) (p : FileStorage × ListLog) (op : StorageOp) : Option (FileStorage × ListLog) :=
  (p.1.step f op).map fun st => (st, p.2.step op)

/-- The calls that the users of a log file may make. -/
def isCalled (f : StorageFormat) (p : FileStorage × ListLog) (op : StorageOp) : Prop :=
  op.Valid f p.1.lastIndex ∧ op.Synced p.1

theorem FileStorage.Holds.step {st : FileStorage} {log : ListLog} {op : StorageOp}
    (holds : st.Holds f log) (called : isCalled f (st, log) op) (clean : op.Clean f st) :
    ∃ st', st.step f op = some st' ∧ st'.Holds f (log.step op) := by
  have last := holds.lastIndex_eq
  obtain ⟨valid, synced⟩ := called
  cases op with
  | appendEntry ent => exact ⟨_, rfl, holds.appendEntry valid⟩
  | persistEntries lo hi batch =>
    dsimp only at valid
    rw [last] at valid
    exact holds.persistEntries valid
  | overwriteEntry raftIndex ent => exact ⟨_, rfl, holds.overwriteEntry valid clean⟩
  | deleteEntriesFrom raftIndex => exact ⟨_, rfl, holds.deleteEntriesFrom clean⟩
  | persistState state =>
    refine ⟨_, rfl, ?_⟩
    unfold FileStorage.persistState
    split
    · exact holds.congr rfl rfl rfl rfl
    · exact holds
  | sync => exact ⟨_, rfl, holds.congr rfl rfl rfl rfl⟩
  | reopen buf => exact ⟨_, rfl, holds.reopen synced valid⟩

theorem FileStorage.holds_openNew {buf : List UInt8} (size : buf.length = f.initBufSize) :
    (FileStorage.openNew f buf).Holds f [] := by
  let fresh : FileStorage :=
    { header := FileStorage.initialHeader, disk := FileStorage.initialHeader, data := [], buf := buf,
      extents := fun _ => none }
  have empty : fresh.Consists f [] := {
    data := rfl
    fits := fun _ member => absurd member List.not_mem_nil
    positive := fun _ member => absurd member List.not_mem_nil
    lastOff := rfl
    room := size.ge }
  exact ⟨[], empty.congr rfl rfl empty.scan_file.2, fun j bound => absurd bound (Nat.not_lt_zero j), rfl⟩

/-- A log file reads as the list that the same calls make, and no permitted call fails an assertion, in every run
whose deletions cut cleanly. -/
theorem fileStorage_refines_list {f : StorageFormat} {buf : List UInt8} {st : FileStorage} {log : ListLog}
    (size : buf.length = f.initBufSize)
    (reach : Steps.Reach (stepWithList f) (fun p op => isCalled f p op ∧ op.Clean f p.1)
      (FileStorage.openNew f buf, []) (st, log)) :
    st.logEntries f = {} :: log ∧
      ∀ op, isCalled f (st, log) op → op.Clean f st → (st.step f op).isSome := by
  have holds : st.Holds f log := by
    refine reach.holds (P := fun p => p.1.Holds f p.2) (FileStorage.holds_openNew size) ?_
    intro p op p' holds allowed steps
    obtain ⟨st', run, holds'⟩ := holds.step allowed.1 allowed.2
    rw [stepWithList, run] at steps
    cases steps
    exact holds'
  refine ⟨holds.logEntries_eq, fun op called clean => ?_⟩
  obtain ⟨st', run, _⟩ := holds.step called clean
  rw [run]
  rfl

/-- A serializer that keeps the term and the index of an entry, for entries that have nothing else. -/
def bareFormat : StorageFormat where
  codec :=
    { headSize := 2
      headSize_pos := by decide
      size := fun _ => 2
      headSize_le := fun _ => Nat.le_refl 2
      encode := fun ent => [UInt8.ofNat ent.term, UInt8.ofNat ent.index]
      encode_length := fun _ => rfl
      decode := fun
        | term :: index :: _ => { term := term.toNat, index := index.toNat }
        | _ => {} }
  initBufSize := 4

/-- An entry with nothing but a term and an index. -/
def bareEntry (term index : Nat) : LogEntry := { term := term, index := index }

theorem bareFormat_fits {term index : Nat} (term_lt : term < 256) (index_lt : index < 256) :
    bareFormat.Fits (bareEntry term index) := by
  refine ⟨show 2 ≤ 4 by decide, fun rest => ?_⟩
  change bareEntry (UInt8.ofNat term).toNat (UInt8.ofNat index).toNat = _
  rw [UInt8.toNat_ofNat', UInt8.toNat_ofNat', Nat.mod_eq_of_lt term_lt, Nat.mod_eq_of_lt index_lt]

/-- Appending, persisting a batch and opening the file again, after which the batch can be cut off. -/
theorem fileStorage_refines_list_bareEntries : ∃ st log,
    Steps.Reach (stepWithList bareFormat) (fun p op => isCalled bareFormat p op ∧ op.Clean bareFormat p.1)
      (FileStorage.openNew bareFormat [0, 0, 0, 0], []) (st, log) ∧
    log = [bareEntry 1 1] ∧ st.logEntries bareFormat = {} :: log := by
  have run : Steps.Reach (stepWithList bareFormat) (fun p op => isCalled bareFormat p op ∧ op.Clean bareFormat p.1)
      (FileStorage.openNew bareFormat [0, 0, 0, 0], []) (_, _) :=
    ((((Steps.Reach.refl.next (l := .appendEntry (bareEntry 1 1))
      ⟨⟨bareFormat_fits (by decide) (by decide), trivial⟩, trivial⟩ rfl).next
      (l := .persistEntries 2 2 [bareEntry 1 2])
      ⟨⟨⟨by decide, by decide, by decide, by simpa using bareFormat_fits (by decide) (by decide), by decide⟩, trivial⟩,
        trivial⟩ rfl).next (l := .sync) ⟨⟨trivial, trivial⟩, trivial⟩ rfl).next
      (l := .reopen [0, 0, 0, 0]) ⟨⟨rfl, rfl⟩, trivial⟩ rfl).next
      (l := .deleteEntriesFrom 2) ⟨⟨trivial, trivial⟩, fun _ => by decide⟩ rfl
  exact ⟨_, _, run, by decide, (fileStorage_refines_list (by decide) run).1⟩

/-- A persisted entry has no extent, so a deletion passes over it. -/
theorem persisted_entry_not_deleted : ∃ st log,
    Steps.Reach (stepWithList bareFormat) (isCalled bareFormat) (FileStorage.openNew bareFormat [0, 0, 0, 0], [])
      (st, log) ∧
    st.logEntries bareFormat ≠ {} :: log := by
  refine ⟨_, _, (Steps.Reach.refl.next (l := .persistEntries 1 1 [bareEntry 1 1])
    ⟨⟨by decide, by decide, by decide, by simpa using bareFormat_fits (by decide) (by decide), by decide⟩, trivial⟩
    rfl).next (l := .deleteEntriesFrom 1) ⟨trivial, trivial⟩ rfl, ?_⟩
  decide

end FlexRaft
