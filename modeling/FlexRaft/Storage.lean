import FlexRaft.RaftState
import FlexRaft.Lib.RecordFile

namespace FlexRaft

/-- How `FileStorage` writes and reads entries. `codec` is the serializer: `headSize` is `sizeof(LogEntry)`
and `size` is `getSerializeSize`, whose padding counts as written. `initBufSize` is `kInitBufSize`. -/
structure StorageFormat where
  codec : RecordCodec LogEntry
  initBufSize : Nat

/-- The header of the log file. `lastOff` counts from the end of the header. -/
structure Header where
  raftState : PersistRaftState
  lastLogIndex : Nat
  lastLogTerm : Nat
  lastOff : Nat
  deriving DecidableEq, Repr

/-- Where an entry lies in the file; the offset counts from the end of the header. -/
structure EntryExtent where
  offset : Nat
  size : Nat
  deriving DecidableEq, Repr

/-- An open log file. `header` is the copy in memory and `disk` the one in the file, `data` the bytes behind
it. `buf` is the internal buffer of `buf_size_` bytes. -/
structure FileStorage where
  header : Header
  disk : Header
  data : List UInt8
  buf : List UInt8
  extents : Nat → Option EntryExtent

/-- `ftruncate`: a longer size fills up with zeros. -/
def truncateTo (data : List UInt8) (size : Nat) : List UInt8 :=
  data.take size ++ List.replicate (size - data.length) 0

/-- `lseek` and `write`. -/
def writeAt (data : List UInt8) (off : Nat) (bytes : List UInt8) : List UInt8 :=
  truncateTo data off ++ bytes ++ data.drop (off + bytes.length)

namespace FileStorage

def lastIndex (st : FileStorage) : Nat := st.header.lastLogIndex

def persistHeader (st : FileStorage) : FileStorage := { st with disk := st.header }

def sync (st : FileStorage) : FileStorage := st.persistHeader

def persistState (st : FileStorage) (state : PersistRaftState) : FileStorage :=
  if state.valid then { st with header := { st.header with raftState := state } }.persistHeader else st

def updateExtents (st : FileStorage) (raftIndex : Nat) (extent : EntryExtent) : FileStorage :=
  { st with extents := fun i => if i = raftIndex then some extent else st.extents i }

def maybeUpdateLastIndexAndTerm (st : FileStorage) (raftIndex raftTerm : Nat) : FileStorage :=
  if st.header.lastLogIndex < raftIndex then
    { st with header := { st.header with lastLogIndex := raftIndex, lastLogTerm := raftTerm } }
  else st

section Format

variable (f : StorageFormat)

/-- Serializes the entry into the buffer, which grows if it is too small, and appends it to the file. -/
def append (st : FileStorage) (ent : LogEntry) : FileStorage :=
  let bytes := f.codec.encode ent
  { st with
    buf := bytes ++ st.buf.drop bytes.length
    data := writeAt st.data st.header.lastOff bytes
    header := { st.header with lastOff := st.header.lastOff + bytes.length } }

/-- The loop of `PersistEntries`; `none` where its assertion fails. No extent is recorded. -/
def persistBatch : Nat → List LogEntry → FileStorage → Option FileStorage
  | _, [], st => some st
  | checkRaftIndex, ent :: rest, st =>
    if checkRaftIndex ≠ ent.index then none
    else persistBatch (checkRaftIndex + 1) rest ((st.append f ent).maybeUpdateLastIndexAndTerm ent.index ent.term)

def persistEntries (st : FileStorage) (lo hi : Nat) (batch : List LogEntry) : Option FileStorage :=
  if hi < lo then some st else (st.persistBatch f lo batch).map persistHeader

/-- The loop that `LogEntries` and `ConstructExtents` have in common. -/
def scan (st : FileStorage) : List (Nat × LogEntry) × List UInt8 :=
  f.codec.scan st.data st.header.lastOff (st.header.lastOff + 1) 0 st.buf

/-- The records that a pass over the file finds, with their offsets. -/
def records (st : FileStorage) : List (Nat × LogEntry) := (st.scan f).1

/-- What `LogEntries` returns. The entry at index zero is there for alignment. -/
def logEntries (st : FileStorage) : List LogEntry :=
  LastWins.replay LogEntry.index st.header.lastLogIndex (List.replicate (st.header.lastLogIndex + 1) {})
    ((st.records f).map Prod.snd)

def appendEntry (st : FileStorage) (ent : LogEntry) : FileStorage :=
  if ent.index ≠ st.header.lastLogIndex + 1 then st
  else ((st.append f ent).maybeUpdateLastIndexAndTerm ent.index ent.term).updateExtents ent.index
    { offset := st.header.lastOff, size := f.codec.size ent }

/-- Nothing happens for an index that has no extent. The extents of the deleted entries stay. -/
def deleteEntriesFrom (st : FileStorage) (raftIndex : Nat) : FileStorage :=
  if st.header.lastLogIndex < raftIndex then st
  else match st.extents raftIndex with
    | none => st
    | some extent =>
      { st with
        data := truncateTo st.data extent.offset
        header := { st.header with lastLogIndex := predIndex raftIndex, lastOff := extent.offset } }

def overwriteEntry (st : FileStorage) (raftIndex : Nat) (ent : LogEntry) : FileStorage :=
  (st.deleteEntriesFrom raftIndex).appendEntry f ent

/-- The extents that a pass over the file gives. -/
def constructedExtents (st : FileStorage) : Nat → Option EntryExtent := fun i =>
  (LastWins.latest (fun p => p.2.index) i (st.records f)).map fun p => { offset := p.1, size := f.codec.size p.2 }

def constructExtents (st : FileStorage) : FileStorage :=
  { st with buf := (st.scan f).2, extents := st.constructedExtents f }

/-- `InitializeHeaderOnCreation`. -/
def initialHeader : Header :=
  { raftState := { valid := false, persistedTerm := 0, persistedVoteFor := 0 }
    lastLogIndex := 0
    lastLogTerm := 0
    lastOff := 0 }

/-- `Open` on a file with a complete header. The bytes of a new buffer are arbitrary. -/
def openFile (disk : Header) (data buf : List UInt8) : FileStorage :=
  { header := disk, disk := disk, data := data, buf := buf, extents := fun _ => none : FileStorage }.constructExtents f

/-- `Open` on a new file. -/
def openNew (buf : List UInt8) : FileStorage := openFile f initialHeader [] buf

/-- The file is closed, or the process ends, and the file is opened again. -/
def reopen (st : FileStorage) (buf : List UInt8) : FileStorage := openFile f st.disk st.data buf

end Format

end FileStorage

/-- The calls that change a log file. -/
inductive StorageOp
  | appendEntry (ent : LogEntry)
  | persistEntries (lo hi : Nat) (batch : List LogEntry)
  | overwriteEntry (raftIndex : Nat) (ent : LogEntry)
  | deleteEntriesFrom (raftIndex : Nat)
  | persistState (state : PersistRaftState)
  | sync
  | reopen (buf : List UInt8)
  deriving DecidableEq, Repr

namespace FileStorage

def step (f : StorageFormat) (st : FileStorage) : StorageOp → Option FileStorage
  | .appendEntry ent => some (st.appendEntry f ent)
  | .persistEntries lo hi batch => st.persistEntries f lo hi batch
  | .overwriteEntry raftIndex ent => some (st.overwriteEntry f raftIndex ent)
  | .deleteEntriesFrom raftIndex => some (st.deleteEntriesFrom raftIndex)
  | .persistState state => some (st.persistState state)
  | .sync => some st.sync
  | .reopen buf => some (st.reopen f buf)

end FileStorage

/-- `NewLogManager` on a storage; `none` where its assertion on the last index fails. -/
def LogManager.newLogManager (f : StorageFormat) (st : FileStorage) : Option LogManager :=
  let lm := (st.logEntries f).tail.foldl LogManager.appendLogEntry {}
  if st.lastIndex = lm.lastLogEntryIndex then some lm else none

end FlexRaft
