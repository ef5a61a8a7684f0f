import FlexRaft.StripeRoundTrip
import FlexRaft.RaftStruct
import FlexRaft.Lib.ByteReader

namespace FlexRaft

/-- Where the memory of an entry lies: its three slices and the storage of its three vectors. -/
structure EntryMemory where
  commandData : Nat
  notEncoded : Nat
  fragment : Nat
  fragments : Nat
  fragIds : Nat
  placement : Nat

/-- Addresses are 64 bits wide, and an empty slice or vector has none. -/
structure EntryMemory.Holds (m : EntryMemory) (e : LogEntry) : Prop where
  commandData : m.commandData < 2 ^ 64 ∧ (m.commandData = 0 ↔ e.commandDataField = [])
  notEncoded : m.notEncoded < 2 ^ 64 ∧ (m.notEncoded = 0 ↔ e.notEncodedField = [])
  fragment : m.fragment < 2 ^ 64 ∧ (m.fragment = 0 ↔ e.fragmentField = [])
  fragments : m.fragments + 24 * e.fragments.length < 2 ^ 64 ∧ (m.fragments = 0 ↔ e.fragments = [])
  fragIds : m.fragIds + 4 * e.fragIds.length < 2 ^ 64 ∧ (m.fragIds = 0 ↔ e.fragIds = [])
  placement : m.placement + 16 * e.placement.length < 2 ^ 64 ∧ (m.placement = 0 ↔ e.placement = [])

/-- Why an entry is not read back: a decoder returns `nullptr`, reads behind the end of the buffer, frees and
overwrites memory that is not its own, or throws because it cannot allocate what a length asks for. -/
inductive ParseFault
  | refused
  | overrun
  | corrupted
  | unallocated
  deriving DecidableEq, Repr

namespace LogEntry

def setNotEncodedSlice (e : LogEntry) (slice : Slice) : LogEntry := { e with notEncodedField := slice }

def setFragmentSlice (e : LogEntry) (slice : Slice) : LogEntry := { e with fragmentField := slice }

/-- Only 256 fragments are taken over, and those of 1 MiB or more become empty ones. The id of an empty fragment is
`-1`, the others are numbered. -/
def setFragments (e : LogEntry) (frags : List Slice) : LogEntry :=
  let kept := (frags.take 256).map fun frag => if frag.length < 1024 * 1024 then frag else []
  { e with
    fragments := kept
    fragIds := kept.zipIdx.map fun (frag, i) => if frag = [] then word32 (-1) else i }

def setFragIds (e : LogEntry) (ids : List Nat) : LogEntry := { e with fragIds := ids }

def setPlacement (e : LogEntry) (placement : List FragmentPlacement) : LogEntry := { e with placement := placement }

end LogEntry

def EntryType.word : EntryType → Nat
  | .kNormal => 0
  | .kFragments => 1

def EntryType.ofWord (n : Nat) : EntryType := if n = 0 then .kNormal else .kFragments

def FragmentKind.ofWord (n : Nat) : FragmentKind :=
  if n = 0 then .kData else if n = 1 then .kLocalParity else .kGlobalParity

/-- A number that an `int` was written as. -/
def intOfWord (n : Nat) : Int := if n < 2 ^ 31 then n else (n : Int) - 2 ^ 32

namespace Serializer

open ByteReader

def putPrefixLengthSlice (slice : Slice) : Slice := encodeFixed64 slice.length ++ slice

/-- A `Slice` in memory: its address, its size and whether it owns the bytes. -/
def sliceImage (address : Nat) (slice : Slice) : Slice :=
  encodeFixed64 address ++ encodeFixed64 slice.length ++ encodeFixed64 (if slice = [] then 0 else 1)

/-- A vector in memory: the beginning and the end of its elements, and the end of its storage. -/
def vectorImage (address size : Nat) : Slice :=
  encodeFixed64 address ++ encodeFixed64 (address + size) ++ encodeFixed64 (address + size)

def scalarImage (e : LogEntry) : Slice :=
  encodeFixed32 e.term ++ encodeFixed32 e.index ++ encodeFixed32 e.type.word ++ serializeChunkInfo e.chunkInfo ++
    encodeFixed32 e.startOffset ++ encodeFixed32 e.commandSize

def memoryImage (m : EntryMemory) (e : LogEntry) : Slice :=
  sliceImage m.commandData e.commandDataField ++ sliceImage m.notEncoded e.notEncodedField ++
    sliceImage m.fragment e.fragmentField ++ vectorImage m.fragments (24 * e.fragments.length) ++
    vectorImage m.fragIds (4 * e.fragIds.length) ++ vectorImage m.placement (16 * e.placement.length)

def placementBytes (fp : FragmentPlacement) : Slice :=
  encodeFixed32 fp.fragId ++ encodeFixed32 (word32 fp.localGroup) ++ encodeFixed32 fp.nodeId ++ encodeFixed32 fp.kind.word

def fragmentBytes (frag : Nat × Slice) : Slice := encodeFixed32 frag.1 ++ putPrefixLengthSlice frag.2

/-- The fragments with their ids; one without an id gets its position. -/
def numberedFragments (e : LogEntry) : List (Nat × Slice) :=
  e.fragments.zipIdx.map fun (frag, i) => ((e.fragIds[i]?).getD i, frag)

/-- `serialize_logentry_helper`, which begins with the bytes of the object itself. -/
def serializeLogentry (m : EntryMemory) (e : LogEntry) : Slice :=
  scalarImage e ++ memoryImage m e ++ putPrefixLengthSlice e.notEncodedSlice ++ putPrefixLengthSlice e.fragmentSlice ++
    encodeFixed32 e.fragments.length ++ (numberedFragments e).flatMap fragmentBytes ++
    encodeFixed32 e.placement.length ++ e.placement.flatMap placementBytes

/-- `sizeof(LogEntry)`. -/
def headSize : Nat := 192

def readChunkInfo : ByteReader ParseFault ChunkInfo := do
  let k ← number .overrun 4
  let raftIndex ← number .overrun 4
  let l ← number .overrun 4
  let r ← number .overrun 4
  let lrcGroupId ← number .overrun 4
  let keySize ← number .overrun 4
  let totalSize ← number .overrun 4
  pure { k, raftIndex, l, r, lrcGroupId := intOfWord lrcGroupId, keySize, totalSize }

def readScalars : ByteReader ParseFault LogEntry := do
  let term ← number .overrun 4
  let index ← number .overrun 4
  let type ← number .overrun 4
  let chunkInfo ← readChunkInfo
  let startOffset ← number .overrun 4
  let commandSize ← number .overrun 4
  pure { term, index, type := .ofWord type, chunkInfo, startOffset, commandSize }

/-- Whether a copied slice counts as owned, so that the next setter frees its bytes. -/
def readSliceImage : ByteReader ParseFault Bool := do
  let address ← number .overrun 8
  let size ← number .overrun 8
  let owned ← number .overrun 8
  pure (decide (address ≠ 0 ∧ 0 < size ∧ owned % 256 ≠ 0))

/-- Whether a copied vector has storage, which the next setter frees or writes to. -/
def readVectorImage : ByteReader ParseFault Bool := do
  let begins ← number .overrun 8
  let _ends ← number .overrun 8
  let _storage ← number .overrun 8
  pure (decide (begins ≠ 0))

/-- Whether the copied object refers to any memory. -/
def readMemoryImage : ByteReader ParseFault Bool := do
  let commandData ← readSliceImage
  let notEncoded ← readSliceImage
  let fragment ← readSliceImage
  let fragments ← readVectorImage
  let fragIds ← readVectorImage
  let placement ← readVectorImage
  pure (commandData || notEncoded || fragment || fragments || fragIds || placement)

def parsePrefixLengthSlice (fault : ParseFault) : ByteReader ParseFault Slice := do
  let size ← number fault 8
  block fault size

/-- A size so large that adding eight to it wraps around passes the check, and then `new` throws. -/
def parsePrefixLengthSliceWithBound : ByteReader ParseFault Slice := do
  let size ← number .refused 8
  block (if size + 8 < 2 ^ 64 then .refused else .unallocated) size

def readFragment (fault : ParseFault) : ByteReader ParseFault (Nat × Slice) := do
  let fragId ← number fault 4
  let size ← number fault 8
  refuseIf .refused (decide (16 * 1024 * 1024 < size))
  let data ← block fault size
  pure (fragId, data)

def readPlacement : ByteReader ParseFault FragmentPlacement := do
  let fragId ← number .overrun 4
  let localGroup ← number .overrun 4
  let nodeId ← number .overrun 4
  let kind ← number .overrun 4
  pure { fragId, localGroup := intOfWord localGroup, nodeId, kind := .ofWord kind }

/-- What both decoders make of the parts they have read. -/
def finishEntry (scalars : LogEntry) (notEncoded frag : Slice) (frags : List (Nat × Slice))
    (placement : List FragmentPlacement) : LogEntry :=
  let entry := (scalars.setNotEncodedSlice notEncoded).setFragmentSlice frag
  let entry := if entry.type = .kNormal then entry.setCommandData notEncoded else entry
  ((entry.setFragments (frags.map Prod.snd)).setFragIds (frags.map Prod.fst)).setPlacement placement

/-- `deserialize_logentry_helper` copies the object with its addresses and then sets its parts anew. -/
def deserializeLogentryHelper : ByteReader ParseFault LogEntry := do
  let scalars ← readScalars
  let refers ← readMemoryImage
  refuseIf .corrupted refers
  let notEncoded ← parsePrefixLengthSlice .overrun
  let frag ← parsePrefixLengthSlice .overrun
  let fragCount ← number .overrun 4
  let frags ← times (readFragment .overrun) (min fragCount 1024)
  let placementCount ← number .overrun 4
  let placement ← times readPlacement (min placementCount 256)
  pure (finishEntry scalars notEncoded frag frags placement)

/-- `deserialize_logentry_withbound` copies the numbers one by one. It does not check that the two counts are there. -/
def deserializeLogentryWithbound : ByteReader ParseFault LogEntry := do
  need .refused headSize
  let scalars ← readScalars
  let _memory ← readMemoryImage
  let notEncoded ← parsePrefixLengthSliceWithBound
  let frag ← parsePrefixLengthSliceWithBound
  let fragCount ← number .overrun 4
  let frags ← times (readFragment .refused) fragCount
  let placementCount ← number .overrun 4
  let placement ← times (do need .refused 16; readPlacement) placementCount
  pure (finishEntry scalars notEncoded frag frags placement)

def appendEntriesHeader (args : AppendEntriesArgs) : Slice :=
  encodeFixed32 args.term ++ encodeFixed32 args.groupId ++ encodeFixed32 args.leaderId ++ encodeFixed32 args.prevLogIndex ++
    encodeFixed32 args.prevLogTerm ++ encodeFixed32 args.prevK ++ encodeFixed32 args.leaderCommit ++ encodeFixed32 0 ++
    encodeFixed64 args.entryCnt

/-- `Serialize(const AppendEntriesArgs *)`; entry `i` of the vector has its memory at `memory i`. -/
def serializeAppendEntries (memory : Nat → EntryMemory) (args : AppendEntriesArgs) : Slice :=
  appendEntriesHeader args ++ args.entries.zipIdx.flatMap fun (e, i) => serializeLogentry (memory i) e

/-- The loop stops at the first entry that is refused and keeps those before it. -/
def readEntries : Nat → Slice → Except ParseFault (List LogEntry)
  | 0, _ => .ok []
  | count + 1, src =>
    match deserializeLogentryWithbound.run src with
    | .ok (entry, rest) => (readEntries count rest).map (entry :: ·)
    | .error .refused => .ok []
    | .error fault => .error fault

def readAppendEntriesHeader : ByteReader ParseFault AppendEntriesArgs := do
  let term ← number .refused 4
  let groupId ← number .refused 4
  let leaderId ← number .refused 4
  let prevLogIndex ← number .refused 4
  let prevLogTerm ← number .refused 4
  let prevK ← number .refused 4
  let leaderCommit ← number .refused 4
  let _padding ← number .refused 4
  let entryCnt ← number .refused 8
  pure { term, groupId, leaderId, prevLogIndex, prevLogTerm, prevK, leaderCommit, entryCnt, entries := [] }

def deserializeAppendEntries (buffer : Slice) : Except ParseFault AppendEntriesArgs := do
  let (args, src) ← readAppendEntriesHeader.run buffer
  let entries ← readEntries args.entryCnt src
  pure { args with entries := entries }

/-- `getSerializeSize`, a multiple of four. -/
def logentrySize (e : LogEntry) : Nat :=
  let ret := headSize + e.notEncodedSlice.length + e.fragmentSlice.length + 16 +
    4 + (e.fragments.map fun frag => 12 + frag.length).sum + 4 + 16 * e.placement.length
  (ret - 1) / 4 * 4 + 4

def appendEntriesSize (args : AppendEntriesArgs) : Nat := (40 + (args.entries.map logentrySize).sum - 1) / 4 * 4 + 4

end Serializer

end FlexRaft
