import FlexRaft.WireRoundTrip

namespace FlexRaft

/-- A `std::vector`, or a `std::string` as one of bytes. Its size is a `size_t`. -/
structure StdVector (α : Type) where
  items : List α
  size : items.length < 2 ^ 64
  deriving DecidableEq, Repr

structure GroupMemberInfo where
  nodeId : UInt32
  raftRpcAddr : StdVector UInt8
  kvRpcAddr : StdVector UInt8
  raftLogFilename : StdVector UInt8
  kvDbname : StdVector UInt8
  deriving DecidableEq, Repr

structure GroupInfo where
  groupId : UInt32
  initiatorId : Int32
  initiatorGeneratedIndex : Int32
  complementaryGroupCount : Int32
  complementaryGroupIndices : StdVector UInt32
  members : StdVector GroupMemberInfo
  deriving DecidableEq

structure GroupNotificationArgs where
  sourceNodeId : UInt32
  totalGroups : Int32
  groups : StdVector GroupInfo
  deriving DecidableEq

namespace Serializer

open ByteReader

def putUInt32 (n : UInt32) : Slice := encodeFixed32 n.toNat

def putInt32 (n : Int32) : Slice := putUInt32 n.toUInt32

def putString (s : StdVector UInt8) : Slice := encodeFixed64 s.items.length ++ s.items

/-- The size of a vector, then its elements one after the other. -/
def putVector {α : Type} (put : α → Slice) (v : StdVector α) : Slice := encodeFixed64 v.items.length ++ v.items.flatMap put

def putMember (m : GroupMemberInfo) : Slice :=
  putUInt32 m.nodeId ++ putString m.raftRpcAddr ++ putString m.kvRpcAddr ++ putString m.raftLogFilename ++ putString m.kvDbname

def putGroup (g : GroupInfo) : Slice :=
  putUInt32 g.groupId ++ putInt32 g.initiatorId ++ putInt32 g.initiatorGeneratedIndex ++ putInt32 g.complementaryGroupCount ++
    putVector putUInt32 g.complementaryGroupIndices ++ putVector putMember g.members

/-- `Serialize(const GroupNotificationArgs *)`. -/
def serializeGroupNotification (args : GroupNotificationArgs) : Slice :=
  putUInt32 args.sourceNodeId ++ putInt32 args.totalGroups ++ putVector putGroup args.groups

def getUInt32 : ByteReader ParseFault UInt32 := do
  let n ← number .overrun 4
  pure (.ofNat n)

def getInt32 : ByteReader ParseFault Int32 := do
  let n ← getUInt32
  pure n.toInt32

/-- What was read becomes a vector, for which there may be no memory. -/
def resized {α : Type} (items : List α) : ByteReader ParseFault (StdVector α) :=
  if size : items.length < 2 ^ 64 then pure ⟨items, size⟩ else throw .unallocated

def getString : ByteReader ParseFault (StdVector UInt8) := do
  let len ← number .overrun 8
  let bytes ← block .overrun len
  resized bytes

def getVector {α : Type} (get : ByteReader ParseFault α) : ByteReader ParseFault (StdVector α) := do
  let count ← number .overrun 8
  let items ← times get count
  resized items

def getMember : ByteReader ParseFault GroupMemberInfo := do
  let nodeId ← getUInt32
  let raftRpcAddr ← getString
  let kvRpcAddr ← getString
  let raftLogFilename ← getString
  let kvDbname ← getString
  pure { nodeId, raftRpcAddr, kvRpcAddr, raftLogFilename, kvDbname }

def getGroup : ByteReader ParseFault GroupInfo := do
  let groupId ← getUInt32
  let initiatorId ← getInt32
  let initiatorGeneratedIndex ← getInt32
  let complementaryGroupCount ← getInt32
  let complementaryGroupIndices ← getVector getUInt32
  let members ← getVector getMember
  pure { groupId, initiatorId, initiatorGeneratedIndex, complementaryGroupCount, complementaryGroupIndices, members }

/-- `Deserialize(const RCF::ByteBuffer *, GroupNotificationArgs *)`, which does not know where the buffer ends. -/
def deserializeGroupNotification : ByteReader ParseFault GroupNotificationArgs := do
  let sourceNodeId ← getUInt32
  let totalGroups ← getInt32
  let groups ← getVector getGroup
  pure { sourceNodeId, totalGroups, groups }

def stringSize (s : StdVector UInt8) : Nat := 8 + s.items.length

/-- What a group adds to `getSerializeSize`. -/
def groupSize (g : GroupInfo) : Nat :=
  4 + 4 + 4 + 4 + 8 + g.complementaryGroupIndices.items.length * 4 + 8 +
    (g.members.items.map fun m =>
      4 + stringSize m.raftRpcAddr + stringSize m.kvRpcAddr + stringSize m.raftLogFilename + stringSize m.kvDbname).sum

/-- `getSerializeSize(const GroupNotificationArgs &)`. -/
def groupNotificationSize (args : GroupNotificationArgs) : Nat := 4 + 4 + 8 + (args.groups.items.map groupSize).sum

section Reading

variable {α : Type}

theorem reads_uint32 (n : UInt32) : Reads getUInt32 (putUInt32 n) n := by
  have whole : Reads getUInt32 (putUInt32 n) (.ofNat n.toNat) := (reads32 n.toNat_lt).last
  rwa [UInt32.ofNat_toNat] at whole

theorem reads_int32 (n : Int32) : Reads getInt32 (putInt32 n) n := by
  have whole : Reads getInt32 (putInt32 n) n.toUInt32.toInt32 := (reads_uint32 n.toUInt32).last
  rwa [Int32.toInt32_toUInt32] at whole

theorem reads_resized (v : StdVector α) : Reads (resized v.items) [] v := by
  rw [resized, dif_pos v.size]
  exact Reads.pure v

theorem reads_string (s : StdVector UInt8) : Reads getString (putString s) s := by
  have whole : Reads getString (encodeFixed64 s.items.length ++ (s.items ++ [])) s :=
    (reads64 s.size).bind ((Reads.block s.items).bind (reads_resized s))
  rwa [List.append_nil] at whole

theorem reads_vector {get : ByteReader ParseFault α} {put : α → Slice} (each : ∀ item, Reads get (put item) item)
    (v : StdVector α) : Reads (getVector get) (putVector put v) v := by
  have elements : Reads (times get v.items.length) (v.items.flatMap put) (v.items.map id) :=
    Reads.times fun item _ => each item
  rw [List.map_id] at elements
  have whole : Reads (getVector get) (encodeFixed64 v.items.length ++ (v.items.flatMap put ++ [])) v :=
    (reads64 v.size).bind (elements.bind (reads_resized v))
  rwa [List.append_nil] at whole

theorem reads_member (m : GroupMemberInfo) : Reads getMember (putMember m) m := by
  simp only [putMember, List.append_assoc]
  exact (reads_uint32 m.nodeId).bind ((reads_string m.raftRpcAddr).bind ((reads_string m.kvRpcAddr).bind
    ((reads_string m.raftLogFilename).bind (reads_string m.kvDbname).last)))

theorem reads_group (g : GroupInfo) : Reads getGroup (putGroup g) g := by
  simp only [putGroup, List.append_assoc]
  exact (reads_uint32 g.groupId).bind ((reads_int32 g.initiatorId).bind ((reads_int32 g.initiatorGeneratedIndex).bind
    ((reads_int32 g.complementaryGroupCount).bind ((reads_vector reads_uint32 g.complementaryGroupIndices).bind
      (reads_vector reads_member g.members).last))))

theorem reads_groupNotification (args : GroupNotificationArgs) :
    Reads deserializeGroupNotification (serializeGroupNotification args) args := by
  simp only [serializeGroupNotification, List.append_assoc]
  exact (reads_uint32 args.sourceNodeId).bind ((reads_int32 args.totalGroups).bind (reads_vector reads_group args.groups).last)

end Reading

section Sizes

theorem length_putUInt32 (n : UInt32) : (putUInt32 n).length = 4 := length_encodeFixed32 n.toNat

theorem length_putString (s : StdVector UInt8) : (putString s).length = stringSize s := by
  rw [putString, List.length_append, length_encodeFixed64, stringSize]

theorem length_putVector {α : Type} {put : α → Slice} {size : α → Nat} (each : ∀ item, (put item).length = size item)
    (v : StdVector α) : (putVector put v).length = 8 + (v.items.map size).sum := by
  rw [putVector, List.length_append, length_encodeFixed64, List.length_flatMap, funext each]

theorem length_putGroup (g : GroupInfo) : (putGroup g).length = groupSize g := by
  have indices := length_putVector length_putUInt32 g.complementaryGroupIndices
  rw [List.map_const', List.sum_replicate, smul_eq_mul] at indices
  have member (m : GroupMemberInfo) : (putMember m).length =
      4 + stringSize m.raftRpcAddr + stringSize m.kvRpcAddr + stringSize m.raftLogFilename + stringSize m.kvDbname := by
    simp only [putMember, List.length_append, length_putUInt32, length_putString]
  have members := length_putVector member g.members
  simp only [putGroup, groupSize, List.length_append, putInt32, length_putUInt32, indices, members]
  omega

theorem length_serializeGroupNotification (args : GroupNotificationArgs) :
    (serializeGroupNotification args).length = groupNotificationSize args := by
  have groups := length_putVector length_putGroup args.groups
  simp only [serializeGroupNotification, groupNotificationSize, List.length_append, putInt32, length_putUInt32, groups]
  omega

end Sizes

def kAppendEntriesReplyHdrSize : Nat := 28

def chunkInfoSize : Nat := 28

/-- `Serialize(const AppendEntriesReply *)`. The fields `padding` and `chunk_info_cnt` have no other use. -/
def serializeAppendEntriesReply (reply : AppendEntriesReply) (padding : UInt32) (chunkInfoCnt : Int32) : Slice :=
  encodeFixed32 reply.term ++ encodeFixed32 reply.success.toNat ++ encodeFixed32 reply.expectIndex ++
    encodeFixed32 reply.replyId ++ encodeFixed32 reply.groupId ++ putUInt32 padding ++ putInt32 chunkInfoCnt ++
    reply.chunkInfos.flatMap serializeChunkInfo

/-- `getSerializeSize(const AppendEntriesReply &)`, which multiplies an `int` with a `size_t`. -/
def appendEntriesReplySize (chunkInfoCnt : Int32) : Nat :=
  ((kAppendEntriesReplyHdrSize + chunkInfoCnt.toInt * chunkInfoSize) % 2 ^ 64).toNat

/-- `Serialize(const RequestFragmentsReply *)`; entry `i` has its memory at `memory i`. -/
def serializeRequestFragmentsReply (memory : Nat → EntryMemory) (reply : RequestFragmentsReply) : Slice :=
  encodeFixed32 reply.replyId ++ encodeFixed32 reply.term ++ encodeFixed32 reply.startIndex ++
    encodeFixed32 reply.success.toNat ++ encodeFixed32 reply.entryCnt ++
    reply.fragments.zipIdx.flatMap fun (e, i) => serializeLogentry (memory i) e

def requestFragmentsReplySize (reply : RequestFragmentsReply) : Nat := 20 + (reply.fragments.map logentrySize).sum

theorem length_serializeChunkInfo (ci : ChunkInfo) : (serializeChunkInfo ci).length = chunkInfoSize := by
  simp only [serializeChunkInfo, List.length_append, length_encodeFixed32]
  rfl

theorem length_serializeAppendEntriesReply (reply : AppendEntriesReply) (padding : UInt32) (chunkInfoCnt : Int32)
    (counted : chunkInfoCnt.toInt = reply.chunkInfos.length) :
    (serializeAppendEntriesReply reply padding chunkInfoCnt).length = appendEntriesReplySize chunkInfoCnt := by
  have infos : (reply.chunkInfos.flatMap serializeChunkInfo).length = reply.chunkInfos.length * chunkInfoSize := by
    rw [List.length_flatMap, funext length_serializeChunkInfo, List.map_const', List.sum_replicate, smul_eq_mul]
  have few : chunkInfoCnt.toInt < 2 ^ 31 := chunkInfoCnt.toInt_lt
  rw [appendEntriesReplySize, counted]
  simp only [serializeAppendEntriesReply, List.length_append, length_encodeFixed32, putInt32, length_putUInt32, infos,
    chunkInfoSize, kAppendEntriesReplyHdrSize]
  omega

theorem length_serializeRequestFragmentsReply_le (memory : Nat → EntryMemory) (reply : RequestFragmentsReply) :
    (serializeRequestFragmentsReply memory reply).length ≤ requestFragmentsReplySize reply := by
  have entries := length_entries_le memory reply.fragments 0
  simp only [serializeRequestFragmentsReply, requestFragmentsReplySize, List.length_append, length_encodeFixed32]
  omega

/-- No message is written beyond the size that its buffer was allocated with. -/
theorem written_within_announced_size (memory : Nat → EntryMemory) (e : LogEntry) (args : AppendEntriesArgs)
    (reply : AppendEntriesReply) (padding : UInt32) (chunkInfoCnt : Int32)
    (counted : chunkInfoCnt.toInt = reply.chunkInfos.length) (fragments : RequestFragmentsReply)
    (notification : GroupNotificationArgs) :
    (serializeLogentry (memory 0) e).length ≤ logentrySize e ∧
    (serializeAppendEntries memory args).length ≤ appendEntriesSize args ∧
    (serializeAppendEntriesReply reply padding chunkInfoCnt).length ≤ appendEntriesReplySize chunkInfoCnt ∧
    (serializeRequestFragmentsReply memory fragments).length ≤ requestFragmentsReplySize fragments ∧
    (serializeGroupNotification notification).length ≤ groupNotificationSize notification ∧
    ∀ behind, deserializeGroupNotification.run (serializeGroupNotification notification ++ behind) = .ok (notification, behind) :=
  ⟨length_serializeLogentry_le, length_serializeAppendEntries_le memory args,
    (length_serializeAppendEntriesReply reply padding chunkInfoCnt counted).le,
    length_serializeRequestFragmentsReply_le memory fragments, (length_serializeGroupNotification notification).le,
    reads_groupNotification notification⟩

/-- One group of one member with an address. -/
def oneGroup : GroupNotificationArgs :=
  let member : GroupMemberInfo := ⟨2, ⟨[49, 58, 50], by decide⟩, ⟨[], by decide⟩, ⟨[], by decide⟩, ⟨[107], by decide⟩⟩
  ⟨1, 1, ⟨[⟨3, 1, -1, 1, ⟨[5], by decide⟩, ⟨[member], by decide⟩⟩], by decide⟩⟩

theorem written_within_announced_size_oneGroup :
    (serializeAppendEntriesReply ⟨1, true, 2, 0, 0, [⟨3, 1, 0, 0, -1, 0, 0⟩]⟩ 0 1).length ≤ appendEntriesReplySize 1 ∧
    deserializeGroupNotification.run (serializeGroupNotification oneGroup) = .ok (oneGroup, []) := by
  have all := written_within_announced_size (fun _ => ⟨0, 0, 0, 0, 0, 0⟩) { term := 1, index := 1 } ⟨1, 0, 0, 0, 0, 0, 0, 0, []⟩
    ⟨1, true, 2, 0, 0, [⟨3, 1, 0, 0, -1, 0, 0⟩]⟩ 0 1 (by decide) ⟨0, 1, 1, true, 0, []⟩ oneGroup
  obtain ⟨-, -, reply, -, -, back⟩ := all
  have alone := back []
  rw [List.append_nil] at alone
  exact ⟨reply, alone⟩

end Serializer

end FlexRaft
