import FlexRaft.StripeFormat

namespace FlexRaft

def kApplyMagic : Slice := ascii "APLY"

/-- Where the user key stands in the command of an LRC entry: behind the header of a serialized
`StripeWriteCommand`, or at the start of a key-only command. -/
def headerSkip (cmd : Slice) : Nat := if 21 ≤ cmd.length ∧ cmd.take 4 = kStripeMagic then 21 else 0

/-- The user key and the size of the value. -/
def extractApplyMeta (e : LogEntry) : Option (Slice × Nat) :=
  if e.type = .kFragments then
    let fs := e.fragmentSlice
    let keyLen := decodeFixed32 (fs.drop 8)
    if 12 ≤ fs.length ∧ fs.take 4 = ascii "MFRG" ∧ keyLen ≤ 1024 ∧ 12 + keyLen ≤ fs.length then
      some ((fs.drop 12).take keyLen, e.notEncodedSlice.length)
    else none
  else
    let cmd := e.commandData
    if e.isLrcEncoded then
      let keySize := e.chunkInfo.keySize
      if cmd = [] ∨ keySize = 0 then none
      else if headerSkip cmd + keySize ≤ cmd.length then
        some ((cmd.drop (headerSkip cmd)).take keySize, e.chunkInfo.totalSize)
      else none
    else
      -- The layout with four-byte numbers.
      let keyLen := decodeFixed32 (cmd.drop 9)
      if 13 ≤ cmd.length ∧ cmd.take 4 = kStripeMagic ∧ keyLen ≤ 1024 ∧ 13 + keyLen + 4 ≤ cmd.length then
        some ((cmd.drop 13).take keyLen, decodeFixed32 (cmd.drop (13 + keyLen)))
      else none

/-- The key in the payload: the one that was extracted, unless it is empty. -/
def applyUserKey (e : LogEntry) (userKey : Slice) : Slice :=
  let cmd := e.commandData
  let keySize := e.chunkInfo.keySize
  if userKey = [] ∧ cmd ≠ [] ∧ 0 < keySize then
    if headerSkip cmd + keySize ≤ cmd.length then (cmd.drop (headerSkip cmd)).take keySize
    else cmd.take (min keySize (cmd.length % UInt32.size))
  else userKey

def FragmentKind.word : FragmentKind → Nat
  | .kData => 0
  | .kLocalParity => 1
  | .kGlobalParity => 2

def serializePlacement (fp : FragmentPlacement) : Slice :=
  encodeFixed32 fp.nodeId ++ encodeFixed32 fp.fragId ++ encodeFixed32 (word32 fp.localGroup) ++
    encodeFixed32 fp.kind.word

/-- A fragment without an id of its own goes by its position. -/
def serializeFragment (fragIds : List Nat) (frag : Slice × Nat) : Slice :=
  encodeFixed32 ((fragIds[frag.2]?).getD frag.2) ++ encodeFixed32 frag.1.length ++
    frag.1.take (frag.1.length % UInt32.size)

def serializeChunkInfo (ci : ChunkInfo) : Slice :=
  encodeFixed32 ci.k ++ encodeFixed32 ci.raftIndex ++ encodeFixed32 ci.l ++ encodeFixed32 ci.r ++
    encodeFixed32 (word32 ci.lrcGroupId) ++ encodeFixed32 ci.keySize ++ encodeFixed32 ci.totalSize

/-- What follows the kind `kLrcFragments`. -/
def serializeLrcFragments (e : LogEntry) (userKey : Slice) (originalSize : Nat) : Slice :=
  let key := applyUserKey e userKey
  encodeFixed32 key.length ++ key ++ serializeChunkInfo e.chunkInfo ++ encodeFixed32 e.placement.length ++
    e.placement.flatMap serializePlacement ++ encodeFixed32 e.fragments.length ++
    e.fragments.zipIdx.flatMap (serializeFragment e.fragIds) ++ encodeFixed64 originalSize

def serializeForApply (e : LogEntry) (userKey : Slice) (originalSize : Nat) : Slice :=
  kApplyMagic ++ encodeFixed32 1 ++
    if e.isLrcEncoded then 3 :: serializeLrcFragments e userKey originalSize
    else 0 :: encodeFixed32 e.commandData.length ++ e.commandData.take (e.commandData.length % UInt32.size)

structure MsgApplyCommitted where
  entryId : Nat
  stripeId : Nat
  groupId : Nat
  data : Slice
  deriving DecidableEq, Repr

/-- What `BatchSystemBridge::ApplyEntry` puts into the mailbox of a group, if anything. -/
def applyMessage (groupId : Nat) (e : LogEntry) : Option MsgApplyCommitted :=
  (extractApplyMeta e).map fun (userKey, originalSize) =>
    { entryId := e.index, stripeId := e.index, groupId := groupId, data := serializeForApply e userKey originalSize }

/-- What the handler reads from a payload of the kind `kLrcFragments`. Fragments stand in the order in which they
were read; the last one of an id counts. -/
structure LrcPayload where
  userKey : Slice
  k : Nat
  l : Nat
  r : Nat
  placement : List StripePlacement
  fragments : List (Nat × Slice)
  originalSize : Nat
  deriving DecidableEq, Repr

namespace LrcPayload

def placementAt (ptr : Slice) : StripePlacement :=
  { nodeId := decodeFixed32 ptr
    fragId := decodeFixed32 (ptr.drop 4)
    localGroup := decodeFixed32 (ptr.drop 8)
    kind := decodeFixed32 (ptr.drop 12) }

/-- The loop over the fragments, with where the pointer is afterwards and how many bytes count as left. When
a fragment is too short, the pointer still stands at its size. -/
def readFragments : Nat → Slice → List (Nat × Slice) × Slice × Nat
  | 0, ptr => ([], ptr, ptr.length)
  | count + 1, ptr =>
    if ptr.length < 4 then ([], ptr, ptr.length)
    else
      let fragId := decodeFixed32 ptr
      let sizePtr := ptr.drop 4
      if sizePtr.length < 4 then ([], sizePtr, sizePtr.length)
      else
        let fragSize := decodeFixed32 sizePtr
        let bytes := sizePtr.drop 4
        if bytes.length < fragSize then ([], sizePtr, bytes.length)
        else
          let (rest, ptr, remaining) := readFragments count (bytes.drop fragSize)
          ((fragId, bytes.take fragSize) :: rest, ptr, remaining)

/-- The part behind the placements. -/
def parseFragments (ptr : Slice) : Option (List (Nat × Slice) × Nat) :=
  if ptr.length < 4 then none
  else
    let (fragments, ptr, remaining) := readFragments (decodeFixed32 ptr) (ptr.drop 4)
    some (fragments, if 8 ≤ remaining then decodeFixed64 ptr else 0)

/-- The part behind the chunk info. -/
def parsePlacements (ptr : Slice) : Option (List StripePlacement × Slice) :=
  if ptr.length < 4 then none
  else
    let count := decodeFixed32 ptr
    let ptr := ptr.drop 4
    if ptr.length < count * 16 then none
    else some ((List.range count).map fun i => placementAt (ptr.drop (i * 16)), ptr.drop (count * 16))

def parse (payload : Slice) : Option LrcPayload :=
  if payload.length < 4 then none
  else
    let keyLen := decodeFixed32 payload
    let ptr := payload.drop 4
    if ptr.length < keyLen then none
    else
      let chunk := ptr.drop keyLen
      if chunk.length < 28 then none
      else do
        let (placement, ptr') ← parsePlacements (chunk.drop 28)
        let (fragments, originalSize) ← parseFragments ptr'
        return {
          userKey := ptr.take keyLen
          k := decodeFixed32 chunk
          l := decodeFixed32 (chunk.drop 8)
          r := decodeFixed32 (chunk.drop 12)
          placement := placement
          fragments := fragments
          originalSize := originalSize }

/-- `frag_map`. -/
def fragment (p : LrcPayload) (fragId : Nat) : Option Slice := p.fragments.reverse.lookup fragId

end LrcPayload

/-- The handler of one group on one node. The last two fields are what `ApplyStripePacked` and `ApplyStripeCommand`
write: the formats they read have no writer any more. -/
structure ApplyFsm where
  groupId : Nat
  nodeId : Nat
  encMode : Nat
  applyStripePacked : (payload : Slice) → List (Slice × Slice)
  applyStripeCommand : (entryId : Nat) → (cmd : Slice) → List (Slice × Slice)

namespace ApplyFsm

/-- The metadata of a stripe as the handler writes it. -/
def stripeMeta (fsm : ApplyFsm) (m : MsgApplyCommitted) (p : LrcPayload) : StripeLogMeta :=
  { userKey := p.userKey
    stripeId := m.stripeId
    entryId := m.entryId
    groupId := fsm.groupId
    originalSize := p.originalSize
    encodingMode := fsm.encMode
    k := p.k
    l := p.l
    r := p.r
    m := 0
    placement := p.placement }

/-- The fragments placed on this node, as far as the entry has them. -/
def localFragments (fsm : ApplyFsm) (m : MsgApplyCommitted) (p : LrcPayload) : List (Slice × Slice) :=
  p.placement.filterMap fun fp =>
    if fp.nodeId ≠ fsm.nodeId then none
    else (p.fragment fp.fragId).map fun frag => (fragDbKey fsm.groupId m.stripeId fp.fragId, frag)

def stripeWrites (fsm : ApplyFsm) (m : MsgApplyCommitted) (p : LrcPayload) : List (Slice × Slice) :=
  (stripeMetaDbKey fsm.groupId p.userKey, (fsm.stripeMeta m p).serialize) :: fsm.localFragments m p

def legacyKey (m : MsgApplyCommitted) : Slice :=
  ascii "__lrc__:" ++ toDecimal m.entryId ++ ascii ":" ++ toDecimal m.stripeId ++ ascii ":" ++ toDecimal m.groupId

/-- The kind `kLegacy`; the check is made on 32 bits. -/
def legacyWrites (m : MsgApplyCommitted) (payload : Slice) : List (Slice × Slice) :=
  if payload.length < 4 then []
  else
    let cmdLen := decodeFixed32 payload
    if (4 + cmdLen) % UInt32.size ≤ payload.length then [(legacyKey m, (payload.drop 4).take cmdLen)] else []

/-- Payloads without the magic. -/
def oldWrites (fsm : ApplyFsm) (m : MsgApplyCommitted) (kind : UInt8) (p : Slice) : List (Slice × Slice) :=
  let size := decodeFixed32 p
  let complete := 4 ≤ p.length ∧ (4 + size) % UInt32.size ≤ p.length
  if kind = 1 then if complete then fsm.applyStripePacked ((p.drop 4).take size) else []
  else if kind = 2 then if complete then fsm.applyStripeCommand m.entryId ((p.drop 4).take size) else []
  else [(legacyKey m, p)]

/-- The stripe that a message carries, as the handler reads it. -/
def payload? (m : MsgApplyCommitted) : Option LrcPayload :=
  if 9 ≤ m.data.length ∧ m.data.take 4 = kApplyMagic ∧ decodeFixed32 (m.data.drop 4) = 1 ∧ m.data[8]? = some 3 then
    LrcPayload.parse (m.data.drop 9)
  else none

/-- What `Handle` writes to the database in one go. -/
def writes (fsm : ApplyFsm) (m : MsgApplyCommitted) : List (Slice × Slice) :=
  match m.data with
  | [] => []
  | kind :: p =>
    if 9 ≤ m.data.length ∧ m.data.take 4 = kApplyMagic then
      if decodeFixed32 (m.data.drop 4) ≠ 1 then []
      else if m.data[8]? = some 3 then
        match LrcPayload.parse (m.data.drop 9) with
        | none => []
        | some stripe => fsm.stripeWrites m stripe
      else if m.data[8]? = some 0 then legacyWrites m (m.data.drop 9)
      else []
    else fsm.oldWrites m kind p

end ApplyFsm

end FlexRaft
