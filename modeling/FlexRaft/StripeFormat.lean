import FlexRaft.RaftType
import FlexRaft.Lib.LittleEndian

namespace FlexRaft

def ascii (text : String) : Slice := text.toList.map fun c => UInt8.ofNat c.toNat

/-- `std::to_string` of an unsigned number. -/
def toDecimal (n : Nat) : Slice := (Nat.toDigits 10 n).map fun c => UInt8.ofNat c.toNat

/-- `std::to_string` of an `int`, given as a 32-bit word. -/
def intToDecimal (word : Nat) : Slice :=
  if word < 2 ^ 31 then toDecimal word else ascii "-" ++ toDecimal (2 ^ 32 - word)

def encodeFixed32 (n : Nat) : Slice := LittleEndian.encode 4 n

def decodeFixed32 (src : Slice) : Nat := LittleEndian.decode (src.take 4)

def encodeFixed64 (n : Nat) : Slice := LittleEndian.encode 8 n

def decodeFixed64 (src : Slice) : Nat := LittleEndian.decode (src.take 8)

/-- `static_cast<uint32_t>` of an `int`. -/
def word32 (n : Int) : Nat := (n % 2 ^ 32).toNat

def fragDbKey (groupId stripeId fragId : Nat) : Slice :=
  ascii "__frag__/" ++ toDecimal groupId ++ ascii "/" ++ toDecimal stripeId ++ ascii "/" ++ intToDecimal fragId

def stripeMetaDbKey (groupId : Nat) (userKey : Slice) : Slice :=
  ascii "__stripe_meta__/" ++ toDecimal groupId ++ ascii "/" ++ userKey

def makeStripePrimaryKey (groupId : Nat) (userKey : Slice) : Slice :=
  ascii "__stripe/" ++ toDecimal groupId ++ ascii "/" ++ userKey

def makeFragIndexKey (groupId fragId : Nat) : Slice :=
  ascii "__frag_idx/" ++ toDecimal groupId ++ ascii "/" ++ intToDecimal fragId

def appendU64 (v : Nat) : Slice := LittleEndian.encode 8 v

/-- A 32-bit number in eight bytes. -/
def appendU32 (v : Nat) : Slice := LittleEndian.encode 8 (v % UInt32.size)

def readU64 (p : Slice) : Option (Nat × Slice) :=
  if p.length < 8 then none else some (LittleEndian.decode (p.take 8), p.drop 8)

def readU32 (p : Slice) : Option (Nat × Slice) := (readU64 p).map fun (v, p) => (v % UInt32.size, p)

def readBytes (count : Nat) (p : Slice) : Option (Slice × Slice) :=
  if p.length < count then none else some (p.take count, p.drop count)

/-- The check that the bytes start with a magic. -/
def readMagic (magic p : Slice) : Option (Unit × Slice) :=
  if p.length < 4 ∨ p.take 4 ≠ magic then none else some ((), p.drop 4)

inductive EncodingMode
  | kRsF
  | kRs3F
  | kLrc
  deriving DecidableEq, Repr

def EncodingMode.word : EncodingMode → Nat
  | kRsF => 0
  | kRs3F => 1
  | kLrc => 2

def kStripeMagic : Slice := ascii "STRI"

structure StripeWriteCommand where
  groupId : Nat
  userKey : Slice
  userValue : Slice
  encodingMode : Nat
  deriving DecidableEq, Repr

def StripeWriteCommand.serialize (cmd : StripeWriteCommand) : Slice :=
  kStripeMagic ++ appendU32 cmd.groupId ++ [UInt8.ofNat cmd.encodingMode] ++ appendU32 cmd.userKey.length ++
    cmd.userKey ++ appendU32 cmd.userValue.length ++ cmd.userValue

def StripeWriteCommand.deserialize (data : Slice) : Option StripeWriteCommand := do
  let (_, p) ← readMagic kStripeMagic data
  let (gid, p) ← readU32 p
  let (mode, p) ← readBytes 1 p
  let (klen, p) ← readU32 p
  let (userKey, p) ← readBytes klen p
  let (vlen, p) ← readU32 p
  let (userValue, _) ← readBytes vlen p
  return { groupId := gid, userKey := userKey, userValue := userValue, encodingMode := LittleEndian.decode mode }

/-- `multiraft::FragmentPlacement`. The `int` fields and the kind are 32-bit words, as they are read. -/
structure StripePlacement where
  fragId : Nat
  localGroup : Nat
  nodeId : Nat
  kind : Nat
  deriving DecidableEq, Repr

namespace StripePlacement

def serialize (fp : StripePlacement) : Slice :=
  appendU32 fp.fragId ++ appendU32 fp.kind ++ appendU32 fp.localGroup ++ appendU32 fp.nodeId

def read (p : Slice) : Option (StripePlacement × Slice) := do
  let (fragId, p) ← readU32 p
  let (kind, p) ← readU32 p
  let (localGroup, p) ← readU32 p
  let (nodeId, p) ← readU32 p
  return ({ fragId := fragId, localGroup := localGroup, nodeId := nodeId, kind := kind }, p)

def readList : Nat → Slice → Option (List StripePlacement)
  | 0, _ => some []
  | count + 1, p => do
    let (fp, p) ← read p
    let rest ← readList count p
    return fp :: rest

end StripePlacement

/-- What the database holds about the last put of a key. -/
structure StripeLogMeta where
  userKey : Slice
  stripeId : Nat
  entryId : Nat
  groupId : Nat
  originalSize : Nat
  encodingMode : Nat
  k : Nat
  l : Nat
  r : Nat
  m : Nat
  placement : List StripePlacement
  deriving DecidableEq, Repr

namespace StripeLogMeta

def serialize (stripe : StripeLogMeta) : Slice :=
  appendU32 stripe.userKey.length ++ stripe.userKey ++ appendU64 stripe.stripeId ++ appendU64 stripe.entryId ++
    appendU32 stripe.groupId ++ appendU32 stripe.originalSize ++ [UInt8.ofNat stripe.encodingMode] ++
    appendU32 stripe.k ++ appendU32 stripe.l ++ appendU32 stripe.r ++ appendU32 stripe.m ++
    appendU32 stripe.placement.length ++ stripe.placement.flatMap StripePlacement.serialize

def deserialize (data : Slice) : Option StripeLogMeta := do
  let (klen, p) ← readU32 data
  let (userKey, p) ← readBytes klen p
  let (stripeId, p) ← readU64 p
  let (entryId, p) ← readU64 p
  let (groupId, p) ← readU32 p
  let (originalSize, p) ← readU32 p
  let (mode, p) ← readBytes 1 p
  let (k, p) ← readU32 p
  let (l, p) ← readU32 p
  let (r, p) ← readU32 p
  let (m, p) ← readU32 p
  let (pcnt, p) ← readU32 p
  let placement ← StripePlacement.readList pcnt p
  return {
    userKey := userKey
    stripeId := stripeId
    entryId := entryId
    groupId := groupId
    originalSize := originalSize
    encodingMode := LittleEndian.decode mode
    k := k
    l := l
    r := r
    m := m
    placement := placement }

end StripeLogMeta

def kPackedFragMagic : Slice := ascii "MFRG"

def kMergedFragMagic : Slice := ascii "MFST"

structure PackedNodeFragment where
  fragId : Nat
  bytes : Slice
  deriving DecidableEq, Repr

namespace PackedNodeFragment

def serialize (f : PackedNodeFragment) : Slice := appendU32 f.fragId ++ appendU32 f.bytes.length ++ f.bytes

def read (p : Slice) : Option (PackedNodeFragment × Slice) := do
  let (fid, p) ← readU32 p
  let (flen, p) ← readU32 p
  let (bytes, p) ← readBytes flen p
  return ({ fragId := fid, bytes := bytes }, p)

def readList : Nat → Slice → Option (List PackedNodeFragment)
  | 0, _ => some []
  | count + 1, p => do
    let (f, p) ← read p
    let rest ← readList count p
    return f :: rest

end PackedNodeFragment

/-- A stripe with some of its fragments. The two formats differ in the magic only. -/
def packFragments (magic : Slice) (stripe : StripeLogMeta) (frags : List PackedNodeFragment) : Slice :=
  magic ++ appendU32 stripe.serialize.length ++ stripe.serialize ++ appendU32 frags.length ++
    frags.flatMap PackedNodeFragment.serialize

def unpackFragments (magic data : Slice) : Option (StripeLogMeta × List PackedNodeFragment) := do
  let (_, p) ← readMagic magic data
  let (metaLen, p) ← readU32 p
  let (metaBytes, p) ← readBytes metaLen p
  let stripe ← StripeLogMeta.deserialize metaBytes
  let (cnt, p) ← readU32 p
  let frags ← PackedNodeFragment.readList cnt p
  return (stripe, frags)

def packNodeFragments : StripeLogMeta → List PackedNodeFragment → Slice := packFragments kPackedFragMagic

def unpackNodeFragments : Slice → Option (StripeLogMeta × List PackedNodeFragment) := unpackFragments kPackedFragMagic

def serializeMergedFragStore : StripeLogMeta → List PackedNodeFragment → Slice := packFragments kMergedFragMagic

def deserializeMergedFragStore : Slice → Option (StripeLogMeta × List PackedNodeFragment) := unpackFragments kMergedFragMagic

end FlexRaft
