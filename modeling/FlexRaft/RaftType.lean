import Mathlib.Data.List.Basic

namespace FlexRaft

/-- Bytes of a `Slice`. Ownership and copying of the underlying buffer have no
counterpart: every copy the source makes is a value here. -/
abbrev Slice := List UInt8

/-- `raft_node_id_t kNotVoted = -1`, read back as an unsigned 32-bit number. -/
def kNotVoted : Nat := 4294967295

/-- What `LogManager::TermAt` answers outside the log, `-1` as a `raft_term_t`. -/
def kNoTerm : Nat := 4294967295

/-- `n - 1` on an unsigned index: only zero wraps around. -/
def predIndex (n : Nat) : Nat := if n = 0 then 4294967295 else n - 1

inductive EntryType
  | kNormal
  | kFragments
  deriving DecidableEq, Repr

/-- Encoding parameters stored with an entry. `m` is always the cluster size minus `k`. -/
structure ChunkInfo where
  k : Nat
  raftIndex : Nat
  l : Nat := 0
  r : Nat := 0
  lrcGroupId : Int := -1
  keySize : Nat := 0
  totalSize : Nat := 0
  deriving DecidableEq, Repr

def ChunkInfo.isLrcEncoded (c : ChunkInfo) : Bool := decide (0 ≤ c.lrcGroupId) && decide (0 < c.l)

inductive FragmentKind
  | kData
  | kLocalParity
  | kGlobalParity
  deriving DecidableEq, Repr

structure FragmentPlacement where
  fragId : Nat
  localGroup : Int
  nodeId : Nat
  kind : FragmentKind
  deriving DecidableEq, Repr

/-- A log entry: a full command, one Reed-Solomon fragment of it, or (in LRC mode)
a full or key-only command together with some fragments of the stripe. -/
structure LogEntry where
  term : Nat := 0
  index : Nat := 0
  type : EntryType := .kNormal
  chunkInfo : ChunkInfo := { k := 0, raftIndex := 0 }
  startOffset : Nat := 0
  commandSize : Nat := 0
  commandDataField : Slice := []
  notEncodedField : Slice := []
  fragmentField : Slice := []
  fragments : List Slice := []
  fragIds : List Nat := []
  placement : List FragmentPlacement := []
  deriving DecidableEq, Repr

namespace LogEntry

def isLrcEncoded (e : LogEntry) : Bool := e.chunkInfo.isLrcEncoded

def commandData (e : LogEntry) : Slice := if e.type = .kNormal then e.commandDataField else []

def notEncodedSlice (e : LogEntry) : Slice := if e.type = .kNormal then e.commandData else e.notEncodedField

def fragmentSlice (e : LogEntry) : Slice := if e.type = .kNormal then [] else e.fragmentField

def setCommandData (e : LogEntry) (slice : Slice) : LogEntry :=
  { e with commandDataField := slice, commandSize := slice.length }

/-- An empty fragment is not `valid()` and is skipped. -/
def addFragmentWithId (e : LogEntry) (fragId : Nat) (frag : Slice) : LogEntry :=
  if frag = [] then e else { e with fragments := e.fragments ++ [frag], fragIds := e.fragIds ++ [fragId] }

def addFragment (e : LogEntry) (frag : Slice) : LogEntry := e.addFragmentWithId e.fragments.length frag

end LogEntry

/-- The command of one `Propose` call; bytes from `startFragmentOffset` on get encoded. -/
structure CommandData where
  startFragmentOffset : Nat
  commandData : Slice
  deriving DecidableEq, Repr

end FlexRaft
