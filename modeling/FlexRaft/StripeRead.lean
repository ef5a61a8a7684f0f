import FlexRaft.StripeEntry

namespace FlexRaft

/-- The form in which a value goes back to the client. -/
def formatFullEntryValueForStorage (userValue : Slice) : Slice :=
  encodeFixed32 1 ++ encodeFixed32 0 ++ encodeFixed32 0 ++ encodeFixed32 userValue.length ++ userValue

/-- Where a `kGet` is: behind the check that the server leads, collecting the fragments of a stripe (those that are
still asked for and those that have come in), or back with an answer. -/
inductive GetPhase
  | starting
  | fetching (stripe : StripeLogMeta) (todo : List StripePlacement) (fragBytes : OrdMap Slice)
  | returned (err : ErrorType) (value : Slice)
  deriving DecidableEq, Repr

/-- A `kGet` call. That `before` holds the puts of the key that had returned `kOk` when it started, and `unreachable`
tells whether a peer could not be reached, is for the statements only. -/
structure GetCall where
  server : Nat
  key : Slice
  before : List PutCall
  unreachable : Bool
  phase : GetPhase
  deriving DecidableEq, Repr

def GetCall.isReturned (get : GetCall) : Bool :=
  match get.phase with
  | .returned _ _ => true
  | _ => false

def PutCall.isOk (put : PutCall) : Bool :=
  match put.phase with
  | .returned .kOk _ _ => true
  | _ => false

/-- The index that `Propose` returned. -/
def PutCall.index (put : PutCall) : Nat :=
  match put.phase with
  | .waiting index _ _ | .returned _ index _ => index
  | .proposing => 0

/-- A group of a `RaftStore` with the apply threads and the database of each node. -/
structure StripeStore where
  group : PutGroup
  pools : Nat → ApplyPool
  gets : List GetCall

/-- A step of the group, of the bridge, of the apply threads or of one of the gets. In `fetch`, the RPC for fragment
`i` of those still asked for does or does not reach its peer; `nested` is what `TryStripeGet` returns there if the
peer has metadata for the key of the fragment itself. -/
inductive StoreLabel
  | group (l : PutLabel)
  | handOver (server : Nat)
  | apply (server : Nat) (l : ApplyPool.Label)
  | startGet (server : Nat) (key : Slice)
  | readMeta (n : Nat)
  | fetch (n i : Nat) (reached : Bool) (nested : Option Slice)
  | finishGet (n : Nat)

namespace StripeStore

open RaftState

def init (c : StripeConfig) (dbs : Nat → Database) (junk : Nat → Uninitialised) : StripeStore :=
  { group := .init c.clusterConfig junk
    pools := fun node => .start (c.applyConfig node) (dbs node)
    gets := [] }

def groupId (γ : StripeStore) : Nat := γ.group.cluster.config.groupId

def isUp (γ : StripeStore) (server : Nat) : Bool := γ.group.cluster.isUp server

def setPool (γ : StripeStore) (server : Nat) (pool : ApplyPool) : StripeStore :=
  { γ with pools := fun node => if node = server then pool else γ.pools node }

/-- A new process starts with the database of the old one; the calls on the server end. -/
def restarted (γ : StripeStore) : PutLabel → StripeStore
  | .restart server _ =>
    { γ.setPool server (.start (γ.pools server).config (γ.pools server).db) with
      gets := γ.gets.filter fun get => get.server != server || get.isReturned }
  | _ => γ

/-- In a `RaftStore` only puts are proposed: `KvServer::DealWithRequest` refuses the other requests that write. -/
def stepGroup (γ : StripeStore) (l : PutLabel) : Option StripeStore :=
  match l with
  | .raft (.propose _ _) => none
  | l => (γ.group.step l).map fun group => { γ.restarted l with group := group }

/-- `ApplyEntry` gets the entries that `tryApplyLogEntries` has gone through. -/
def handOver (γ : StripeStore) (server : Nat) : Option StripeStore :=
  ((γ.group.cluster.servers server).bridge[(γ.pools server).committed.length]?).bind fun e =>
    ((γ.pools server).applyEntry e).map (γ.setPool server)

def apply (γ : StripeStore) (server : Nat) (l : ApplyPool.Label) : Option StripeStore :=
  match l with
  | .applyEntry _ => none
  | l => ((γ.pools server).step l).map (γ.setPool server)

/-- `DealWithRequest` with a `kGet` up to `TryStripeGet`. -/
def startGet (γ : StripeStore) (server : Nat) (key : Slice) : Option StripeStore :=
  if γ.isUp server then
    let get : GetCall :=
      { server := server
        key := key
        before := γ.group.puts.filter fun put => put.isOk && decide (put.cmd.userKey = key)
        unreachable := false
        phase := if (γ.group.cluster.servers server).role = .kLeader then .starting else .returned .kNotALeader [] }
    some { γ with gets := γ.gets ++ [get] }
  else none

/-- The metadata of the key; only the placements in front of the first parity count. -/
def readMeta (γ : StripeStore) (get : GetCall) : Option GetCall :=
  match get.phase with
  | .starting =>
    match ((γ.pools get.server).db (stripeMetaDbKey γ.groupId get.key)).bind StripeLogMeta.deserialize with
    | none => some { get with phase := .returned .kKeyNotExist [] }
    | some stripe =>
      let dataPlacement := stripe.placement.takeWhile fun fp => fp.kind = 0
      if dataPlacement.length ≠ stripe.k then some { get with phase := .returned .kKeyNotExist [] }
      else some { get with phase := .fetching stripe dataPlacement [] }
  | _ => none

/-- `GetValue` on a peer: a stripe read of the key comes before the key itself. -/
def getValue (γ : StripeStore) (node : Nat) (key : Slice) (nested : Option Slice) : Option Slice :=
  match (γ.pools node).db (stripeMetaDbKey γ.groupId key), nested with
  | some _, some value => some value
  | _, _ => (γ.pools node).db key

/-- What one of the fetching threads brings. -/
def fetchFrag (γ : StripeStore) (server stripeId : Nat) (fp : StripePlacement) (reached : Bool)
    (nested : Option Slice) : Option Slice :=
  let key := fragDbKey γ.groupId stripeId fp.fragId
  if fp.nodeId = server then (γ.pools server).db key
  else if reached then γ.getValue fp.nodeId key nested
  else none

/-- The result of one thread goes into `frag_bytes`. -/
def addFragment (fragBytes : OrdMap Slice) (fragId : Nat) : Option Slice → OrdMap Slice
  | some bytes => fragBytes.insertOrAssign fragId bytes
  | none => fragBytes

def fetch (γ : StripeStore) (i : Nat) (reached : Bool) (nested : Option Slice) (get : GetCall) : Option GetCall :=
  match get.phase with
  | .fetching stripe todo fragBytes =>
    (todo[i]?).map fun fp =>
      let result := γ.fetchFrag get.server stripe.stripeId fp reached nested
      { get with
        unreachable := get.unreachable || (decide (fp.nodeId ≠ get.server) && !reached)
        phase := .fetching stripe (todo.eraseIdx i) (addFragment fragBytes fp.fragId result) }
  | _ => none

/-- The switch over the encoding mode; it has no default. -/
def decodeStripe (isal : Isal) (stripe : StripeLogMeta) (fragBytes : OrdMap Slice) : Encoder.DecodeResult :=
  if stripe.encodingMode = 2 then Encoder.decodeSlice isal fragBytes stripe.k 0
  else if stripe.encodingMode = 0 ∨ stripe.encodingMode = 1 then Encoder.decodeSlice isal fragBytes stripe.k stripe.m
  else .decoded []

/-- What is kept of the decoded bytes. -/
def decodedValue (stripe : StripeLogMeta) (out : Slice) : Slice :=
  out.take (min (Encoder.decodedSize stripe.k out.length) stripe.originalSize)

/-- All threads are back. Where an assertion of the decoder fails there is no answer. -/
def finishGet (γ : StripeStore) (get : GetCall) : Option GetCall :=
  match get.phase with
  | .fetching stripe [] fragBytes =>
    if fragBytes.length < stripe.k then some { get with phase := .returned .kKeyNotExist [] }
    else match decodeStripe γ.group.cluster.config.isal stripe fragBytes with
      | .stop => none
      | .failed => some { get with phase := .returned .kKeyNotExist [] }
      | .decoded out =>
        some { get with phase := .returned .kOk (formatFullEntryValueForStorage (decodedValue stripe out)) }
  | _ => none

/-- One of the gets goes on. -/
def stepGet (γ : StripeStore) (n : Nat) (next : GetCall → Option GetCall) : Option StripeStore :=
  (γ.gets[n]?).bind fun get =>
    if γ.isUp get.server then (next get).map fun get => { γ with gets := γ.gets.set n get } else none

def step (γ : StripeStore) : StoreLabel → Option StripeStore
  | .group l => γ.stepGroup l
  | .handOver server => γ.handOver server
  | .apply server l => γ.apply server l
  | .startGet server key => γ.startGet server key
  | .readMeta n => γ.stepGet n γ.readMeta
  | .fetch n i reached nested => γ.stepGet n (γ.fetch i reached nested)
  | .finishGet n => γ.stepGet n γ.finishGet

end StripeStore

end FlexRaft
