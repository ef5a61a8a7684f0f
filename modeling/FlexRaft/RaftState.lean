import FlexRaft.RaftStruct
import FlexRaft.LogManager
import FlexRaft.Encoder

namespace FlexRaft

inductive RaftRole
  | kFollower
  | kCandidate
  | kPreLeader
  | kLeader
  deriving DecidableEq, Repr

/-- `config::kLivenessTimeoutInterval`, in milliseconds. -/
def kLivenessTimeoutInterval : Nat := 200

/-- Which servers answered lately. Clock readings are arguments of `updateLiveness`. -/
structure LivenessMonitor where
  nodeNum : Nat
  response : Nat → Bool
  responseTime : Nat → Nat
  me : Nat

namespace LivenessMonitor

def kMaxNodeNum : Nat := 10

def init (m : LivenessMonitor) : LivenessMonitor :=
  { m with
    response := fun i => if i = m.me then true else m.response i
    responseTime := fun i => if i = m.me then 0 else m.responseTime i }

/-- The elapsed time is a 64-bit difference, so an answer newer than `now` counts as very old. -/
def updateLiveness (m : LivenessMonitor) (id now : Nat) : LivenessMonitor :=
  if kMaxNodeNum ≤ id ∨ m.nodeNum ≤ id then m
  else
    let response := fun i => if i = id then true else m.response i
    let responseTime := fun i => if i = id then now else m.responseTime i
    let recent := fun i => decide ((now + UInt64.size - responseTime i) % UInt64.size < kLivenessTimeoutInterval)
    { m with
      response := fun i => if i = m.me then true
        else if i < m.nodeNum then response i && recent i else response i
      responseTime := responseTime }

def liveNumber (m : LivenessMonitor) : Nat := ((List.range m.nodeNum).filter fun i => m.response i).length

def isAlive (m : LivenessMonitor) (id : Nat) : Bool := m.response id

end LivenessMonitor

/-- Fragments of one entry, by fragment id as encoded and by answering node as collected. -/
structure Stripe where
  raftIndex : Nat := 0
  raftTerm : Nat := 0
  fragments : OrdMap LogEntry := []
  collectedFragments : OrdMap LogEntry := []
  deriving DecidableEq, Repr

/-- Answers a pre-leader has collected for the indices it has to recover. -/
structure PreLeaderStripeStore where
  startIndex : Nat
  endIndex : Nat
  stripes : List Stripe
  response : Nat → Bool
  nodeNum : Nat
  me : Nat

namespace PreLeaderStripeStore

def kResponseCapacity : Nat := 32

def initRequestFragmentsTask (st : PreLeaderStripeStore) (start last nodeNum me : Nat) : PreLeaderStripeStore :=
  if kResponseCapacity < nodeNum then st
  else
    { startIndex := start
      endIndex := last
      stripes := List.replicate (last + 1 - start) {}
      response := fun i => decide (i = me ∧ me < kResponseCapacity)
      nodeNum := nodeNum
      me := me }

def updateResponseState (st : PreLeaderStripeStore) (id : Nat) : PreLeaderStripeStore :=
  if id < st.nodeNum ∧ id < kResponseCapacity then
    { st with response := fun i => if i = id then true else st.response i }
  else st

def isCollected (st : PreLeaderStripeStore) (id : Nat) : Bool :=
  if id < st.nodeNum ∧ id < kResponseCapacity then st.response id else false

def collectedFragmentsCnt (st : PreLeaderStripeStore) : Nat :=
  ((List.range (min st.nodeNum kResponseCapacity)).filter fun i => st.response i).length

def addFragments (st : PreLeaderStripeStore) (idx : Nat) (entry : LogEntry) (chunkId : Nat) :
    PreLeaderStripeStore :=
  if idx < st.startIndex ∨ st.endIndex < idx then st
  else
    { st with stripes := st.stripes.modify (idx - st.startIndex) fun stripe =>
        { stripe with collectedFragments := stripe.collectedFragments.insertOrAssign chunkId entry } }

end PreLeaderStripeStore

/-- What a leader knows about one peer. -/
structure RaftPeer where
  nextIndex : Nat := 0
  matchIndex : Nat := 0
  matchChunkInfo : Nat → Option ChunkInfo := fun _ => none

/-- The parts of `LrcComplementaryGrouper` and `LrcEncoder` that `RaftState` calls. -/
structure LrcGrouper where
  n : Nat
  k : Nat
  l : Nat
  r : Nat
  k_pos : 0 < k
  fragmentsForNode : Nat → List Nat
  nodePlacementsVector : List FragmentPlacement
  lrcGroupIdForNode : Nat → Int
  encodeStripe : Slice → Option (List Slice)

/-- What `NewRaftState` is told and never changes. `peers` holds the other members in ascending order. -/
structure RaftConfig where
  id : Nat
  groupId : Nat
  peers : List Nat
  dynamicK : Nat
  encodingMode : Nat
  lrcGrouper : Option LrcGrouper
  hasRsm : Bool
  hasBridge : Bool
  isal : Isal

/-- Entries travel as LRC stripes rather than as Reed-Solomon fragments. -/
def RaftConfig.lrcMode (c : RaftConfig) : Bool := c.lrcGrouper.isSome && c.encodingMode == 2

/-- `Storage::PersistRaftState` as the header of the file holds it. -/
structure PersistRaftState where
  valid : Bool
  persistedTerm : Nat
  persistedVoteFor : Nat
  deriving DecidableEq, Repr

/-- A server. `outbox` holds what the running handler gave to the RPC clients, `stopped` tells that
an assertion failed or the process aborted, and `rsm` and `bridge` hold the entries handed over so far
to the state machine and to the batch system. -/
structure RaftState where
  config : RaftConfig
  role : RaftRole
  currentTerm : Nat
  voteFor : Nat
  voteMeCnt : Nat
  commitIndex : Nat
  lastApplied : Nat
  lm : LogManager
  storage : Option PersistRaftState
  liveMonitor : LivenessMonitor
  encodedStripe : Nat → Option Stripe
  lastEncoding : Nat → Option Nat
  preleaderStripeStore : PreLeaderStripeStore
  raftPeer : Nat → RaftPeer
  electionRound : Nat
  aliveServersOfLastPoint : Nat
  rsm : List LogEntry
  bridge : List LogEntry
  outbox : List Packet
  stopped : Bool

namespace RaftState

def id (s : RaftState) : Nat := s.config.id

def peers (s : RaftState) : List Nat := s.config.peers

def getClusterServerNumber (s : RaftState) : Nat := s.peers.length + 1

def livenessLevel (s : RaftState) : Nat := s.peers.length / 2

def isGroupMember (s : RaftState) (nodeId : Nat) : Bool := nodeId = s.id || s.peers.contains nodeId

/-- A failed assertion, an `abort()` or a null dereference. -/
def stop (s : RaftState) : RaftState := { s with stopped := true }

/-- What follows a statement runs only if the statement did not stop the server. -/
def andThen (s : RaftState) (f : RaftState → RaftState) : RaftState := if s.stopped then s else f s

/-- A `for` loop whose body may stop the server. -/
def forEach {α : Type} (f : RaftState → α → RaftState) : List α → RaftState → RaftState
  | [], s => s
  | a :: rest, s => (f s a).andThen (forEach f rest)

def send (s : RaftState) (dst : Nat) (msg : Message) : RaftState :=
  { s with outbox := s.outbox ++ [{ src := s.id, dst := dst, msg := msg }] }

/-- The messages of a handler have gone out. -/
def flush (s : RaftState) : RaftState := { s with outbox := [] }

def updatePeer (s : RaftState) (id : Nat) (f : RaftPeer → RaftPeer) : RaftState :=
  { s with raftPeer := fun i => if i = id then f (s.raftPeer i) else s.raftPeer i }

def updateLiveness (s : RaftState) (id now : Nat) : RaftState :=
  { s with liveMonitor := s.liveMonitor.updateLiveness id now }

def persistRaftState (s : RaftState) : RaftState :=
  { s with storage := s.storage.map fun _ => { valid := true, persistedTerm := s.currentTerm, persistedVoteFor := s.voteFor } }

def updateLastEncodingK (s : RaftState) (raftIndex k : Nat) : RaftState :=
  { s with lastEncoding := fun i => if i = raftIndex then some k else s.lastEncoding i }

def setEncodedStripe (s : RaftState) (raftIndex : Nat) (stripe : Stripe) : RaftState :=
  { s with encodedStripe := fun i => if i = raftIndex then some stripe else s.encodedStripe i }

/-- Zero means that the entry has not been encoded yet. -/
def getLastEncodingK (s : RaftState) (raftIndex : Nat) : Nat :=
  match s.lm.getSingleLogEntry raftIndex with
  | none => 0
  | some ent =>
    match ent.type with
    | .kNormal => (s.lastEncoding raftIndex).getD 0
    | .kFragments => ent.chunkInfo.k

def isLogUpToDate (s : RaftState) (raftIndex raftTerm : Nat) : Bool :=
  decide (s.lm.lastLogEntryTerm < raftTerm) ||
    decide (raftTerm = s.lm.lastLogEntryTerm ∧ s.lm.lastLogEntryIndex ≤ raftIndex)

def containEntry (s : RaftState) (raftIndex raftTerm prevK : Nat) : Bool :=
  if raftIndex = s.lm.lastSnapshotIndex then decide (raftTerm = s.lm.lastSnapshotTerm)
  else match s.lm.getSingleLogEntry raftIndex with
    | none => false
    | some entry => decide (entry.term = raftTerm) && decide (entry.chunkInfo.k = prevK)

/-- The preferred leader has the highest rank, the cluster size; all others a fixed hash below it. -/
def getPriorityRank (s : RaftState) : Nat :=
  if s.id = s.config.groupId then s.getClusterServerNumber
  else (s.config.groupId <<< 32 ^^^ s.id <<< 16 ^^^ 0x9e3779b9) % s.getClusterServerNumber

def isEligibleForElection (s : RaftState) : Bool :=
  let maxPriorityRank := s.getClusterServerNumber
  if s.electionRound ≤ 1 then decide (s.getPriorityRank = maxPriorityRank)
  else
    let allowedQuarters := s.electionRound / 5 + 1
    if 4 ≤ allowedQuarters then true
    else
      let allowedCount := max 1 (maxPriorityRank * allowedQuarters / 4)
      decide (maxPriorityRank - allowedCount < s.getPriorityRank)

/-- A field that survives in some part of a server is the same where that part is. -/
theorem field_eq {α : Type} {part : RaftState → RaftState} {s s' : RaftState} (same : part s' = part s)
    (field : RaftState → α) (kept : ∀ s, field (part s) = field s := by exact fun _ => rfl) : field s' = field s := by
  rw [← kept s', same, kept s]

section Control

variable {α : Type} {R : RaftState → RaftState → Prop} {s : RaftState}

theorem andThen_rel (trans : ∀ {a b c}, R a b → R b c → R a c) {f : RaftState → RaftState} {t : RaftState}
    (first : R s t) (second : R t (f t)) : R s (t.andThen f) := by
  unfold andThen
  split
  · exact first
  · exact trans first second

/-- A loop is in a preorder with the state it starts in if each round is, wherever the loop has got to. -/
theorem forEach_rel (refl : ∀ s, R s s) (trans : ∀ {a b c}, R a b → R b c → R a c)
    {f : RaftState → α → RaftState} {items : List α}
    (round : ∀ t a, R s t → a ∈ items → R t (f t a)) : R s (forEach f items s) := by
  suffices loop : ∀ (rest : List α) (t : RaftState), rest ⊆ items → R s t → R s (forEach f rest t) from
    loop items s (List.Subset.refl _) (refl s)
  intro rest
  induction rest with
  | nil => exact fun t _ reached => reached
  | cons a rest ih =>
    intro t inside reached
    have here := trans reached (round t a reached (inside List.mem_cons_self))
    unfold forEach andThen
    split
    · exact here
    · exact ih _ (fun b member => inside (List.mem_cons_of_mem a member)) here

end Control

end RaftState

end FlexRaft
