import FlexRaft.Tick
import FlexRaft.Lib.Steps

namespace FlexRaft

/-- One Raft group whose members have the ids `0, …, size - 1` and one encoding configuration.
`NewRaftState` accepts peer ids below 32 only. -/
structure ClusterConfig where
  size : Nat
  size_pos : 0 < size
  size_le : size ≤ 32
  groupId : Nat
  dynamicK : Nat
  encodingMode : Nat
  lrcGrouper : Option LrcGrouper
  hasRsm : Nat → Bool
  hasBridge : Nat → Bool
  hasStorage : Nat → Bool
  isal : Isal

namespace ClusterConfig

def faults (c : ClusterConfig) : Nat := (c.size - 1) / 2

def serverConfig (c : ClusterConfig) (id : Nat) : RaftConfig :=
  { id := id
    groupId := c.groupId
    peers := (List.range c.size).filter fun i => i != id
    dynamicK := c.dynamicK
    encodingMode := c.encodingMode
    lrcGrouper := c.lrcGrouper
    hasRsm := c.hasRsm id
    hasBridge := c.hasBridge id
    isal := c.isal }

theorem mem_serverConfig_peers {c : ClusterConfig} {id p : Nat} :
    p ∈ (c.serverConfig id).peers ↔ p < c.size ∧ p ≠ id := by
  simp [serverConfig]

theorem serverConfig_peers_length (c : ClusterConfig) (id : Nat) :
    (c.serverConfig id).peers.length = if id < c.size then c.size - 1 else c.size := by
  have erased : (c.serverConfig id).peers = (List.range c.size).erase id :=
    (List.nodup_range.erase_eq_filter id).symm
  rw [erased, List.length_erase]
  simp

/-- What a fresh `FileStorage` holds. -/
def initialStorage (c : ClusterConfig) (id : Nat) : Option PersistRaftState :=
  if c.hasStorage id then some { valid := false, persistedTerm := 0, persistedVoteFor := 0 } else none

end ClusterConfig

/-- What happened in a run so far. No server reads it. -/
inductive Event
  | proposed (server index term : Nat) (command : CommandData)
  | accepted (server : Nat) (args : AppendEntriesArgs)
  | becameLeader (server term : Nat)
  deriving DecidableEq, Repr

/-- A `Propose` call that has left its critical section and not yet replicated its entry. -/
structure PendingPropose where
  server : Nat
  index : Nat
  term : Nat
  deriving DecidableEq, Repr

/-- The whole group: its servers, the messages in flight and the `Propose` calls in progress. -/
structure Cluster where
  config : ClusterConfig
  servers : Nat → RaftState
  net : List Packet
  pending : List PendingPropose
  history : List Event

/-- A step of the group. Clock readings and timers are chosen by the step; a lost message is one that
is never delivered. -/
inductive Label
  | tick (server : Nat) (timers : Timers)
  | propose (server : Nat) (command : CommandData)
  | replicate (n : Nat)
  | deliver (n : Nat) (now : Nat)
  | restart (server : Nat) (lm : LogManager) (junk : RaftState.Uninitialised)

def Label.isRestart : Label → Bool
  | .restart _ _ _ => true
  | _ => false

namespace Cluster

def init (c : ClusterConfig) (junk : Nat → RaftState.Uninitialised) : Cluster :=
  { config := c
    servers := fun id => RaftState.newRaftState (c.serverConfig id) (c.initialStorage id) {} (junk id)
    net := []
    pending := []
    history := [] }

/-- What a change of role from `s` to `s'` adds to the history. -/
def newLeader (id : Nat) (s s' : RaftState) : List Event :=
  if s.role ≠ .kLeader ∧ s'.role = .kLeader then [.becameLeader id s'.currentTerm] else []

/-- Server `id` ran a handler that ended in `s`: its messages go on the wire. -/
def run (σ : Cluster) (id : Nat) (s : RaftState) : Cluster :=
  { σ with
    servers := fun i => if i = id then s.flush else σ.servers i
    net := σ.net ++ s.outbox
    history := σ.history ++ newLeader id (σ.servers id) s }

def record (σ : Cluster) (events : List Event) : Cluster := { σ with history := σ.history ++ events }

/-- A member that has not stopped. -/
def isUp (σ : Cluster) (id : Nat) : Bool := decide (id < σ.config.size) && !(σ.servers id).stopped

def stepTick (σ : Cluster) (id : Nat) (timers : Timers) : Option Cluster :=
  if σ.isUp id then some (σ.run id ((σ.servers id).tick timers)) else none

def stepPropose (σ : Cluster) (id : Nat) (command : CommandData) : Option Cluster :=
  if σ.isUp id then
    let (s, result) := (σ.servers id).propose command
    if result.isLeader then
      some { (σ.run id s).record [.proposed id result.proposeIndex result.proposeTerm command] with
        pending := σ.pending ++ [{ server := id, index := result.proposeIndex, term := result.proposeTerm }] }
    else some (σ.run id s)
  else none

def stepReplicate (σ : Cluster) (n : Nat) : Option Cluster :=
  match σ.pending[n]? with
  | none => none
  | some call =>
    if σ.isUp call.server then
      some { σ.run call.server ((σ.servers call.server).replicateNewProposeEntry call.index) with
        pending := σ.pending.eraseIdx n }
    else none

/-- What the delivery of `msg` to a server in state `s` adds to the history. -/
def acceptedEvents (id : Nat) (s : RaftState) (msg : Message) (now : Nat) : List Event :=
  match msg with
  | .appendEntries args =>
    if (s.processAppendEntries args now).2.any AppendEntriesReply.success then [.accepted id args] else []
  | _ => []

/-- A message is taken from the wire when it is delivered, so it is delivered once at most. -/
def stepDeliver (σ : Cluster) (n now : Nat) : Option Cluster :=
  match σ.net[n]? with
  | none => none
  | some p =>
    if σ.isUp p.dst then
      some (({ σ with net := σ.net.eraseIdx n }.run p.dst ((σ.servers p.dst).process p.src p.msg now)).record
        (acceptedEvents p.dst (σ.servers p.dst) p.msg now))
    else none

/-- A crash and a restart: term and vote come from the header of the storage; which log entries survive
is left open. The calls in progress are gone. -/
def stepRestart (σ : Cluster) (id : Nat) (lm : LogManager) (junk : RaftState.Uninitialised) : Option Cluster :=
  if id < σ.config.size then
    some { σ.run id (RaftState.newRaftState (σ.servers id).config (σ.servers id).storage lm junk) with
      pending := σ.pending.filter fun call => call.server != id }
  else none

def step (σ : Cluster) : Label → Option Cluster
  | .tick id timers => σ.stepTick id timers
  | .propose id command => σ.stepPropose id command
  | .replicate n => σ.stepReplicate n
  | .deliver n now => σ.stepDeliver n now
  | .restart id lm junk => σ.stepRestart id lm junk

/-- The message a step takes from the wire. -/
def delivered (σ : Cluster) : Label → Option Packet
  | .deliver n _ => σ.net[n]?
  | _ => none

/-- Runs of the group whose steps all meet the condition `ok`. -/
abbrev Reach (ok : Cluster → Label → Prop) : Cluster → Cluster → Prop := Steps.Reach step ok

abbrev exec (ok : Cluster → Label → Prop) [∀ σ l, Decidable (ok σ l)] : Cluster → List Label → Option Cluster :=
  Steps.exec step ok

end Cluster

/-- A code with one parity fragment, enough for groups of three. -/
def xorIsal : Isal :=
  { parity := fun _ _ data _ => data.tail.foldl (List.zipWith (· ^^^ ·)) (data.headD [])
    recover := fun _ _ _ input _ => input.tail.foldl (List.zipWith (· ^^^ ·)) (input.headD []) }

/-- Three servers with the state machine as the receiver of entries; server 0 is preferred. -/
def ClusterConfig.threeServers (dynamicK : Nat) : ClusterConfig :=
  { size := 3
    size_pos := by decide
    size_le := by decide
    groupId := 0
    dynamicK := dynamicK
    encodingMode := 0
    lrcGrouper := none
    hasRsm := fun _ => true
    hasBridge := fun _ => false
    hasStorage := fun _ => true
    isal := xorIsal }

/-- Uninitialised memory that happens to be zero. -/
def RaftState.Uninitialised.zero : Nat → RaftState.Uninitialised := fun _ =>
  { voteMeCnt := 0
    aliveServersOfLastPoint := 0
    preleaderStripeStore :=
      { startIndex := 0, endIndex := 0, stripes := [], response := fun _ => false, nodeNum := 0, me := 0 }
    response := fun _ => false
    responseTime := fun _ => 0 }

/-- Server 0 of three is elected by both others. -/
def electZero : List Label :=
  [.tick 0 { electionExpired := true }, .deliver 0 1, .deliver 0 1, .deliver 0 1, .deliver 0 1]

/-- The leader has sent a first entry. -/
def firstEntrySent : List Label := electZero ++ [.propose 0 ⟨0, [1, 2]⟩, .replicate 0]

/-- Server 1 has stored its fragment of the entry. -/
def firstEntryStored : List Label := firstEntrySent ++ [.deliver 2 2]

/-- The answer of server 1 has made the leader commit the entry. -/
def firstEntryCommitted : List Label := firstEntryStored ++ [.deliver 5 3]

/-- Fragment number 1 of this entry, with `k = 2`. -/
def firstFragment : LogEntry :=
  { term := 1
    index := 1
    type := .kFragments
    chunkInfo := { k := 2, raftIndex := 1 }
    commandSize := 2
    fragmentField := [2] }

/-- The request that carries the fragment. -/
def firstRequest : AppendEntriesArgs :=
  { term := 1
    groupId := 0
    leaderId := 0
    prevLogIndex := 0
    prevLogTerm := 0
    prevK := 0
    leaderCommit := 0
    entryCnt := 1
    entries := [firstFragment] }

end FlexRaft
