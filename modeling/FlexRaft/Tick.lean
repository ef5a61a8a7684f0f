import FlexRaft.Election
import FlexRaft.AppendEntries

namespace FlexRaft

/-- What the timers of a server say when `Tick` reads them. -/
structure Timers where
  electionExpired : Bool := false
  collectDue : Bool := false
  heartbeatDue : Bool := false
  replicateDue : Bool := false
  deriving DecidableEq, Repr

structure ProposeResult where
  proposeIndex : Nat
  proposeTerm : Nat
  isLeader : Bool
  deriving DecidableEq, Repr

namespace RaftState

def tickOnFollower (s : RaftState) (timers : Timers) : RaftState :=
  if !timers.electionExpired then s
  else if !s.isEligibleForElection then s
  else s.convertToCandidate

def tickOnCandidate (s : RaftState) (timers : Timers) : RaftState :=
  if !timers.electionExpired then s
  else if !s.isEligibleForElection then
    { s.convertToFollower s.currentTerm with electionRound := s.electionRound + 1 }
  else s.startElection

def tickOnPreLeader (s : RaftState) (timers : Timers) : RaftState :=
  s.preLeaderBecomeLeader.andThen fun s => if timers.collectDue then s.collectFragments else s

/-- The part of `tickOnLeader` after the lock is released. -/
def sendAsLeader (s : RaftState) (timers : Timers) : RaftState :=
  (if timers.heartbeatDue then s.broadcastHeartbeat else s).andThen fun s =>
    if timers.replicateDue then s.replicateEntries else s

def tick (s : RaftState) (timers : Timers) : RaftState :=
  match s.role with
  | .kFollower => s.tickOnFollower timers
  | .kCandidate => s.tickOnCandidate timers
  | .kPreLeader => s.tickOnPreLeader timers
  | .kLeader => s.sendAsLeader timers

/-- The chunk info and the fragments that `Propose` prepares in LRC mode. -/
def lrcStripe (s : RaftState) (grouper : LrcGrouper) (command : CommandData) : Option (ChunkInfo × List Slice) :=
  (grouper.encodeStripe (command.commandData.drop command.startFragmentOffset)).map fun frags =>
    ({ k := grouper.k
       raftIndex := 0
       l := grouper.l
       r := grouper.r
       lrcGroupId := grouper.lrcGroupIdForNode s.id
       keySize := (command.startFragmentOffset + UInt32.size - 29) % UInt32.size
       totalSize := (command.commandData.length - command.startFragmentOffset) % UInt32.size }, frags)

/-- The entry before its index is known. -/
def proposedEntry (s : RaftState) (command : CommandData) : LogEntry :=
  let entry : LogEntry := { type := .kNormal, term := s.currentTerm, startOffset := command.startFragmentOffset }
  entry.setCommandData command.commandData

/-- `Propose` up to the release of the lock. The replication of the new entry is a later step. -/
def propose (s : RaftState) (command : CommandData) : RaftState × ProposeResult :=
  let refused : ProposeResult := { proposeIndex := 0, proposeTerm := 0, isLeader := false }
  match (if s.config.encodingMode = 2 then s.config.lrcGrouper else none) with
  | none =>
    if s.role ≠ .kLeader then (s, refused)
    else
      let (lm, index) := s.lm.appendLogEntryAtomic (s.proposedEntry command)
      ({ s with lm := lm }, { proposeIndex := index, proposeTerm := s.currentTerm, isLeader := true })
  | some grouper =>
    if command.commandData.length < command.startFragmentOffset then (s.stop, refused)
    else match s.lrcStripe grouper command with
      | none => (s, refused)
      | some (ci, frags) =>
        if s.role ≠ .kLeader then (s, refused)
        else
          let entry := frags.foldl LogEntry.addFragment
            { s.proposedEntry command with chunkInfo := ci, placement := grouper.nodePlacementsVector }
          let (lm, index) := s.lm.appendLogEntryAtomic
            { entry with chunkInfo := { ci with raftIndex := s.lm.lastLogEntryIndex + 1 } }
          ({ s with lm := lm }, { proposeIndex := index, proposeTerm := s.currentTerm, isLeader := true })

/-- The reply of a request handler, if it came to one, goes back to where the request came from. -/
def answer {α : Type} (src : Nat) (wrap : α → Message) (result : RaftState × Option α) : RaftState :=
  match result.2 with
  | none => result.1
  | some reply => result.1.send src (wrap reply)

def process (s : RaftState) (src : Nat) (msg : Message) (now : Nat) : RaftState :=
  match msg with
  | .requestVote args => answer src .requestVoteReply (s.processRequestVote args now)
  | .requestVoteReply reply => s.processRequestVoteReply reply now
  | .appendEntries args => answer src .appendEntriesReply (s.processAppendEntries args now)
  | .appendEntriesReply reply => s.processAppendEntriesReply reply now
  | .requestFragments args => answer src .requestFragmentsReply (s.processRequestFragments args now)
  | .requestFragmentsReply reply => s.processRequestFragmentsReply reply now

/-- Values of members that `NewRaftState` leaves uninitialised. -/
structure Uninitialised where
  voteMeCnt : Nat
  aliveServersOfLastPoint : Nat
  preleaderStripeStore : PreLeaderStripeStore
  response : Nat → Bool
  responseTime : Nat → Nat

/-- `NewRaftState` followed by `Init`, with what the storage holds. -/
def newRaftState (config : RaftConfig) (storage : Option PersistRaftState) (lm : LogManager)
    (junk : Uninitialised) : RaftState :=
  let persisted := match storage with
    | none => (0, kNotVoted)
    | some state => if state.valid then (state.persistedTerm, state.persistedVoteFor) else (0, kNotVoted)
  let s : RaftState :=
    { config := config
      role := .kFollower
      currentTerm := persisted.1
      voteFor := persisted.2
      voteMeCnt := junk.voteMeCnt
      commitIndex := 0
      lastApplied := 0
      lm := lm
      storage := storage
      liveMonitor := LivenessMonitor.init
        { nodeNum := config.peers.length + 1
          response := junk.response
          responseTime := junk.responseTime
          me := config.id }
      encodedStripe := fun _ => none
      lastEncoding := fun _ => none
      preleaderStripeStore := junk.preleaderStripeStore
      raftPeer := fun _ => {}
      electionRound := 0
      aliveServersOfLastPoint := junk.aliveServersOfLastPoint
      rsm := []
      bridge := []
      outbox := []
      stopped := false }
  s.persistRaftState

end RaftState

end FlexRaft
