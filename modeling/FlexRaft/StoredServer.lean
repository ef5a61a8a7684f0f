import FlexRaft.PersistQueue
import FlexRaft.Tick

namespace FlexRaft

namespace PersistQueue

variable (f : StorageFormat)

/-- `PersistRaftState` on a server with storage. -/
def persistState (q : PersistQueue) (s : RaftState) : PersistQueue :=
  let state : PersistRaftState := { valid := true, persistedTerm := s.currentTerm, persistedVoteFor := s.voteFor }
  { q with file := q.file.persistState state }

/-- A handler that led from `s` to `s'` has called `PersistRaftState` if the term rose or a vote was granted,
and that before it touched the log. -/
def saveState (q : PersistQueue) (s s' : RaftState) (granted : Bool) : PersistQueue :=
  if s.currentTerm ≠ s'.currentTerm ∨ granted then q.persistState s' else q

def sync (q : PersistQueue) : PersistQueue := { q with file := q.file.sync }

def deleteEntriesFrom (q : PersistQueue) (raftIndex : Nat) : PersistQueue :=
  { q with file := q.file.deleteEntriesFrom raftIndex }

def overwriteEntry (q : PersistQueue) (raftIndex : Nat) (ent : LogEntry) : PersistQueue :=
  { q with file := q.file.overwriteEntry f raftIndex ent }

def appendNew (q : PersistQueue) (entries : List LogEntry) : PersistQueue :=
  { q with file := entries.foldl (fun file ent => file.appendEntry f ent) q.file }

/-- What `checkConflictEntryAndAppendNew` does to the storage, in step with the loop over the log. `do_overwrite`
is false again for each entry, so every overwrite is an `OverwriteEntry`. The final `Sync` is commented out. -/
def checkConflictEntryAndAppendNew (raftIndex : Nat) : List LogEntry → LogManager → PersistQueue → PersistQueue
  | [], _, q => q
  | entry :: rest, lm, q =>
    if lm.lastLogEntryIndex < raftIndex then q.appendNew f (entry :: rest)
    else if entry.term ≠ lm.termAt raftIndex then
      (if q.isUnpersisted raftIndex then q.truncateFrom raftIndex else q.deleteEntriesFrom raftIndex).appendNew f
        (entry :: rest)
    else match lm.getSingleLogEntry raftIndex with
      | none => q
      | some ent =>
        if needOverwriteLogEntry ent.chunkInfo entry.chunkInfo then
          checkConflictEntryAndAppendNew (raftIndex + 1) rest (lm.overWriteLogEntry entry raftIndex)
            (q.overwriteEntry f raftIndex entry)
        else checkConflictEntryAndAppendNew (raftIndex + 1) rest lm q

/-- What `DecodeCollectedStripe` does to the storage. -/
def decodeStripes (s : RaftState) : List Stripe → Nat → PersistQueue → PersistQueue
  | [], _, q => q.sync
  | stripe :: rest, raftIndex, q =>
    if stripe.collectedFragments = [] then decodeStripes s rest (raftIndex + 1) q
    else match s.decodingRaftEntry stripe with
      | .stop => q
      | .failed =>
        if q.isUnpersisted raftIndex then q.truncateFrom raftIndex else (q.deleteEntriesFrom raftIndex).sync
      | .decoded ent => decodeStripes s rest (raftIndex + 1) (q.overwriteEntry f raftIndex ent)

def preLeaderBecomeLeader (s : RaftState) (q : PersistQueue) : PersistQueue :=
  if s.livenessLevel + 1 ≤ s.preleaderStripeStore.collectedFragmentsCnt then
    decodeStripes f s s.preleaderStripeStore.stripes s.preleaderStripeStore.startIndex q
  else q

end PersistQueue

namespace RaftState

/-- An `AppendEntries` request gets as far as the log. -/
def takesEntries (s : RaftState) (args : AppendEntriesArgs) : Bool :=
  decide (s.currentTerm ≤ args.term) && s.containEntry args.prevLogIndex args.prevLogTerm args.prevK &&
    decide (args.entryCnt = args.entries.length)

/-- The server as an answer to its fragment request leaves it before it looks whether it can take over; `none`
if the answer does not get that far. -/
def withAnswer (s : RaftState) (reply : RequestFragmentsReply) (now : Nat) : Option RaftState :=
  if s.role ≠ .kPreLeader ∨ reply.term ≠ s.currentTerm ∨ s.preleaderStripeStore.isCollected reply.replyId then none
  else (addAnswer reply.replyId reply.startIndex reply.fragments s.preleaderStripeStore).map fun store =>
    { s.updateLiveness reply.replyId now with preleaderStripeStore := store.updateResponseState reply.replyId }

end RaftState

/-- Where the first entry that contradicts the log stands. -/
def LogManager.conflictIndex (raftIndex : Nat) : List LogEntry → LogManager → Option Nat
  | [], _ => none
  | entry :: rest, lm =>
    if lm.lastLogEntryIndex < raftIndex then none
    else if entry.term ≠ lm.termAt raftIndex then some raftIndex
    else conflictIndex (raftIndex + 1) rest lm

/-- A server with its log file and the queue in front of it. `acks` are index and term of the entries it has
acknowledged, as far as no later conflict has removed them; the code does not have it. -/
structure StoredServer where
  raft : RaftState
  disk : PersistQueue
  acks : List (Nat × Nat)

namespace StoredServer

variable (f : StorageFormat)

inductive Label
  | tick (timers : Timers)
  | process (src : Nat) (msg : Message) (now : Nat)
  | propose (command : CommandData)
  | replicate (raftIndex : Nat)
  | collect
  | write
  | mark
  | restart (buf : List UInt8) (junk : RaftState.Uninitialised)

/-- `NewRaftState` on a storage that holds the log `lm`. -/
def boot (config : RaftConfig) (file : FileStorage) (lm : LogManager) (junk : RaftState.Uninitialised)
    (acks : List (Nat × Nat)) : StoredServer :=
  let s := RaftState.newRaftState config (some file.header.raftState) lm junk
  { raft := s, disk := (PersistQueue.start file).persistState s, acks := acks }

/-- A server with a new log file. -/
def start (config : RaftConfig) (buf : List UInt8) (junk : RaftState.Uninitialised) : StoredServer :=
  boot config (.openNew f buf) {} junk []

/-- What an accepted request adds to the acknowledged entries and removes from them. -/
def acknowledge (acks : List (Nat × Nat)) (lm : LogManager) (args : AppendEntriesArgs) : List (Nat × Nat) :=
  (acks.filter fun ack => (lm.conflictIndex (args.prevLogIndex + 1) args.entries).all fun c => decide (ack.1 < c)) ++
    args.entries.mapIdx fun i ent => (args.prevLogIndex + 1 + i, ent.term)

def tick (σ : StoredServer) (timers : Timers) : StoredServer :=
  let s := σ.raft.tick timers
  { σ with
    raft := s.flush
    disk := match σ.raft.role with
      | .kPreLeader => σ.disk.preLeaderBecomeLeader f σ.raft
      | _ => σ.disk.saveState σ.raft s false }

def processAppendEntries (σ : StoredServer) (src : Nat) (args : AppendEntriesArgs) (now : Nat) : StoredServer :=
  let s := σ.raft.process src (.appendEntries args) now
  let disk := σ.disk.saveState σ.raft s false
  { raft := s.flush
    disk := if σ.raft.takesEntries args then
        disk.checkConflictEntryAndAppendNew f (args.prevLogIndex + 1) args.entries σ.raft.lm
      else disk
    acks := if (σ.raft.processAppendEntries args now).2.any AppendEntriesReply.success then
        acknowledge σ.acks σ.raft.lm args
      else σ.acks }

def processRequestFragmentsReply (σ : StoredServer) (src : Nat) (reply : RequestFragmentsReply) (now : Nat) :
    StoredServer :=
  let s := σ.raft.process src (.requestFragmentsReply reply) now
  { σ with
    raft := s.flush
    disk := match σ.raft.withAnswer reply now with
      | none => σ.disk.saveState σ.raft s false
      | some t => σ.disk.preLeaderBecomeLeader f t }

def process (σ : StoredServer) (src : Nat) (msg : Message) (now : Nat) : StoredServer :=
  match msg with
  | .appendEntries args => σ.processAppendEntries f src args now
  | .requestFragmentsReply reply => σ.processRequestFragmentsReply f src reply now
  | .requestVote args =>
    let s := σ.raft.process src (.requestVote args) now
    let granted := (σ.raft.processRequestVote args now).2.any RequestVoteReply.voteGranted
    { σ with raft := s.flush, disk := σ.disk.saveState σ.raft s granted }
  | msg =>
    let s := σ.raft.process src msg now
    { σ with raft := s.flush, disk := σ.disk.saveState σ.raft s false }

/-- A call of `Propose` up to its push. -/
def propose (σ : StoredServer) (command : CommandData) : StoredServer :=
  let (s, result) := σ.raft.propose command
  { σ with
    raft := s.flush
    disk := if result.isLeader then
        match s.lm.getSingleLogEntry result.proposeIndex with
        | none => σ.disk
        | some entry => σ.disk.push entry result.proposeIndex
      else σ.disk }

/-- A crash, and a restart on what is in the file. -/
def restart (σ : StoredServer) (buf : List UInt8) (junk : RaftState.Uninitialised) : Option StoredServer :=
  let file := σ.disk.file.reopen f buf
  (LogManager.newLogManager f file).map fun lm => boot σ.raft.config file lm junk σ.acks

def step (σ : StoredServer) : Label → Option StoredServer
  | .tick timers => if σ.raft.stopped then none else some (σ.tick f timers)
  | .process src msg now => if σ.raft.stopped then none else some (σ.process f src msg now)
  | .propose command => if σ.raft.stopped then none else some (σ.propose command)
  | .replicate raftIndex =>
    if σ.raft.stopped then none else some { σ with raft := (σ.raft.replicateNewProposeEntry raftIndex).flush }
  | .collect => if σ.raft.stopped then none else σ.disk.collect.map fun disk => { σ with disk := disk }
  | .write => if σ.raft.stopped then none else (σ.disk.write f).map fun disk => { σ with disk := disk }
  | .mark => if σ.raft.stopped then none else σ.disk.mark.map fun disk => { σ with disk := disk }
  | .restart buf junk => σ.restart f buf junk

end StoredServer

end FlexRaft
