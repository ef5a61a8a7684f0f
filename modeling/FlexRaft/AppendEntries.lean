import FlexRaft.Recovery

namespace FlexRaft

/-- A smaller `k` means a newer encoding. -/
def needOverwriteLogEntry (oldInfo newInfo : ChunkInfo) : Bool := decide (newInfo.k < oldInfo.k)

/-- A chunk info replaces the recorded one of its index only if its `k` is smaller. -/
def RaftPeer.recordChunkInfo (p : RaftPeer) (ci : ChunkInfo) : RaftPeer :=
  if (p.matchChunkInfo ci.raftIndex).all fun old => decide (ci.k < old.k) then
    { p with matchChunkInfo := fun i => if i = ci.raftIndex then some ci else p.matchChunkInfo i }
  else p

/-- The commit index a follower takes over from an accepted request. It may be smaller than the one it had. -/
def AppendEntriesArgs.followedCommit (args : AppendEntriesArgs) (commitIndex lastIndex : Nat) : Nat :=
  if commitIndex < args.leaderCommit then
    let newEntryIdx := args.prevLogIndex + args.entries.length
    min (min args.leaderCommit newEntryIdx) lastIndex
  else commitIndex

namespace LogManager

/-- The second loop of `checkConflictEntryAndAppendNew`, with the chunk infos it answers. -/
def appendNew (lm : LogManager) (entries : List LogEntry) : LogManager × List ChunkInfo :=
  (entries.foldl appendLogEntry lm, entries.map LogEntry.chunkInfo)

/-- The first loop, `raftIndex` being the place of the next entry; it goes over to the second loop at
the end of the log or at a conflict. `none` is the null dereference for an index without an entry. -/
def checkConflictEntryAndAppendNew (raftIndex : Nat) :
    List LogEntry → LogManager → Option (LogManager × List ChunkInfo)
  | [], lm => some (lm, [])
  | entry :: rest, lm =>
    if lm.lastLogEntryIndex < raftIndex then some (lm.appendNew (entry :: rest))
    else if entry.term ≠ lm.termAt raftIndex then
      some ((lm.deleteLogEntriesFrom raftIndex).appendNew (entry :: rest))
    else match lm.getSingleLogEntry raftIndex with
      | none => none
      | some ent =>
        if needOverwriteLogEntry ent.chunkInfo entry.chunkInfo then
          (checkConflictEntryAndAppendNew (raftIndex + 1) rest (lm.overWriteLogEntry entry raftIndex)).map
            fun result => (result.1, entry.chunkInfo :: result.2)
        else
          (checkConflictEntryAndAppendNew (raftIndex + 1) rest lm).map
            fun result => (result.1, ent.chunkInfo :: result.2)

end LogManager

namespace RaftState

/-- One round of `tryApplyLogEntries`; `none` is its `break`. -/
def applyNext (s : RaftState) : Option RaftState :=
  if !s.config.hasRsm && !s.config.hasBridge then some { s with lastApplied := s.lastApplied + 1 }
  else (s.lm.getSingleLogEntry (s.lastApplied + 1)).map fun ent =>
    { s with
      rsm := if s.config.hasRsm then s.rsm ++ [ent] else s.rsm
      bridge := if s.config.hasBridge then s.bridge ++ [ent] else s.bridge
      lastApplied := s.lastApplied + 1 }

def applyTimes : Nat → RaftState → RaftState
  | 0, s => s
  | n + 1, s =>
    match s.applyNext with
    | none => s
    | some s' => applyTimes n s'

/-- Each round applies one index, so the `while` loop makes at most this many. -/
def tryApplyLogEntries (s : RaftState) : RaftState := applyTimes (s.commitIndex - s.lastApplied) s

def refuseReply (s : RaftState) (expectIndex : Nat) : AppendEntriesReply :=
  { term := s.currentTerm
    success := false
    expectIndex := expectIndex
    replyId := s.id
    groupId := s.config.groupId
    chunkInfos := [] }

def acceptReply (s : RaftState) (args : AppendEntriesArgs) (chunkInfos : List ChunkInfo) : AppendEntriesReply :=
  { term := s.currentTerm
    success := true
    expectIndex := args.prevLogIndex + args.entryCnt + 1
    replyId := s.id
    groupId := s.config.groupId
    chunkInfos := chunkInfos }

/-- What every `AppendEntries` request does first, whoever sent it. -/
def hearLeader (s : RaftState) (leaderId now : Nat) : RaftState :=
  { s.updateLiveness leaderId now with electionRound := 0 }

def processAppendEntries (s : RaftState) (args : AppendEntriesArgs) (now : Nat) :
    RaftState × Option AppendEntriesReply :=
  let s := s.hearLeader args.leaderId now
  if args.term < s.currentTerm then (s, some (s.refuseReply 0))
  else
    let s := s.stepDownFor args.term
    if !s.containEntry args.prevLogIndex args.prevLogTerm args.prevK then
      (s, some (s.refuseReply (min (s.lm.lastLogEntryIndex + 1) args.prevLogIndex)))
    else if args.entryCnt ≠ args.entries.length then (s.stop, none)
    else match s.lm.checkConflictEntryAndAppendNew (args.prevLogIndex + 1) args.entries with
      | none => (s.stop, none)
      | some (lm, chunkInfos) =>
        let commitIndex := args.followedCommit s.commitIndex lm.lastLogEntryIndex
        ({ s with lm := lm, commitIndex := commitIndex }.tryApplyLogEntries, some (s.acceptReply args chunkInfos))

/-- The `k` that copies of entry `n` must have to count: from the chunk info of an LRC entry, else the
last encoding. -/
def commitRequireK (s : RaftState) (n : Nat) : Nat :=
  match s.lm.getSingleLogEntry n with
  | none => s.getLastEncodingK n
  | some ent => if ent.isLrcEncoded then ent.chunkInfo.k else s.getLastEncodingK n

def isReplicated (s : RaftState) (n : Nat) : Bool :=
  (s.lm.getSingleLogEntry n).any LogEntry.isLrcEncoded || (s.encodedStripe n).isSome

/-- The peers whose recorded chunk info for index `n` has the required `k`. -/
def agreeingPeers (s : RaftState) (n : Nat) : List Nat :=
  s.peers.filter fun peer => ((s.raftPeer peer).matchChunkInfo n).any fun ci => ci.k == s.commitRequireK n

def commitThreshold (s : RaftState) (n : Nat) : Nat := s.livenessLevel + (s.commitRequireK n + 1) / 2

def canCommit (s : RaftState) (n : Nat) : Bool :=
  decide (s.commitThreshold n ≤ (s.agreeingPeers n).length + 1) &&
    (s.lm.getSingleLogEntry n).any fun ent => ent.term == s.currentTerm

/-- The loop of `tryUpdateCommitIndex`: it ends at the first index that was never encoded, and passes
over an index that lacks agreement. -/
def tryUpdateCommitIndexAt : List Nat → RaftState → RaftState
  | [], s => s
  | n :: rest, s =>
    if !s.isReplicated n then s
    else tryUpdateCommitIndexAt rest (if s.canCommit n then { s with commitIndex := n } else s)

def tryUpdateCommitIndex (s : RaftState) : RaftState :=
  tryUpdateCommitIndexAt (indexRange (s.commitIndex + 1) s.lm.lastLogEntryIndex) s

/-- What a successful reply says about its sender. -/
def recordReply (s : RaftState) (reply : AppendEntriesReply) : RaftState :=
  s.updatePeer reply.replyId fun p => reply.chunkInfos.foldl RaftPeer.recordChunkInfo
    { p with
      nextIndex := max p.nextIndex reply.expectIndex
      matchIndex := max p.matchIndex (predIndex reply.expectIndex) }

def processAppendEntriesReply (s : RaftState) (reply : AppendEntriesReply) (now : Nat) : RaftState :=
  let s := s.updateLiveness reply.replyId now
  if s.role ≠ .kLeader ∨ reply.term < s.currentTerm then s
  else if s.currentTerm < reply.term then s.convertToFollower reply.term
  else if 32 ≤ reply.replyId ∨ reply.replyId ∉ s.peers then s
  else if reply.success then
    (s.recordReply reply).tryUpdateCommitIndex.tryApplyLogEntries
  else
    let s := if reply.expectIndex ≠ 0 then
        s.updatePeer reply.replyId fun p => { p with nextIndex := reply.expectIndex }
      else s
    s.tryApplyLogEntries

end RaftState

end FlexRaft
