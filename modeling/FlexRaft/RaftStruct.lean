import FlexRaft.RaftType

namespace FlexRaft

structure RequestVoteArgs where
  term : Nat
  candidateId : Nat
  lastLogIndex : Nat
  lastLogTerm : Nat
  groupId : Nat
  candidatePriority : Nat
  deriving DecidableEq, Repr

structure RequestVoteReply where
  term : Nat
  voteGranted : Bool
  replyId : Nat
  groupId : Nat
  deriving DecidableEq, Repr

structure AppendEntriesArgs where
  term : Nat
  groupId : Nat
  leaderId : Nat
  prevLogIndex : Nat
  prevLogTerm : Nat
  prevK : Nat
  leaderCommit : Nat
  entryCnt : Nat
  entries : List LogEntry
  deriving DecidableEq, Repr

structure AppendEntriesReply where
  term : Nat
  success : Bool
  expectIndex : Nat
  replyId : Nat
  groupId : Nat
  chunkInfos : List ChunkInfo
  deriving DecidableEq, Repr

/-- `chunk_info_cnt` is set together with `chunk_infos` and only read for statistics. -/
def AppendEntriesReply.chunkInfoCnt (r : AppendEntriesReply) : Nat := r.chunkInfos.length

structure RequestFragmentsArgs where
  term : Nat
  leaderId : Nat
  startIndex : Nat
  lastIndex : Nat
  deriving DecidableEq, Repr

structure RequestFragmentsReply where
  replyId : Nat
  term : Nat
  startIndex : Nat
  success : Bool
  entryCnt : Nat
  fragments : List LogEntry
  deriving DecidableEq, Repr

inductive Message
  | requestVote (args : RequestVoteArgs)
  | requestVoteReply (reply : RequestVoteReply)
  | appendEntries (args : AppendEntriesArgs)
  | appendEntriesReply (reply : AppendEntriesReply)
  | requestFragments (args : RequestFragmentsArgs)
  | requestFragmentsReply (reply : RequestFragmentsReply)
  deriving DecidableEq, Repr

/-- A message on the wire. A reply travels back to the sender of its request. -/
structure Packet where
  src : Nat
  dst : Nat
  msg : Message
  deriving DecidableEq, Repr

end FlexRaft
