import FlexRaft.Recovery

namespace FlexRaft

namespace RaftState

def requestVote (s : RaftState) (peer : Nat) : RaftState :=
  if peer = s.id ∨ 32 ≤ peer then s
  else s.send peer (.requestVote
    { term := s.currentTerm
      candidateId := s.id
      lastLogIndex := s.lm.lastLogEntryIndex
      lastLogTerm := s.lm.lastLogEntryTerm
      groupId := s.config.groupId
      candidatePriority := s.getPriorityRank })

def startElection (s : RaftState) : RaftState :=
  if s.role ≠ .kCandidate then s.stop
  else
    let s := { s with currentTerm := s.currentTerm + 1, voteFor := s.id, voteMeCnt := 1 }.persistRaftState
    if s.livenessLevel + 1 ≤ s.voteMeCnt then s.convertToPreLeader else forEach requestVote s.peers s

def convertToCandidate (s : RaftState) : RaftState :=
  { s with role := .kCandidate, electionRound := s.electionRound + 1 }.startElection

def processRequestVote (s : RaftState) (args : RequestVoteArgs) (now : Nat) : RaftState × Option RequestVoteReply :=
  let s := s.updateLiveness args.candidateId now
  let reply : RequestVoteReply :=
    { term := s.currentTerm, voteGranted := false, replyId := s.id, groupId := s.config.groupId }
  if !s.isGroupMember args.candidateId then (s, some reply)
  else if args.term < s.currentTerm then (s, some reply)
  else
    let s := s.stepDownFor args.term
    let rule1 := s.voteFor = kNotVoted ∨ s.voteFor = args.candidateId
    let rule2 := s.isLogUpToDate args.lastLogIndex args.lastLogTerm
    if rule1 ∧ rule2 then
      ({ s with voteFor := args.candidateId }.persistRaftState,
        some { reply with term := s.currentTerm, voteGranted := true })
    else (s, some { reply with term := s.currentTerm })

def incrementVoteMeCnt (s : RaftState) : RaftState := { s with voteMeCnt := s.voteMeCnt + 1 }

/-- Votes are only counted; who gave them is not recorded. -/
def processRequestVoteReply (s : RaftState) (reply : RequestVoteReply) (now : Nat) : RaftState :=
  let s := s.updateLiveness reply.replyId now
  if s.role ≠ .kCandidate ∨ reply.term < s.currentTerm then s
  else if s.currentTerm < reply.term then s.convertToFollower reply.term
  else if reply.voteGranted then
    let s := s.incrementVoteMeCnt
    if s.livenessLevel + 1 ≤ s.voteMeCnt then s.convertToPreLeader else s
  else s

end RaftState

end FlexRaft
