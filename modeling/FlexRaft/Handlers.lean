import FlexRaft.Tick
import FlexRaft.FollowerLog
import FlexRaft.Leader

namespace FlexRaft

namespace RaftState

variable {s : RaftState}

/-- The part of a server that elections leave alone. -/
def logPart (s : RaftState) : RaftState :=
  { s with
    role := .kFollower
    currentTerm := 0
    voteFor := 0
    voteMeCnt := 0
    storage := none
    liveMonitor := { nodeNum := 0, response := fun _ => false, responseTime := fun _ => 0, me := 0 }
    electionRound := 0
    outbox := []
    stopped := false }

/-- The part of a server that handing over entries leaves alone. -/
def unapplied (s : RaftState) : RaftState := { s with lastApplied := 0, rsm := [], bridge := [] }

theorem convertToFollower_spec {term : Nat} (le : s.currentTerm ≤ term) :
    (s.convertToFollower term).logPart = s.logPart ∧ (s.convertToFollower term).role = .kFollower ∧
      (s.convertToFollower term).currentTerm = term ∧ (s.convertToFollower term).electionRound = s.electionRound ∧
      (s.convertToFollower term).outbox = s.outbox ∧ (s.convertToFollower term).stopped = s.stopped := by
  unfold convertToFollower
  rw [if_neg (by omega)]
  simp only
  split
  · exact ⟨rfl, rfl, rfl, rfl, rfl, rfl⟩
  · exact ⟨rfl, rfl, by simp only; omega, rfl, rfl, rfl⟩

theorem stepDownFor_spec {t : Nat} (le : s.currentTerm ≤ t) :
    (s.stepDownFor t).logPart = s.logPart ∧ (s.role = .kFollower → (s.stepDownFor t).role = .kFollower) ∧
      (s.stepDownFor t).currentTerm = t ∧ (s.stepDownFor t).electionRound = s.electionRound ∧
      (s.stepDownFor t).outbox = s.outbox ∧ (s.stepDownFor t).stopped = s.stopped := by
  unfold stepDownFor
  split
  · obtain ⟨log, role, rest⟩ := convertToFollower_spec le
    exact ⟨log, fun _ => role, rest⟩
  · rename_i keep
    exact ⟨rfl, fun role => role, by omega, rfl, rfl, rfl⟩

section Apply

variable {s : RaftState}

theorem tryApplyLogEntries_induction {motive : RaftState → Prop} (start : motive s)
    (round : ∀ t t', motive t → t.applyNext = some t' → motive t') : motive s.tryApplyLogEntries := by
  suffices loop : ∀ n t, motive t → motive (applyTimes n t) from loop _ s start
  intro n
  induction n with
  | zero => exact fun t holds => holds
  | succ n ih =>
    intro t holds
    unfold applyTimes
    split
    · exact holds
    · rename_i t' next
      exact ih t' (round t t' holds next)

theorem applyNext_spec {s' : RaftState} (next : s.applyNext = some s') :
    s'.unapplied = s.unapplied ∧ s'.lastApplied = s.lastApplied + 1 := by
  unfold applyNext at next
  split at next
  · cases next
    exact ⟨rfl, rfl⟩
  · obtain ⟨ent, _, rfl⟩ := Option.map_eq_some_iff.mp next
    exact ⟨rfl, rfl⟩

theorem tryApplyLogEntries_unapplied (s : RaftState) : s.tryApplyLogEntries.unapplied = s.unapplied :=
  tryApplyLogEntries_induction (motive := fun t => t.unapplied = s.unapplied) rfl
    fun _ _ same next => (applyNext_spec next).1.trans same

theorem applyTimes_lastApplied_le (n : Nat) (s : RaftState) : (applyTimes n s).lastApplied ≤ s.lastApplied + n := by
  induction n generalizing s with
  | zero => exact le_rfl
  | succ n ih =>
    unfold applyTimes
    split
    · omega
    · rename_i t next
      have step := (applyNext_spec next).2
      have rest := ih t
      omega

theorem tryApplyLogEntries_lastApplied_le (le : s.lastApplied ≤ s.commitIndex) :
    s.tryApplyLogEntries.lastApplied ≤ s.commitIndex := by
  have bound := applyTimes_lastApplied_le (s.commitIndex - s.lastApplied) s
  unfold tryApplyLogEntries
  omega

end Apply

/-- The commit loop stays where it is, or ends at an index it could commit, past indices that were all
encoded. -/
theorem tryUpdateCommitIndexAt_spec {ns : List Nat} (sorted : ns.Pairwise (· < ·))
    (above : ∀ n ∈ ns, s.commitIndex < n) :
    ∃ c, tryUpdateCommitIndexAt ns s = { s with commitIndex := c } ∧
      (c = s.commitIndex ∨ c ∈ ns ∧ s.canCommit c ∧ ∀ i ∈ ns, i ≤ c → s.isReplicated i) := by
  induction ns generalizing s with
  | nil => exact ⟨s.commitIndex, rfl, Or.inl rfl⟩
  | cons n rest ih =>
    obtain ⟨before, sortedRest⟩ := List.pairwise_cons.mp sorted
    unfold tryUpdateCommitIndexAt
    split
    · exact ⟨s.commitIndex, rfl, Or.inl rfl⟩
    · rename_i replicated
      have encoded : s.isReplicated n := by simpa using replicated
      split
      · rename_i here
        obtain ⟨c, run, outcome⟩ := ih (s := { s with commitIndex := n }) sortedRest before
        refine ⟨c, run, Or.inr ?_⟩
        rcases outcome with rfl | ⟨member, can, all⟩
        · refine ⟨List.mem_cons_self, here, fun i inNs le => ?_⟩
          rcases List.mem_cons.mp inNs with rfl | later
          · exact encoded
          · exact absurd (before i later) (Nat.not_lt.mpr le)
        · refine ⟨List.mem_cons_of_mem n member, can, fun i inNs le => ?_⟩
          rcases List.mem_cons.mp inNs with rfl | later
          · exact encoded
          · exact all i later le
      · obtain ⟨c, run, outcome⟩ := ih sortedRest fun i later => above i (List.mem_cons_of_mem n later)
        refine ⟨c, run, outcome.imp_right ?_⟩
        rintro ⟨member, can, all⟩
        refine ⟨List.mem_cons_of_mem n member, can, fun i inNs le => ?_⟩
        rcases List.mem_cons.mp inNs with rfl | later
        · exact encoded
        · exact all i later le

theorem tryUpdateCommitIndex_spec (s : RaftState) :
    ∃ c, s.tryUpdateCommitIndex = { s with commitIndex := c } ∧ s.commitIndex ≤ c ∧
      (c = s.commitIndex ∨ c ≤ s.lm.lastLogEntryIndex ∧ s.canCommit c ∧
        ∀ i, s.commitIndex < i → i ≤ c → s.isReplicated i) := by
  have above : ∀ n ∈ indexRange (s.commitIndex + 1) s.lm.lastLogEntryIndex, s.commitIndex < n :=
    fun n member => (mem_indexRange.mp member).1
  obtain ⟨c, run, outcome⟩ := tryUpdateCommitIndexAt_spec List.pairwise_lt_range' above
  refine ⟨c, run, ?_, outcome.imp_right ?_⟩
  · rcases outcome with rfl | ⟨member, _⟩
    · exact le_rfl
    · exact Nat.le_of_lt (above c member)
  · rintro ⟨member, can, all⟩
    have bound := (mem_indexRange.mp member).2
    exact ⟨bound, can, fun i low high => all i (mem_indexRange.mpr ⟨low, high.trans bound⟩) high⟩

section Elections

variable {s : RaftState}

theorem processRequestVote_spec (args : RequestVoteArgs) (now : Nat) (follower : s.role = .kFollower) :
    let result := s.processRequestVote args now
    result.1.logPart = s.logPart ∧ result.1.role = .kFollower ∧ result.1.electionRound = s.electionRound ∧
      result.1.outbox = s.outbox ∧ result.1.stopped = s.stopped ∧ s.currentTerm ≤ result.1.currentTerm ∧
      result.1.currentTerm ≤ max s.currentTerm args.term ∧
      ∃ reply, result.2 = some reply ∧ reply.term = result.1.currentTerm := by
  intro result
  simp only [result]
  unfold processRequestVote
  simp only
  split
  · exact ⟨rfl, follower, rfl, rfl, rfl, le_rfl, le_max_left _ _, _, rfl, rfl⟩
  · split
    · exact ⟨rfl, follower, rfl, rfl, rfl, le_rfl, le_max_left _ _, _, rfl, rfl⟩
    · rename_i current
      obtain ⟨log, role, term, round, out, stopped⟩ :=
        stepDownFor_spec (s := s.updateLiveness args.candidateId now) (Nat.le_of_not_lt current)
      have low : s.currentTerm ≤ ((s.updateLiveness args.candidateId now).stepDownFor args.term).currentTerm := by
        rw [term]
        exact Nat.le_of_not_lt current
      have high : ((s.updateLiveness args.candidateId now).stepDownFor args.term).currentTerm ≤
          max s.currentTerm args.term := by
        rw [term]
        exact le_max_right _ _
      split
      · exact ⟨log, role follower, round, out, stopped, low, high, _, rfl, rfl⟩
      · exact ⟨log, role follower, round, out, stopped, low, high, _, rfl, rfl⟩

/-- A request for a vote of candidate `s`. -/
def VoteRequest (s : RaftState) (p : Packet) : Prop :=
  p.src = s.id ∧ p.dst ∈ s.peers ∧ ∃ args, p.msg = .requestVote args ∧ args.term = s.currentTerm ∧
    args.candidateId = s.id

theorem requestVotes_spec (s : RaftState) :
    ∃ out, forEach requestVote s.peers s = { s with outbox := out } ∧ ∀ p ∈ out, p ∈ s.outbox ∨ s.VoteRequest p := by
  refine forEach_rel (R := fun s t => ∃ out, t = { s with outbox := out } ∧ ∀ p ∈ out, p ∈ s.outbox ∨ s.VoteRequest p)
    (fun s => ⟨s.outbox, rfl, fun p member => Or.inl member⟩) ?_ ?_
  · rintro a b c ⟨out, rfl, old⟩ ⟨out', rfl, new⟩
    exact ⟨out', rfl, fun p member => (new p member).elim (old p) Or.inr⟩
  · rintro t peer ⟨out, rfl, _⟩ member
    unfold requestVote
    split
    · exact ⟨out, rfl, fun p inOut => Or.inl inOut⟩
    · refine ⟨_, rfl, fun p inOut => ?_⟩
      rcases List.mem_append.mp inOut with old | new
      · exact Or.inl old
      · rw [List.mem_singleton.mp new]
        exact Or.inr ⟨rfl, member, _, rfl, rfl, rfl⟩

/-- A server that has nothing to recover as it takes over the leadership. -/
def asLeader (s : RaftState) : RaftState := { s with role := .kLeader, electionRound := 0 }.resetNextIndexAndMatchIndex

theorem asLeader_nextIndex {p : Nat} (member : p ∈ s.peers) (bound : p < 32) :
    (s.asLeader.raftPeer p).nextIndex = s.lm.lastLogEntryIndex + 1 := by
  have inside : p ∈ RaftState.peers { s with role := .kLeader, electionRound := 0 } ∧ p < 32 := ⟨member, bound⟩
  simp only [asLeader, resetNextIndexAndMatchIndex, if_pos inside]

theorem asLeader_matched (s : RaftState) (p : Nat) :
    (s.asLeader.raftPeer p).matchChunkInfo = (s.raftPeer p).matchChunkInfo := by
  simp only [asLeader, resetNextIndexAndMatchIndex]
  split <;> rfl

theorem convertToPreLeader_of_nothing (nothing : s.commitIndex = s.lm.lastLogEntryIndex) :
    s.convertToPreLeader = s.asLeader.broadcastHeartbeat := by
  unfold convertToPreLeader
  simp only
  rw [if_pos nothing]
  rfl

/-- A candidate that gets an answer does not change, counts a vote, or has won. -/
theorem processRequestVoteReply_spec {reply : RequestVoteReply} (now : Nat) (term : reply.term ≤ s.currentTerm) :
    ∃ u, u.logPart = s.logPart ∧ u.role = s.role ∧ u.currentTerm = s.currentTerm ∧ u.outbox = s.outbox ∧
      (s.processRequestVoteReply reply now = u ∨
        s.role = .kCandidate ∧ s.processRequestVoteReply reply now = u.convertToPreLeader) := by
  have notNewer : ¬(s.updateLiveness reply.replyId now).currentTerm < reply.term := Nat.not_lt.mpr term
  unfold processRequestVoteReply
  simp only
  split
  · exact ⟨s.updateLiveness reply.replyId now, rfl, rfl, rfl, rfl, Or.inl rfl⟩
  · rename_i counted
    have candidate : s.role = .kCandidate := Decidable.not_not.mp fun other => counted (Or.inl other)
    split
    · split
      · exact ⟨(s.updateLiveness reply.replyId now).incrementVoteMeCnt, rfl, rfl, rfl, rfl, Or.inr ⟨candidate, rfl⟩⟩
      · exact ⟨(s.updateLiveness reply.replyId now).incrementVoteMeCnt, rfl, rfl, rfl, rfl, Or.inl rfl⟩
    · exact ⟨s.updateLiveness reply.replyId now, rfl, rfl, rfl, rfl, Or.inl rfl⟩

/-- A candidate that starts an election asks for votes in the next term, or has won by its own vote. -/
theorem startElection_spec (candidate : s.role = .kCandidate) :
    ∃ u, u.logPart = s.logPart ∧ u.role = .kCandidate ∧ u.currentTerm = s.currentTerm + 1 ∧ u.outbox = s.outbox ∧
      (s.startElection = u.convertToPreLeader ∨ s.startElection = forEach requestVote u.peers u) := by
  unfold startElection
  rw [if_neg (not_not_intro candidate)]
  simp only
  generalize standing :
    { s with currentTerm := s.currentTerm + 1, voteFor := s.id, voteMeCnt := 1 }.persistRaftState = u
  refine ⟨u, by rw [← standing]; rfl, by rw [← standing]; exact candidate, by rw [← standing]; rfl,
    by rw [← standing]; rfl, ?_⟩
  split
  · exact Or.inl rfl
  · exact Or.inr rfl

end Elections

section Replication

variable {s : RaftState}

/-- `t` is server `s` after it has accepted `args` and before it hands over entries. -/
structure Accepted (s : RaftState) (args : AppendEntriesArgs) (t : RaftState) (infos : List ChunkInfo) : Prop where
  contains : s.containEntry args.prevLogIndex args.prevLogTerm args.prevK = true
  reaches : args.prevLogIndex ≤ s.lm.entries.length
  merged : s.lm.Merged args.prevLogIndex args.entries t.lm infos
  state : t.logPart =
    { s with lm := t.lm, commitIndex := args.followedCommit s.commitIndex t.lm.lastLogEntryIndex }.logPart
  role : t.role = .kFollower
  round : t.electionRound = 0
  term : t.currentTerm = args.term
  outbox : t.outbox = s.outbox
  stopped : t.stopped = s.stopped

/-- `t` is server `s` after it has refused `args`. -/
structure Refused (s : RaftState) (args : AppendEntriesArgs) (t : RaftState) (reply : AppendEntriesReply) : Prop where
  state : t.logPart = s.logPart
  role : t.role = .kFollower
  round : t.electionRound = 0
  term : t.currentTerm = args.term
  outbox : t.outbox = s.outbox
  stopped : t.stopped = s.stopped
  replyTerm : reply.term = args.term
  failure : reply.success = false

/-- A follower refuses a request of its leader or lays its entries over the log; nothing else can
happen if the request does not contradict the log. -/
theorem processAppendEntries_spec {args : AppendEntriesArgs} (now : Nat) (follower : s.role = .kFollower)
    (term : s.currentTerm ≤ args.term) (indexed : s.lm.Indexed) (count : args.entryCnt = args.entries.length)
    (places : ∀ i e, args.entries[i]? = some e → e.index = args.prevLogIndex + 1 + i)
    (agree : ∀ i e old, args.entries[i]? = some e → s.lm.entries[args.prevLogIndex + i]? = some old →
      e.term = old.term) :
    (∃ t reply, s.processAppendEntries args now = (t, some reply) ∧ Refused s args t reply) ∨
      ∃ t infos, s.processAppendEntries args now = (t.tryApplyLogEntries, some (t.acceptReply args infos)) ∧
        Accepted s args t infos := by
  obtain ⟨log, role, newTerm, round, out, stopped⟩ := stepDownFor_spec
    (s := s.hearLeader args.leaderId now) (t := args.term) term
  have current : ¬args.term < (s.hearLeader args.leaderId now).currentTerm := Nat.not_lt.mpr term
  unfold processAppendEntries
  simp only
  rw [if_neg current]
  generalize (s.hearLeader args.leaderId now).stepDownFor args.term = u at *
  have lm : u.lm = s.lm := field_eq log (·.lm)
  split
  · exact Or.inl ⟨u, _, rfl, log, role follower, round, newTerm, out, stopped, newTerm, rfl⟩
  · rename_i found
    have same : u.containEntry args.prevLogIndex args.prevLogTerm args.prevK =
        s.containEntry args.prevLogIndex args.prevLogTerm args.prevK := by
      unfold containEntry
      rw [lm]
    have contains : s.containEntry args.prevLogIndex args.prevLogTerm args.prevK = true := by simpa [same] using found
    have reaches := containEntry_reaches indexed contains
    obtain ⟨lm', infos, run, merged⟩ :=
      LogManager.checkConflictEntryAndAppendNew_merged indexed reaches places agree
    rw [if_neg (not_not_intro count), lm, run]
    have config : u.config = s.config := field_eq log (·.config)
    have commit : u.commitIndex = s.commitIndex := field_eq log (·.commitIndex)
    right
    refine ⟨{ u with lm := lm', commitIndex := args.followedCommit s.commitIndex lm'.lastLogEntryIndex }, infos, ?_,
      contains, reaches, merged, ?_, role follower, round, newTerm, out, stopped⟩
    · simp only [commit, acceptReply, newTerm, id, config]
    · exact congrArg (fun t : RaftState =>
        { t with lm := lm', commitIndex := args.followedCommit s.commitIndex lm'.lastLogEntryIndex }) log

/-- A leader that gets an answer of its own term or an older one ignores it, records a success and
commits, or notes where to go on. -/
theorem processAppendEntriesReply_spec {reply : AppendEntriesReply} (now : Nat) (term : reply.term ≤ s.currentTerm) :
    s.processAppendEntriesReply reply now = s.updateLiveness reply.replyId now ∨
    (s.role = .kLeader ∧ reply.success = true ∧ reply.term = s.currentTerm ∧ reply.replyId ∈ s.peers ∧
      s.processAppendEntriesReply reply now =
        ((s.updateLiveness reply.replyId now).recordReply reply).tryUpdateCommitIndex.tryApplyLogEntries) ∨
    (s.role = .kLeader ∧ ∃ u, s.processAppendEntriesReply reply now = u.tryApplyLogEntries ∧
      (u = s.updateLiveness reply.replyId now ∨ reply.expectIndex ≠ 0 ∧
        u = (s.updateLiveness reply.replyId now).updatePeer reply.replyId
          fun p => { p with nextIndex := reply.expectIndex })) := by
  have notNewer : ¬(s.updateLiveness reply.replyId now).currentTerm < reply.term := Nat.not_lt.mpr term
  unfold processAppendEntriesReply
  simp only
  split
  · exact Or.inl rfl
  · rename_i used
    have leader : s.role = .kLeader := Decidable.not_not.mp fun other => used (Or.inl other)
    have current : reply.term = s.currentTerm := le_antisymm term (Nat.le_of_not_lt fun older => used (Or.inr older))
    split
    · exact Or.inl rfl
    · rename_i valid
      split
      · rename_i success
        exact Or.inr (Or.inl ⟨leader, success, current, Decidable.not_not.mp fun no => valid (Or.inr no), rfl⟩)
      · split
        · rename_i expect
          exact Or.inr (Or.inr ⟨leader, _, rfl, Or.inr ⟨expect, rfl⟩⟩)
        · exact Or.inr (Or.inr ⟨leader, _, rfl, Or.inl rfl⟩)

end Replication

theorem LeaderStep.sendAsLeader (s : RaftState) (timers : Timers) : LeaderStep s (s.sendAsLeader timers) := by
  unfold RaftState.sendAsLeader
  refine .andThen ?_ ?_
  · split
    · exact .broadcastHeartbeat s
    · exact .refl s
  · generalize (if timers.heartbeatDue = true then s.broadcastHeartbeat else s) = t
    split
    · exact .replicateEntries t
    · exact .refl t

/-- `frag` belongs to the LRC stripe of `command`. -/
def StripeFragment (c : RaftConfig) (command : CommandData) (frag : Slice) : Prop :=
  ∃ grouper frags, c.lrcGrouper = some grouper ∧
    grouper.encodeStripe (command.commandData.drop command.startFragmentOffset) = some frags ∧ frag ∈ frags

/-- The entry a leader appends for `command`. -/
structure ProposedEntry (s : RaftState) (command : CommandData) (e : LogEntry) : Prop where
  index : e.index = s.lm.lastLogEntryIndex + 1
  term : e.term = s.currentTerm
  type : e.type = .kNormal
  commandData : e.commandDataField = command.commandData
  startOffset : e.startOffset = command.startFragmentOffset
  commandSize : e.commandSize = command.commandData.length
  chunkInfo : if s.config.lrcMode then e.chunkInfo.raftIndex = s.lm.lastLogEntryIndex + 1
    else e.chunkInfo = { k := 0, raftIndex := 0 }
  fragments : ∀ frag ∈ e.fragments, StripeFragment s.config command frag

theorem foldl_addFragment_fields {α : Type} (field : LogEntry → α)
    (kept : ∀ e fragments fragIds, field { e with fragments := fragments, fragIds := fragIds } = field e)
    (frags : List Slice) (e : LogEntry) : field (frags.foldl LogEntry.addFragment e) = field e := by
  induction frags generalizing e with
  | nil => rfl
  | cons frag rest ih =>
    rw [List.foldl_cons, ih]
    unfold LogEntry.addFragment LogEntry.addFragmentWithId
    split
    · rfl
    · exact kept e _ _

theorem foldl_addFragment_subset (frags : List Slice) (e : LogEntry) :
    (frags.foldl LogEntry.addFragment e).fragments ⊆ e.fragments ++ frags := by
  induction frags generalizing e with
  | nil => simp
  | cons frag rest ih =>
    intro g member
    rw [List.foldl_cons] at member
    have inRest := ih _ member
    unfold LogEntry.addFragment LogEntry.addFragmentWithId at inRest
    split at inRest
    · rcases List.mem_append.mp inRest with old | new
      · exact List.mem_append_left _ old
      · exact List.mem_append_right _ (List.mem_cons_of_mem _ new)
    · simpa using inRest

theorem propose_spec (s : RaftState) (command : CommandData) :
    ((s.propose command).2.isLeader = false ∧ ((s.propose command).1 = s ∨ (s.propose command).1 = s.stop)) ∨
      ((s.propose command).2.isLeader = true ∧ s.role = .kLeader ∧
        (s.propose command).2.proposeIndex = s.lm.lastLogEntryIndex + 1 ∧
        (s.propose command).2.proposeTerm = s.currentTerm ∧
        ∃ e, ProposedEntry s command e ∧ (s.propose command).1 = { s with lm := s.lm.appendLogEntry e }) := by
  unfold propose
  simp only
  split
  · rename_i noGrouper
    split
    · exact Or.inl ⟨rfl, Or.inl rfl⟩
    · rename_i leader
      refine Or.inr ⟨rfl, Decidable.not_not.mp leader, rfl, rfl, _, ⟨rfl, rfl, rfl, rfl, rfl, rfl, ?_, ?_⟩, rfl⟩
      swap
      · simp [proposedEntry, LogEntry.setCommandData]
      have mode : s.config.lrcMode = false := by
        unfold RaftConfig.lrcMode
        split at noGrouper
        · simp [noGrouper]
        · rename_i other
          simp [other]
      rw [if_neg (by simp [mode])]
      rfl
  · rename_i grouper found
    split
    · exact Or.inl ⟨rfl, Or.inr rfl⟩
    · split
      · exact Or.inl ⟨rfl, Or.inl rfl⟩
      · rename_i ci frags striped
        split
        · exact Or.inl ⟨rfl, Or.inl rfl⟩
        · rename_i leader
          have mode : s.config.lrcMode = true := by
            unfold RaftConfig.lrcMode
            split at found
            · rename_i two
              simp [found, two]
            · cases found
          refine Or.inr ⟨rfl, Decidable.not_not.mp leader, rfl, rfl, _, ⟨rfl, ?_, ?_, ?_, ?_, ?_, ?_, ?_⟩, rfl⟩
          · exact foldl_addFragment_fields LogEntry.term (fun _ _ _ => rfl) frags _
          · exact foldl_addFragment_fields LogEntry.type (fun _ _ _ => rfl) frags _
          · exact foldl_addFragment_fields LogEntry.commandDataField (fun _ _ _ => rfl) frags _
          · exact foldl_addFragment_fields LogEntry.startOffset (fun _ _ _ => rfl) frags _
          · exact foldl_addFragment_fields LogEntry.commandSize (fun _ _ _ => rfl) frags _
          · rw [if_pos mode]
          · obtain ⟨made, encoded, same⟩ := Option.map_eq_some_iff.mp striped
            cases same
            have present : s.config.lrcGrouper = some grouper := by
              split at found
              · exact found
              · cases found
            intro frag member
            have inside := foldl_addFragment_subset frags _ member
            exact ⟨grouper, frags, present, encoded, by simpa [proposedEntry, LogEntry.setCommandData] using inside⟩

end RaftState

end FlexRaft
