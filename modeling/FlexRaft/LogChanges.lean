import FlexRaft.Collecting
import FlexRaft.StoredServer

namespace FlexRaft

namespace RaftState

variable {s : RaftState}

theorem convertToFollower_lm (term : Nat) : (s.convertToFollower term).lm = s.lm := by
  fun_cases convertToFollower
  · rfl
  · rfl
  · rfl

theorem stepDownFor_lm (term : Nat) : (s.stepDownFor term).lm = s.lm := by
  unfold stepDownFor
  split
  · exact convertToFollower_lm term
  · rfl

theorem answer_lm {α : Type} {src : Nat} {wrap : α → Message} (result : RaftState × Option α) :
    (answer src wrap result).lm = result.1.lm := by
  unfold answer
  split
  · rfl
  · rfl

theorem collectFragments_lm (s : RaftState) : s.collectFragments.lm = s.lm := by
  unfold collectFragments
  dsimp only
  split
  · rfl
  · obtain ⟨out, sent⟩ := forEach_requestFragments s.peers { s with preleaderStripeStore := _ }
    rw [sent]

theorem convertToPreLeader_lm (s : RaftState) : s.convertToPreLeader.lm = s.lm := by
  unfold convertToPreLeader
  dsimp only
  split
  · exact (convertToLeaderInternal_keeps _).1
  · exact collectFragments_lm _

theorem startElection_lm (s : RaftState) : s.startElection.lm = s.lm := by
  fun_cases startElection
  · rfl
  · exact convertToPreLeader_lm _
  · obtain ⟨out, sent, _⟩ := requestVotes_spec
      { s with currentTerm := s.currentTerm + 1, voteFor := s.id, voteMeCnt := 1 }.persistRaftState
    rw [sent]
    rfl

theorem preLeaderBecomeLeader_lm (s : RaftState) : s.preLeaderBecomeLeader.lm =
    if s.livenessLevel + 1 ≤ s.preleaderStripeStore.collectedFragmentsCnt then s.decodeCollectedStripe.lm else s.lm := by
  unfold preLeaderBecomeLeader andThen
  split
  · split
    · rfl
    · exact (convertToLeaderInternal_keeps _).1
  · rfl

theorem tick_lm (running : s.stopped = false) (timers : Timers) :
    (s.tick timers).lm = if s.role = .kPreLeader then s.preLeaderBecomeLeader.lm else s.lm := by
  unfold tick
  split
  · rename_i follower
    rw [if_neg fun pre => by cases pre.symm.trans follower]
    unfold tickOnFollower convertToCandidate
    split
    · rfl
    · split
      · rfl
      · exact startElection_lm _
  · rename_i candidate
    rw [if_neg fun pre => by cases pre.symm.trans candidate]
    fun_cases tickOnCandidate
    · rfl
    · exact convertToFollower_lm _
    · exact startElection_lm s
  · rename_i waits
    rw [if_pos waits]
    unfold tickOnPreLeader andThen
    split
    · rfl
    · split
      · exact collectFragments_lm _
      · rfl
  · rename_i leads
    rw [if_neg fun pre => by cases pre.symm.trans leads]
    exact field_eq (Asking.sendAsLeader running timers).core (·.lm)

theorem processRequestVote_lm (args : RequestVoteArgs) (now : Nat) : (s.processRequestVote args now).1.lm = s.lm := by
  fun_cases processRequestVote
  · rfl
  · rfl
  · exact stepDownFor_lm args.term
  · exact stepDownFor_lm args.term

theorem processRequestVoteReply_lm (reply : RequestVoteReply) (now : Nat) :
    (s.processRequestVoteReply reply now).lm = s.lm := by
  fun_cases processRequestVoteReply
  · rfl
  · exact convertToFollower_lm reply.term
  · exact convertToPreLeader_lm _
  · rfl
  · rfl

theorem tryApplyLogEntries_lm (s : RaftState) : s.tryApplyLogEntries.lm = s.lm :=
  field_eq (tryApplyLogEntries_unapplied s) (·.lm)

theorem processAppendEntriesReply_lm (reply : AppendEntriesReply) (now : Nat) :
    (s.processAppendEntriesReply reply now).lm = s.lm := by
  unfold processAppendEntriesReply
  dsimp only
  split
  · rfl
  · split
    · exact convertToFollower_lm reply.term
    · split
      · rfl
      · split
        · obtain ⟨c, committed, _⟩ :=
            tryUpdateCommitIndex_spec ((s.updateLiveness reply.replyId now).recordReply reply)
          rw [tryApplyLogEntries_lm, committed]
          rfl
        · rw [tryApplyLogEntries_lm]
          split
          · rfl
          · rfl

theorem processRequestFragments_lm (args : RequestFragmentsArgs) (now : Nat) :
    (s.processRequestFragments args now).1.lm = s.lm := by
  unfold processRequestFragments
  dsimp only
  split
  · rfl
  · exact stepDownFor_lm args.term

theorem containEntry_congr {s' : RaftState} (lm : s'.lm = s.lm) (index term k : Nat) :
    s'.containEntry index term k = s.containEntry index term k := by
  unfold containEntry
  rw [lm]

theorem takesEntries_reaches {args : AppendEntriesArgs} (indexed : s.lm.Indexed) (taken : s.takesEntries args = true) :
    args.prevLogIndex ≤ s.lm.entries.length := by
  unfold takesEntries at taken
  rw [Bool.and_eq_true, Bool.and_eq_true] at taken
  exact containEntry_reaches indexed taken.1.2

/-- A request that does not get as far as the log leaves it alone and is not answered with success; any other is
answered once its entries are in the log. -/
theorem processAppendEntries_log (s : RaftState) (args : AppendEntriesArgs) (now : Nat) :
    s.takesEntries args = false ∧ (s.processAppendEntries args now).1.lm = s.lm ∧
        (s.processAppendEntries args now).2.any AppendEntriesReply.success = false ∨
      s.takesEntries args = true ∧
        match s.lm.checkConflictEntryAndAppendNew (args.prevLogIndex + 1) args.entries with
        | none => (s.processAppendEntries args now).1.lm = s.lm ∧
            (s.processAppendEntries args now).2.any AppendEntriesReply.success = false
        | some result => (s.processAppendEntries args now).1.lm = result.1 ∧
            (s.processAppendEntries args now).2.any AppendEntriesReply.success = true := by
  have lm : ((s.hearLeader args.leaderId now).stepDownFor args.term).lm = s.lm := stepDownFor_lm args.term
  unfold processAppendEntries takesEntries
  dsimp only
  split
  · rename_i older
    have older : args.term < s.currentTerm := older
    exact Or.inl ⟨by simp [Nat.not_le.mpr older], rfl, rfl⟩
  · rename_i current
    have current : s.currentTerm ≤ args.term := Nat.le_of_not_lt current
    rw [containEntry_congr lm]
    split
    · rename_i missing
      exact Or.inl ⟨by simp_all, lm, rfl⟩
    · rename_i contains
      split
      · rename_i miscounted
        exact Or.inl ⟨by simp [miscounted], lm, rfl⟩
      · rename_i counted
        refine Or.inr ⟨by simp_all, ?_⟩
        rw [lm]
        cases s.lm.checkConflictEntryAndAppendNew (args.prevLogIndex + 1) args.entries with
        | none => exact ⟨lm, rfl⟩
        | some result => exact ⟨tryApplyLogEntries_lm _, rfl⟩

theorem withAnswer_lm {reply : RequestFragmentsReply} {now : Nat} {t : RaftState}
    (answer : s.withAnswer reply now = some t) : t.lm = s.lm := by
  unfold withAnswer at answer
  split at answer
  · cases answer
  · obtain ⟨store, _, rfl⟩ := Option.map_eq_some_iff.mp answer
    rfl

theorem processRequestFragmentsReply_lm (reply : RequestFragmentsReply) (now : Nat) :
    (s.processRequestFragmentsReply reply now).lm =
      (s.withAnswer reply now).elim s.lm fun t => t.preLeaderBecomeLeader.lm := by
  have unread : (s.role ≠ .kPreLeader ∨ reply.term ≠ s.currentTerm ∨
      s.preleaderStripeStore.isCollected reply.replyId = true) → s.withAnswer reply now = none := fun out => if_pos out
  unfold processRequestFragmentsReply
  dsimp only
  split
  · rename_i unused
    have out : s.role ≠ .kPreLeader ∨ reply.term < s.currentTerm := unused
    rw [unread (out.imp_right fun older => Or.inl (Nat.ne_of_lt older))]
    rfl
  · rename_i used
    split
    · rename_i newer
      rw [unread (Or.inr (Or.inl (Nat.ne_of_gt newer)))]
      exact convertToFollower_lm reply.term
    · split
      · rename_i again
        rw [unread (Or.inr (Or.inr again))]
        rfl
      · rename_i old first
        have fresh : ¬ (s.role ≠ .kPreLeader ∨ reply.term ≠ s.currentTerm ∨
            s.preleaderStripeStore.isCollected reply.replyId = true) := by
          rintro (other | other | other)
          · exact used (Or.inl other)
          · rcases Nat.lt_or_gt_of_ne other with older | newer
            · exact used (Or.inr older)
            · exact old newer
          · exact first other
        have read : s.withAnswer reply now = _ := if_neg fresh
        rw [read]
        have same : (s.updateLiveness reply.replyId now).preleaderStripeStore = s.preleaderStripeStore := rfl
        rw [same]
        cases addAnswer reply.replyId reply.startIndex reply.fragments s.preleaderStripeStore with
        | none => rfl
        | some store => rfl

end RaftState

end FlexRaft
