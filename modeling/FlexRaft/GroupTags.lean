import FlexRaft.Handlers
import FlexRaft.Unlocked

namespace FlexRaft

/-- The `group_id` a sender has put into a message. `collectFragments` leaves the one of its requests as it
finds it in memory, and the answer to such a request has none. -/
def Message.groupId? : Message → Option Nat
  | .requestVote args => some args.groupId
  | .requestVoteReply reply => some reply.groupId
  | .appendEntries args => some args.groupId
  | .appendEntriesReply reply => some reply.groupId
  | .requestFragments _ | .requestFragmentsReply _ => none

/-- The message names no group other than `g`. -/
def Message.Names (g : Nat) (msg : Message) : Prop := ∀ h ∈ msg.groupId?, h = g

theorem Message.names_self {msg : Message} {g : Nat} (field : msg.groupId? = some g) : msg.Names g := by
  intro h named
  rw [field] at named
  exact (Option.mem_some.mp named).symm

namespace RaftState

/-- A server of group `g` whose messages name no other group. -/
structure Tagged (g : Nat) (s : RaftState) : Prop where
  group : s.config.groupId = g
  outbox : ∀ p ∈ s.outbox, p.msg.Names g

variable {g : Nat} {s s' : RaftState} {msg : Message}

theorem Tagged.silent (tagged : s.Tagged g) (config : s'.config = s.config) (outbox : s'.outbox = s.outbox) :
    s'.Tagged g :=
  ⟨config ▸ tagged.group, outbox ▸ tagged.outbox⟩

theorem Tagged.send (tagged : s.Tagged g) {dst : Nat} (names : msg.Names g) : (s.send dst msg).Tagged g :=
  ⟨tagged.group, List.forall_mem_append.mpr ⟨tagged.outbox, List.forall_mem_singleton.mpr names⟩⟩

theorem Tagged.names (tagged : s.Tagged g) (field : msg.groupId? = some s.config.groupId) : msg.Names g :=
  Message.names_self (tagged.group ▸ field)

theorem Tagged.forEach {α : Type} (tagged : s.Tagged g) {f : RaftState → α → RaftState} {items : List α}
    (round : ∀ t a, t.Tagged g → (f t a).Tagged g) : (RaftState.forEach f items s).Tagged g :=
  forEach_rel (R := fun s t => s.Tagged g → t.Tagged g) (fun _ h => h) (fun h k t => k (h t))
    (fun t a _ _ => round t a) tagged

theorem Tagged.sendHeartBeat (tagged : s.Tagged g) (peer : Nat) : (s.sendHeartBeat peer).Tagged g := by
  unfold RaftState.sendHeartBeat
  split
  · exact tagged
  · exact tagged.send (tagged.names rfl)

theorem Tagged.act (tagged : s.Tagged g) (a : SendAction) : (s.act a).1.Tagged g := by
  cases s.acts a with
  | silent core outbox => exact tagged.silent (field_eq core (·.config)) outbox
  | sends sent request =>
    rw [sent]
    exact tagged.send (tagged.names (congrArg some request.groupId))

theorem Performs.tagged {todo : List SendAction} (performs : Performs s todo s') (tagged : s.Tagged g) : s'.Tagged g := by
  induction performs with
  | done => exact tagged
  | stopped => exact tagged
  | next _ _ ih => exact ih (tagged.act _)

theorem Tagged.replicateNewProposeEntry (tagged : s.Tagged g) (running : s.stopped = false) (j : Nat) :
    (s.replicateNewProposeEntry j).Tagged g :=
  (performs_replicateNew running j).tagged tagged

theorem Tagged.convertToLeaderInternal (tagged : s.Tagged g) : s.convertToLeaderInternal.Tagged g := by
  unfold RaftState.convertToLeaderInternal
  split
  · exact tagged
  · refine Tagged.forEach ?_ fun t peer holds => ?_
    · exact tagged.silent rfl rfl
    · split
      · exact holds
      · exact holds.sendHeartBeat peer

theorem Tagged.collectFragments (tagged : s.Tagged g) : s.collectFragments.Tagged g := by
  unfold RaftState.collectFragments
  dsimp only
  split
  · exact tagged.silent rfl rfl
  · refine Tagged.forEach ?_ fun t peer holds => ?_
    · exact tagged.silent rfl rfl
    · unfold RaftState.requestFragments
      split
      · exact holds
      · exact holds.send nofun

theorem Tagged.convertToPreLeader (tagged : s.Tagged g) : s.convertToPreLeader.Tagged g := by
  have pre : { s with role := .kPreLeader }.Tagged g := tagged.silent rfl rfl
  unfold RaftState.convertToPreLeader
  dsimp only
  split
  · exact pre.convertToLeaderInternal
  · exact pre.collectFragments

theorem Tagged.decodeStripes (tagged : s.Tagged g) (stripes : List Stripe) (raftIndex : Nat) :
    (RaftState.decodeStripes stripes raftIndex s).Tagged g := by
  induction stripes generalizing raftIndex s with
  | nil => exact tagged
  | cons stripe rest ih =>
    unfold RaftState.decodeStripes
    split
    · exact ih tagged (raftIndex + 1)
    · split
      · exact tagged.silent rfl rfl
      · exact tagged.silent rfl rfl
      · refine ih ?_ (raftIndex + 1)
        exact tagged.silent rfl rfl

theorem Tagged.preLeaderBecomeLeader (tagged : s.Tagged g) : s.preLeaderBecomeLeader.Tagged g := by
  unfold RaftState.preLeaderBecomeLeader
  split
  · have decoded : s.decodeCollectedStripe.Tagged g := tagged.decodeStripes _ _
    unfold andThen
    split
    · exact decoded
    · exact decoded.convertToLeaderInternal
  · exact tagged

theorem Tagged.startElection (tagged : s.Tagged g) : s.startElection.Tagged g := by
  fun_cases RaftState.startElection
  · exact tagged.silent rfl rfl
  · exact Tagged.convertToPreLeader (tagged.silent rfl rfl)
  · refine Tagged.forEach ?_ fun t peer holds => ?_
    · exact tagged.silent rfl rfl
    · unfold RaftState.requestVote
      split
      · exact holds
      · exact holds.send (holds.names rfl)

theorem Tagged.convertToFollower (tagged : s.Tagged g) (term : Nat) : (s.convertToFollower term).Tagged g := by
  fun_cases RaftState.convertToFollower <;> exact tagged.silent rfl rfl

theorem Tagged.stepDownFor (tagged : s.Tagged g) (term : Nat) : (s.stepDownFor term).Tagged g := by
  fun_cases RaftState.stepDownFor
  · exact tagged.convertToFollower term
  · exact tagged

theorem Tagged.tick (tagged : s.Tagged g) (running : s.stopped = false) (timers : Timers) : (s.tick timers).Tagged g := by
  unfold RaftState.tick
  split
  · fun_cases RaftState.tickOnFollower
    · exact tagged
    · exact tagged
    · exact Tagged.startElection (tagged.silent rfl rfl)
  · fun_cases RaftState.tickOnCandidate
    · exact tagged
    · exact (tagged.convertToFollower s.currentTerm).silent rfl rfl
    · exact tagged.startElection
  · unfold tickOnPreLeader andThen
    split
    · exact tagged.preLeaderBecomeLeader
    · split
      · exact tagged.preLeaderBecomeLeader.collectFragments
      · exact tagged.preLeaderBecomeLeader
  · exact (performs_sendAsLeader running timers).tagged tagged

theorem Tagged.tryApplyLogEntries (tagged : s.Tagged g) : s.tryApplyLogEntries.Tagged g :=
  tagged.silent (field_eq (tryApplyLogEntries_unapplied s) (·.config))
    (field_eq (tryApplyLogEntries_unapplied s) (·.outbox))

theorem Tagged.requestVote (tagged : s.Tagged g) (src : Nat) (args : RequestVoteArgs) (now : Nat) :
    (RaftState.answer src .requestVoteReply (s.processRequestVote args now)).Tagged g := by
  have heard : (s.updateLiveness args.candidateId now).Tagged g := tagged.silent rfl rfl
  have follows := heard.stepDownFor args.term
  fun_cases RaftState.processRequestVote
  · exact heard.send (heard.names rfl)
  · exact heard.send (heard.names rfl)
  · exact (follows.send (heard.names rfl)).silent rfl rfl
  · exact follows.send (heard.names rfl)

theorem Tagged.processRequestVoteReply (tagged : s.Tagged g) (reply : RequestVoteReply) (now : Nat) :
    (s.processRequestVoteReply reply now).Tagged g := by
  have heard : (s.updateLiveness reply.replyId now).Tagged g := tagged.silent rfl rfl
  have counted : (s.updateLiveness reply.replyId now).incrementVoteMeCnt.Tagged g := heard.silent rfl rfl
  fun_cases RaftState.processRequestVoteReply
  · exact heard
  · exact heard.convertToFollower reply.term
  · exact counted.convertToPreLeader
  · exact counted
  · exact heard

theorem Tagged.appendEntries (tagged : s.Tagged g) (src : Nat) (args : AppendEntriesArgs) (now : Nat) :
    (RaftState.answer src .appendEntriesReply (s.processAppendEntries args now)).Tagged g := by
  have heard : (s.hearLeader args.leaderId now).Tagged g := tagged.silent rfl rfl
  have follows := heard.stepDownFor args.term
  fun_cases RaftState.processAppendEntries
  · exact heard.send (heard.names rfl)
  · exact follows.send (follows.names rfl)
  · exact follows.silent rfl rfl
  · exact follows.silent rfl rfl
  · refine Tagged.send (Tagged.tryApplyLogEntries ?_) (follows.names rfl)
    exact follows.silent rfl rfl

theorem Tagged.processAppendEntriesReply (tagged : s.Tagged g) (reply : AppendEntriesReply) (now : Nat) :
    (s.processAppendEntriesReply reply now).Tagged g := by
  have heard : (s.updateLiveness reply.replyId now).Tagged g := tagged.silent rfl rfl
  fun_cases RaftState.processAppendEntriesReply
  · exact heard
  · exact heard.convertToFollower reply.term
  · exact heard
  · obtain ⟨c, committed, _⟩ := tryUpdateCommitIndex_spec ((s.updateLiveness reply.replyId now).recordReply reply)
    rw [committed]
    exact Tagged.tryApplyLogEntries (heard.silent rfl rfl)
  · refine Tagged.tryApplyLogEntries ?_
    change Tagged g (ite _ _ _)
    split
    · exact heard.silent rfl rfl
    · exact heard

theorem Tagged.requestFragments (tagged : s.Tagged g) (src : Nat) (args : RequestFragmentsArgs) (now : Nat) :
    (RaftState.answer src .requestFragmentsReply (s.processRequestFragments args now)).Tagged g := by
  have heard : (s.updateLiveness args.leaderId now).Tagged g := tagged.silent rfl rfl
  unfold RaftState.processRequestFragments
  dsimp only
  split
  · exact heard.send nofun
  · exact (heard.stepDownFor args.term).send nofun

theorem Tagged.processRequestFragmentsReply (tagged : s.Tagged g) (reply : RequestFragmentsReply) (now : Nat) :
    (s.processRequestFragmentsReply reply now).Tagged g := by
  have heard : (s.updateLiveness reply.replyId now).Tagged g := tagged.silent rfl rfl
  fun_cases RaftState.processRequestFragmentsReply
  · exact heard
  · exact heard.convertToFollower reply.term
  · exact heard
  · exact heard.silent rfl rfl
  · exact Tagged.preLeaderBecomeLeader (heard.silent rfl rfl)

theorem Tagged.process (tagged : s.Tagged g) (src : Nat) (msg : Message) (now : Nat) : (s.process src msg now).Tagged g := by
  unfold RaftState.process
  cases msg with
  | requestVote args => exact tagged.requestVote src args now
  | requestVoteReply reply => exact tagged.processRequestVoteReply reply now
  | appendEntries args => exact tagged.appendEntries src args now
  | appendEntriesReply reply => exact tagged.processAppendEntriesReply reply now
  | requestFragments args => exact tagged.requestFragments src args now
  | requestFragmentsReply reply => exact tagged.processRequestFragmentsReply reply now

theorem Tagged.propose (tagged : s.Tagged g) (command : CommandData) : (s.propose command).1.Tagged g := by
  fun_cases RaftState.propose
  · exact tagged
  · exact tagged.silent rfl rfl
  · exact tagged.silent rfl rfl
  · exact tagged
  · exact tagged
  · exact tagged.silent rfl rfl

end RaftState

end FlexRaft
