import FlexRaft.Lib.Agenda
import FlexRaft.Lockout
import FlexRaft.TickRoles

namespace FlexRaft

namespace RaftState

variable {p : Packet}

/-- A leader whose `NextIndex` values point into its log or right behind it, as do the requests it is about to send. -/
structure Leads (s : RaftState) : Prop where
  role : s.role = .kLeader
  members : ∀ p ∈ s.peers, p < 32
  next : ∀ p ∈ s.peers, 1 ≤ (s.raftPeer p).nextIndex ∧ (s.raftPeer p).nextIndex ≤ s.lm.lastLogEntryIndex + 1
  commit : s.commitIndex ≤ s.lm.lastLogEntryIndex
  sent : ∀ p ∈ s.outbox, ∀ args, p.msg = .appendEntries args →
    args.prevLogIndex + args.entryCnt ≤ s.lm.lastLogEntryIndex

/-- Any other state of the server that may become leader: nothing is committed or encoded yet. -/
structure Idle (s : RaftState) : Prop where
  role : s.role ≠ .kLeader
  members : ∀ p ∈ s.peers, p < 32
  commit : s.commitIndex = 0
  stripes : s.encodedStripe = fun _ => none
  encodings : s.lastEncoding = fun _ => none
  quiet : ∀ p ∈ s.outbox, p.msg.isAppendEntries = false

def InRange (s : RaftState) : Prop := s.Idle ∨ s.Leads

/-- A leader that has just taken over. -/
structure Fresh (s : RaftState) : Prop extends s.Leads where
  behind : ∀ p ∈ s.peers, (s.raftPeer p).nextIndex = s.lm.lastLogEntryIndex + 1
  stripes : s.encodedStripe = fun _ => none
  encodings : s.lastEncoding = fun _ => none

/-- What comes out of an election or a recovery. -/
def Outset (s : RaftState) : Prop := s.Idle ∨ s.Fresh

theorem idle_newRaftState {c : RaftConfig} (members : ∀ p ∈ c.peers, p < 32) (storage : Option PersistRaftState) (lm : LogManager)
    (junk : Uninitialised) : (newRaftState c storage lm junk).Idle where
  role := fun leads => by cases leads
  members := members
  commit := rfl
  stripes := rfl
  encodings := rfl
  quiet := fun p member => by cases member

theorem Outset.inRange {s : RaftState} (outset : s.Outset) : s.InRange := outset.imp_right Fresh.toLeads

variable {s s' : RaftState}

section Leads

variable {a : SendAction} {rest todo : List SendAction} {t : RaftState}

theorem Leads.keeps (leads : s.Leads) (role : s'.role = s.role) (config : s'.config = s.config) (lm : s'.lm = s.lm)
    (raftPeer : s'.raftPeer = s.raftPeer) (commit : s'.commitIndex = s.commitIndex) (outbox : s'.outbox = s.outbox) :
    s'.Leads := by
  refine ⟨role.trans leads.role, ?_, ?_, ?_, ?_⟩
  · rw [peers, config]
    exact leads.members
  · rw [peers, config, raftPeer, lm]
    exact leads.next
  · rw [commit, lm]
    exact leads.commit
  · rw [outbox, lm]
    exact leads.sent

theorem Leads.stop (leads : s.Leads) : s.stop.Leads := leads.keeps rfl rfl rfl rfl rfl rfl

theorem Leads.send (leads : s.Leads) {dst : Nat} {msg : Message}
    (inside : ∀ args, msg = .appendEntries args → args.prevLogIndex + args.entryCnt ≤ s.lm.lastLogEntryIndex) :
    (s.send dst msg).Leads :=
  ⟨leads.role, leads.members, leads.next, leads.commit,
    List.forall_mem_append.mpr ⟨leads.sent, List.forall_mem_singleton.mpr inside⟩⟩

theorem Leads.sendHeartBeat (leads : s.Leads) (peer : Nat) : (s.sendHeartBeat peer).Leads := by
  rcases s.sendHeartBeat_cases peer with same | ⟨args, sent, member, -, inside⟩
  · rw [same]
    exact leads
  · rw [sent]
    refine leads.send ?_
    rintro args ⟨⟩
    exact inside (leads.next peer member)

theorem Leads.act (leads : s.Leads) (addressed : a.Addressed s.peers) : (s.act a).1.Leads := by
  cases s.acts a with
  | silent core outbox next =>
    have lm : (s.act a).1.lm = s.lm := field_eq core (·.lm)
    refine ⟨(field_eq core (·.role)).trans leads.role, act_peers s a ▸ leads.members, fun p member => ?_, ?_, ?_⟩
    · have commit := leads.commit
      rw [act_peers] at member
      rw [lm]
      rcases next p with same | back
      · rw [same]
        exact leads.next p member
      · omega
    · rw [field_eq core (·.commitIndex), lm]
      exact leads.commit
    · rw [outbox, lm]
      exact leads.sent
  | sends sent _ _ inside =>
    rw [sent]
    refine leads.send ?_
    rintro args ⟨⟩
    exact inside leads.next addressed

theorem addressed_next (addressed : ∀ b ∈ a :: rest, b.Addressed s.peers) :
    ∀ b ∈ (s.act a).2 ++ rest, b.Addressed (s.act a).1.peers := by
  intro b member
  rw [act_peers]
  rcases List.mem_append.mp member with new | old
  · exact addressed_of_peer (act_peer s a b new)
  · exact addressed b (List.mem_cons_of_mem a old)

/-- `t` is a state in the course of the sends `todo` from `s`, with `rest` still to do. -/
abbrev Underway : RaftState → List SendAction → RaftState → List SendAction → Prop :=
  Agenda.Underway act fun s => s.stopped = false

theorem underway_peers (underway : Underway s todo t rest) : t.peers = s.peers := by
  induction underway with
  | start => rfl
  | next _ _ ih => exact (act_peers _ _).trans ih

theorem Leads.underway (leads : s.Leads)
    (underway : Underway s todo t rest) (addressed : ∀ a ∈ todo, a.Addressed s.peers) :
    t.Leads ∧ ∀ a ∈ rest, a.Addressed t.peers := by
  induction underway with
  | start => exact ⟨leads, addressed⟩
  | next _ _ ih => exact ⟨ih.1.act (ih.2 _ List.mem_cons_self), addressed_next ih.2⟩

theorem Performs.underway (performs : Performs s todo s') :
    ∃ rest, Underway s todo s' rest ∧ (s'.stopped = false → rest = []) := by
  induction performs with
  | done => exact ⟨_, .start, fun _ => rfl⟩
  | stopped stopped => exact ⟨_, .start, fun running => by cases stopped.symm.trans running⟩
  | next running _ ih =>
    obtain ⟨rest, underway, ends⟩ := ih
    exact ⟨rest, .cons running underway, ends⟩

theorem Performs.leads (performs : Performs s todo s')
    (addressed : ∀ a ∈ todo, a.Addressed s.peers) (leads : s.Leads) : s'.Leads := by
  obtain ⟨rest, underway, -⟩ := performs.underway
  exact (leads.underway underway addressed).1

theorem tickActions_addressed (s : RaftState) (timers : Timers) : ∀ a ∈ s.tickActions timers, a.Addressed s.peers :=
  fun a member => addressed_of_peer (tickActions_peer s timers a member)

theorem Leads.sendAsLeader (leads : s.Leads) (running : s.stopped = false) (timers : Timers) :
    (s.sendAsLeader timers).Leads :=
  (performs_sendAsLeader running timers).leads (tickActions_addressed s timers) leads

theorem Leads.replicateNewProposeEntry (leads : s.Leads) (running : s.stopped = false) (j : Nat) :
    (s.replicateNewProposeEntry j).Leads := by
  refine (performs_replicateNew running j).leads ?_ leads
  intro a member
  rw [List.mem_singleton.mp member]
  trivial

theorem Leads.propose (leads : s.Leads) (command : CommandData) : (s.propose command).1.Leads := by
  rcases propose_spec s command with ⟨-, same | stopped⟩ | ⟨-, -, -, -, e, entry, appended⟩
  · rw [same]
    exact leads
  · rw [stopped]
    exact leads.stop
  · have last : (s.lm.appendLogEntry e).lastLogEntryIndex = s.lm.lastLogEntryIndex + 1 := by
      rw [← entry.index]
      exact LogManager.lastLogEntryIndex_appendLogEntry s.lm e
    rw [appended]
    refine ⟨leads.role, leads.members, ?_, ?_, ?_⟩
    · intro p member
      have bounds := leads.next p member
      dsimp only
      omega
    · have bound := leads.commit
      dsimp only
      omega
    · intro p member args isAppend
      have bound := leads.sent p member args isAppend
      dsimp only
      omega

/-- A refusal without an index, or an index that a leader with the log of `s` may go on with. -/
def ReplyInRange (s : RaftState) (reply : AppendEntriesReply) : Prop :=
  reply.success = false ∧ reply.expectIndex = 0 ∨
    1 ≤ reply.expectIndex ∧ reply.expectIndex ≤ s.lm.lastLogEntryIndex + 1

theorem Leads.tryApplyLogEntries (leads : s.Leads) : s.tryApplyLogEntries.Leads := by
  have part := tryApplyLogEntries_unapplied s
  exact leads.keeps (field_eq part (·.role)) (field_eq part (·.config))
    (field_eq part (·.lm)) (field_eq part (·.raftPeer))
    (field_eq part (·.commitIndex)) (field_eq part (·.outbox))

theorem Leads.tryUpdateCommitIndex (leads : s.Leads) : s.tryUpdateCommitIndex.Leads := by
  obtain ⟨c, committed, -, bound⟩ := tryUpdateCommitIndex_spec s
  have inside : c ≤ s.lm.lastLogEntryIndex := by
    rcases bound with rfl | ⟨bound, -⟩
    · exact leads.commit
    · exact bound
  rw [committed]
  exact ⟨leads.role, leads.members, leads.next, inside, leads.sent⟩

theorem Leads.updatePeer (leads : s.Leads) (id : Nat) {f : RaftPeer → RaftPeer}
    (range : ∀ p : RaftPeer, 1 ≤ p.nextIndex ∧ p.nextIndex ≤ s.lm.lastLogEntryIndex + 1 →
      1 ≤ (f p).nextIndex ∧ (f p).nextIndex ≤ s.lm.lastLogEntryIndex + 1) : (s.updatePeer id f).Leads := by
  refine ⟨leads.role, leads.members, ?_, leads.commit, leads.sent⟩
  intro p member
  dsimp only [RaftState.updatePeer]
  split
  · exact range _ (leads.next p member)
  · exact leads.next p member

theorem Leads.processAppendEntriesReply (leads : s.Leads) {reply : AppendEntriesReply} (now : Nat)
    (term : reply.term ≤ s.currentTerm) (range : reply.term = s.currentTerm → s.ReplyInRange reply) :
    (s.processAppendEntriesReply reply now).Leads := by
  have heard : (s.updateLiveness reply.replyId now).Leads := leads.keeps rfl rfl rfl rfl rfl rfl
  unfold RaftState.processAppendEntriesReply
  dsimp only
  split
  · exact heard
  · rename_i used
    rw [if_neg (show ¬ (s.updateLiveness reply.replyId now).currentTerm < reply.term from Nat.not_lt.mpr term)]
    have current : reply.term = s.currentTerm := le_antisymm term (Nat.le_of_not_lt fun older => used (Or.inr older))
    have range := range current
    split
    · exact heard
    · split
      · rename_i success
        have bounds : 1 ≤ reply.expectIndex ∧ reply.expectIndex ≤ s.lm.lastLogEntryIndex + 1 := by
          rcases range with ⟨failure, -⟩ | bounds
          · rw [success] at failure
            cases failure
          · exact bounds
        refine (Leads.tryUpdateCommitIndex (heard.updatePeer reply.replyId ?_)).tryApplyLogEntries
        intro p known
        rw [Cluster.recordChunkInfo_nextIndex]
        change 1 ≤ max p.nextIndex reply.expectIndex ∧ max p.nextIndex reply.expectIndex ≤ s.lm.lastLogEntryIndex + 1
        have known : 1 ≤ p.nextIndex ∧ p.nextIndex ≤ s.lm.lastLogEntryIndex + 1 := known
        omega
      · split
        · rename_i expected
          have bounds : 1 ≤ reply.expectIndex ∧ reply.expectIndex ≤ s.lm.lastLogEntryIndex + 1 := by
            rcases range with ⟨-, none⟩ | bounds
            · exact absurd none expected
            · exact bounds
          exact (heard.updatePeer reply.replyId fun _ _ => bounds).tryApplyLogEntries
        · exact heard.tryApplyLogEntries

end Leads

section Idle

theorem Idle.keeps (idle : s.Idle) (role : s'.role ≠ .kLeader) (config : s'.config = s.config)
    (commit : s'.commitIndex = s.commitIndex) (outbox : s'.outbox = s.outbox)
    (stripes : s'.encodedStripe = s.encodedStripe) (encodings : s'.lastEncoding = s.lastEncoding) : s'.Idle := by
  refine ⟨role, ?_, commit.trans idle.commit, stripes.trans idle.stripes, encodings.trans idle.encodings, ?_⟩
  · rw [peers, config]
    exact idle.members
  · rw [outbox]
    exact idle.quiet

theorem Idle.asLeader (idle : s.Idle) : s.asLeader.Fresh := by
  have behind : ∀ p ∈ s.peers, (s.asLeader.raftPeer p).nextIndex = s.lm.lastLogEntryIndex + 1 := fun p member =>
    asLeader_nextIndex member (idle.members p member)
  refine ⟨⟨rfl, idle.members, fun p member => ?_, ?_, ?_⟩, behind, idle.stripes, idle.encodings⟩
  · have next := behind p member
    change 1 ≤ (s.asLeader.raftPeer p).nextIndex ∧ (s.asLeader.raftPeer p).nextIndex ≤ s.lm.lastLogEntryIndex + 1
    omega
  · change s.commitIndex ≤ s.lm.lastLogEntryIndex
    rw [idle.commit]
    exact Nat.zero_le _
  · intro p member args isAppend
    have quiet := idle.quiet p member
    rw [isAppend] at quiet
    cases quiet

theorem Fresh.sendHeartBeat (fresh : s.Fresh) (peer : Nat) : (s.sendHeartBeat peer).Fresh := by
  have leads := fresh.toLeads.sendHeartBeat peer
  unfold RaftState.sendHeartBeat at leads ⊢
  split
  · exact fresh
  · rename_i valid
    rw [if_neg valid] at leads
    exact ⟨leads, fresh.behind, fresh.stripes, fresh.encodings⟩

theorem Fresh.broadcastHeartbeat (fresh : s.Fresh) : s.broadcastHeartbeat.Fresh := by
  refine forEach_rel (R := fun s t => s.Fresh → t.Fresh) (fun _ h => h) (fun h k c => k (h c)) ?_ fresh
  intro t peer _ _ holds
  split
  · exact holds
  · exact holds.sendHeartBeat peer

theorem Idle.convertToLeaderInternal (idle : s.Idle) : s.convertToLeaderInternal.Outset := by
  unfold RaftState.convertToLeaderInternal
  split
  · exact Or.inl idle
  · exact Or.inr idle.asLeader.broadcastHeartbeat

theorem collectFragments_sent (s : RaftState) (member : p ∈ s.collectFragments.outbox) :
    p ∈ s.outbox ∨ p.msg.isAppendEntries = false := by
  unfold RaftState.collectFragments at member
  dsimp only at member
  split at member
  · exact Or.inl member
  · generalize opened : { s with preleaderStripeStore := _ } = t at member
    have same : t.outbox = s.outbox := opened ▸ rfl
    rw [← same]
    refine forEach_rel (R := fun s t => ∀ p ∈ t.outbox, p ∈ s.outbox ∨ p.msg.isAppendEntries = false)
      (fun _ _ old => Or.inl old) (fun first second p sent => (second p sent).elim (first p) Or.inr) ?_ p member
    intro t peer _ _
    fun_cases RaftState.requestFragments
    · exact fun _ => Or.inl
    · exact List.forall_mem_append.mpr ⟨fun _ => Or.inl, List.forall_mem_singleton.mpr (Or.inr rfl)⟩

theorem Idle.collectFragments (idle : s.Idle) : s.collectFragments.Idle := by
  obtain ⟨store, out, stopped, collected, -⟩ := collectFragments_spec s
  have sent : ∀ p ∈ s.collectFragments.outbox, p.msg.isAppendEntries = false := fun p member =>
    (collectFragments_sent s member).elim (idle.quiet p) fun other => other
  rw [collected] at sent ⊢
  exact ⟨idle.role, idle.members, idle.commit, idle.stripes, idle.encodings, sent⟩

theorem Leads.collectFragments (leads : s.Leads) : s.collectFragments.Leads := by
  obtain ⟨store, out, stopped, collected, -⟩ := collectFragments_spec s
  have sent : ∀ p ∈ s.collectFragments.outbox, ∀ args, p.msg = .appendEntries args →
      args.prevLogIndex + args.entryCnt ≤ s.lm.lastLogEntryIndex := by
    intro p member args msg
    rcases collectFragments_sent s member with old | other
    · exact leads.sent p old args msg
    · rw [msg] at other
      cases other
  rw [collected] at sent ⊢
  exact ⟨leads.role, leads.members, leads.next, leads.commit, sent⟩

theorem Fresh.collectFragments (fresh : s.Fresh) : s.collectFragments.Fresh := by
  have leads := fresh.toLeads.collectFragments
  obtain ⟨store, out, stopped, collected, -⟩ := collectFragments_spec s
  rw [collected] at leads ⊢
  exact ⟨leads, fresh.behind, fresh.stripes, fresh.encodings⟩

theorem Idle.convertToPreLeader (idle : s.Idle) : s.convertToPreLeader.Outset := by
  have pre : { s with role := .kPreLeader }.Idle := idle.keeps nofun rfl rfl rfl rfl rfl
  unfold RaftState.convertToPreLeader
  dsimp only
  split
  · exact pre.convertToLeaderInternal
  · exact Or.inl pre.collectFragments

theorem decodeStripes_shape (stripes : List Stripe) (raftIndex : Nat) (s : RaftState) :
    ∃ lm stopped, decodeStripes stripes raftIndex s = { s with lm := lm, stopped := stopped } := by
  induction stripes generalizing raftIndex s with
  | nil => exact ⟨s.lm, s.stopped, rfl⟩
  | cons stripe rest ih =>
    unfold decodeStripes
    split
    · exact ih (raftIndex + 1) s
    · split
      · exact ⟨_, _, rfl⟩
      · exact ⟨_, _, rfl⟩
      · obtain ⟨lm, stopped, decoded⟩ := ih (raftIndex + 1) { s with lm := s.lm.overWriteLogEntry _ raftIndex }
        exact ⟨lm, stopped, decoded⟩

theorem Idle.preLeaderBecomeLeader (idle : s.Idle) : s.preLeaderBecomeLeader.Outset := by
  unfold RaftState.preLeaderBecomeLeader
  split
  · obtain ⟨lm, stopped, decoded⟩ := decodeStripes_shape s.preleaderStripeStore.stripes s.preleaderStripeStore.startIndex s
    unfold decodeCollectedStripe
    rw [decoded]
    have recovered : { s with lm := lm, stopped := stopped }.Idle := idle.keeps idle.role rfl rfl rfl rfl rfl
    unfold andThen
    split
    · exact Or.inl recovered
    · exact recovered.convertToLeaderInternal
  · exact Or.inl idle

theorem Idle.convertToFollower (idle : s.Idle) (term : Nat) : (s.convertToFollower term).Idle := by
  fun_cases RaftState.convertToFollower
  · exact idle.keeps idle.role rfl rfl rfl rfl rfl
  · exact idle.keeps (fun leads => by cases leads) rfl rfl rfl rfl rfl
  · exact idle.keeps (fun leads => by cases leads) rfl rfl rfl rfl rfl

theorem Idle.startElection (idle : s.Idle) : s.startElection.Outset := by
  unfold RaftState.startElection
  split
  · exact Or.inl (idle.keeps idle.role rfl rfl rfl rfl rfl)
  · have stands : { s with currentTerm := s.currentTerm + 1, voteFor := s.id, voteMeCnt := 1 }.persistRaftState.Idle :=
      idle.keeps idle.role rfl rfl rfl rfl rfl
    dsimp only
    split
    · exact stands.convertToPreLeader
    · obtain ⟨out, sent, votes⟩ := requestVotes_spec
        { s with currentTerm := s.currentTerm + 1, voteFor := s.id, voteMeCnt := 1 }.persistRaftState
      rw [sent]
      refine Or.inl ⟨stands.role, stands.members, stands.commit, stands.stripes, stands.encodings, ?_⟩
      intro p member
      rcases votes p member with old | ⟨-, -, args, msg, -⟩
      · exact stands.quiet p old
      · rw [msg]
        rfl

theorem Idle.tick (idle : s.Idle) (timers : Timers) : (s.tick timers).Outset := by
  unfold RaftState.tick
  split
  · fun_cases RaftState.tickOnFollower
    · exact Or.inl idle
    · exact Or.inl idle
    · exact Idle.startElection (idle.keeps nofun rfl rfl rfl rfl rfl)
  · have follower := idle.convertToFollower s.currentTerm
    fun_cases RaftState.tickOnCandidate
    · exact Or.inl idle
    · exact Or.inl (follower.keeps follower.role rfl rfl rfl rfl rfl)
    · exact idle.startElection
  · have takes := idle.preLeaderBecomeLeader
    unfold tickOnPreLeader andThen
    split
    · exact takes
    · split
      · exact takes.imp Idle.collectFragments Fresh.collectFragments
      · exact takes
  · rename_i leader
    exact absurd leader idle.role

theorem Idle.processRequestVoteReply (idle : s.Idle) {reply : RequestVoteReply} (now : Nat) :
    (s.processRequestVoteReply reply now).Outset := by
  have heard : (s.updateLiveness reply.replyId now).Idle := idle.keeps idle.role rfl rfl rfl rfl rfl
  have counted : (s.updateLiveness reply.replyId now).incrementVoteMeCnt.Idle := heard.keeps heard.role rfl rfl rfl rfl rfl
  fun_cases RaftState.processRequestVoteReply
  · exact Or.inl heard
  · exact Or.inl (heard.convertToFollower reply.term)
  · exact counted.convertToPreLeader
  · exact Or.inl counted
  · exact Or.inl heard

theorem Idle.processRequestFragmentsReply (idle : s.Idle) {reply : RequestFragmentsReply} (now : Nat) :
    (s.processRequestFragmentsReply reply now).Outset := by
  have heard : (s.updateLiveness reply.replyId now).Idle := idle.keeps idle.role rfl rfl rfl rfl rfl
  fun_cases RaftState.processRequestFragmentsReply
  · exact Or.inl heard
  · exact Or.inl (heard.convertToFollower reply.term)
  · exact Or.inl heard
  · exact Or.inl (heard.keeps heard.role rfl rfl rfl rfl rfl)
  · exact Idle.preLeaderBecomeLeader (heard.keeps heard.role rfl rfl rfl rfl rfl)

theorem Idle.processAppendEntriesReply (idle : s.Idle) (reply : AppendEntriesReply) (now : Nat) :
    (s.processAppendEntriesReply reply now).Idle := by
  unfold RaftState.processAppendEntriesReply
  rw [if_pos (Or.inl (show (s.updateLiveness reply.replyId now).role ≠ .kLeader from idle.role))]
  exact idle.keeps idle.role rfl rfl rfl rfl rfl

end Idle

section InRange

variable {msg : Message}

theorem InRange.tick (inRange : s.InRange) (running : s.stopped = false) (timers : Timers) : (s.tick timers).InRange := by
  rcases inRange with idle | leads
  · exact (idle.tick timers).inRange
  · refine Or.inr ?_
    rw [show s.tick timers = s.sendAsLeader timers by simp only [RaftState.tick, leads.role]]
    exact leads.sendAsLeader running timers

theorem InRange.propose (inRange : s.InRange) (command : CommandData) : (s.propose command).1.InRange := by
  rcases inRange with idle | leads
  · rcases propose_spec s command with ⟨-, same | stopped⟩ | ⟨-, leads, -⟩
    · rw [same]
      exact Or.inl idle
    · rw [stopped]
      exact Or.inl (idle.keeps idle.role rfl rfl rfl rfl rfl)
    · exact absurd leads idle.role
  · exact Or.inr (leads.propose command)

theorem process_of_leader (leads : s.role = .kLeader) (src : Nat) (now : Nat) (answers : ¬ msg.isRequest) :
    (∃ id, s.process src msg now = s.updateLiveness id now) ∨
      ∃ reply, msg = .appendEntriesReply reply ∧ s.process src msg now = s.processAppendEntriesReply reply now := by
  cases msg with
  | requestVote | appendEntries | requestFragments => exact absurd rfl answers
  | requestVoteReply reply =>
    have late : (s.updateLiveness reply.replyId now).role ≠ .kCandidate := leads ▸ nofun
    exact Or.inl ⟨reply.replyId, if_pos (Or.inl late)⟩
  | appendEntriesReply reply => exact Or.inr ⟨reply, rfl, rfl⟩
  | requestFragmentsReply reply =>
    have late : (s.updateLiveness reply.replyId now).role ≠ .kPreLeader := leads ▸ nofun
    exact Or.inl ⟨reply.replyId, if_pos (Or.inl late)⟩

theorem Leads.process (leads : s.Leads) (src : Nat) (now : Nat) (answers : ¬ msg.isRequest)
    (term : msg.term ≤ s.currentTerm)
    (range : ∀ reply, msg = .appendEntriesReply reply → reply.term = s.currentTerm → s.ReplyInRange reply) :
    (s.process src msg now).Leads ∧ (s.process src msg now).lm = s.lm := by
  rcases process_of_leader leads.role src now answers with ⟨id, heard⟩ | ⟨reply, rfl, taken⟩
  · rw [heard]
    exact ⟨leads.keeps rfl rfl rfl rfl rfl rfl, rfl⟩
  · exact ⟨leads.processAppendEntriesReply now term (range reply rfl), processAppendEntriesReply_lm reply now⟩

theorem Idle.process (idle : s.Idle) (src : Nat) (now : Nat) (answers : ¬ msg.isRequest) :
    (s.process src msg now).Outset := by
  cases msg with
  | requestVote | appendEntries | requestFragments => exact absurd rfl answers
  | requestVoteReply => exact idle.processRequestVoteReply now
  | appendEntriesReply reply => exact Or.inl (idle.processAppendEntriesReply reply now)
  | requestFragmentsReply => exact idle.processRequestFragmentsReply now

end InRange

section Answers

variable {now src : Nat} {reply : AppendEntriesReply} {p : Packet}

theorem processAppendEntries_outbox (s : RaftState) (args : AppendEntriesArgs) (now : Nat) :
    (s.processAppendEntries args now).1.outbox = s.outbox := by
  have heard : (s.hearLeader args.leaderId now).outbox = s.outbox := rfl
  unfold processAppendEntries
  dsimp only
  split
  · exact heard
  rename_i current
  obtain ⟨-, -, -, -, followed, -⟩ :=
    stepDownFor_spec (s := s.hearLeader args.leaderId now) (Nat.le_of_not_lt current)
  split
  · exact followed
  split
  · exact followed
  split
  · exact followed
  · exact (field_eq (tryApplyLogEntries_unapplied _) (·.outbox)).trans followed

/-- A follower names an index that the request reached, or none. -/
theorem processAppendEntries_reply {args : AppendEntriesArgs}
    (answered : (s.processAppendEntries args now).2 = some reply) :
    reply.success = false ∧ reply.expectIndex = 0 ∨
      reply.term = args.term ∧ (reply.success = false ∧ reply.expectIndex ≤ args.prevLogIndex ∨
        reply.expectIndex = args.prevLogIndex + args.entryCnt + 1) := by
  unfold processAppendEntries at answered
  dsimp only at answered
  split at answered
  · cases answered
    exact Or.inl ⟨rfl, rfl⟩
  rename_i current
  obtain ⟨-, -, term, -⟩ := stepDownFor_spec (s := s.hearLeader args.leaderId now) (Nat.le_of_not_lt current)
  split at answered
  · cases answered
    exact Or.inr ⟨term, Or.inl ⟨rfl, min_le_right _ _⟩⟩
  split at answered
  · cases answered
  split at answered
  · cases answered
  · cases answered
    exact Or.inr ⟨term, Or.inr rfl⟩

theorem mem_answer_outbox {α : Type} {wrap : α → Message} {result : RaftState × Option α}
    (member : p ∈ (answer src wrap result).outbox) :
    p ∈ result.1.outbox ∨ ∃ reply, result.2 = some reply ∧ p.msg = wrap reply := by
  unfold answer at member
  split at member
  · exact Or.inl member
  · rename_i reply answered
    rcases List.mem_append.mp member with old | new
    · exact Or.inl old
    · rw [List.mem_singleton.mp new]
      exact Or.inr ⟨reply, answered, rfl⟩

theorem process_reply {msg : Message}
    (follower : s.role = .kFollower) (quiet : s.outbox = []) (request : msg.isRequest)
    (member : p ∈ (s.process src msg now).outbox) (isReply : p.msg = .appendEntriesReply reply) :
    ∃ args, msg = .appendEntries args ∧ (s.processAppendEntries args now).2 = some reply := by
  cases msg with
  | requestVoteReply | appendEntriesReply | requestFragmentsReply => cases request
  | requestVote args =>
    obtain ⟨-, -, -, same, -⟩ := processRequestVote_spec (s := s) args now follower
    rcases mem_answer_outbox member with old | ⟨vote, -, isVote⟩
    · rw [same, quiet] at old
      cases old
    · cases isReply.symm.trans isVote
  | appendEntries args =>
    refine ⟨args, rfl, ?_⟩
    rcases mem_answer_outbox member with old | ⟨sent, answered, isSent⟩
    · rw [processAppendEntries_outbox, quiet] at old
      cases old
    · cases isReply.symm.trans isSent
      exact answered
  | requestFragments args =>
    rcases mem_answer_outbox member with old | ⟨fragments, -, isFragments⟩
    · unfold processRequestFragments at old
      dsimp only at old
      split at old
      · cases quiet ▸ old
      · rename_i current
        obtain ⟨-, -, -, -, same, -⟩ :=
          stepDownFor_spec (s := s.updateLiveness args.leaderId now) (Nat.le_of_not_lt current)
        rw [same] at old
        cases quiet ▸ old
    · cases isReply.symm.trans isFragments

end Answers

/-- What the messages of its own term mean to a server once it stands for election: entries are asked for after it
has won, and only within its log, and so the answers to them name an index of its log or the next one. -/
structure Timely (s : RaftState) (p : Packet) : Prop where
  asked : s.role ≠ .kFollower → ∀ args, p.msg = .appendEntries args → args.term = s.currentTerm →
    s.role = .kLeader ∧ args.prevLogIndex + args.entryCnt ≤ s.lm.lastLogEntryIndex
  answered : s.role ≠ .kFollower → ∀ reply, p.msg = .appendEntriesReply reply → reply.term = s.currentTerm →
    reply.success = false ∧ reply.expectIndex = 0 ∨ s.role = .kLeader ∧ s.ReplyInRange reply

/-- In the same term a server that is up for election goes on being so, and a leader keeps its log. -/
theorem Timely.later (timely : s.Timely p) (term : s'.currentTerm = s.currentTerm)
    (stood : s'.role ≠ .kFollower → s.role ≠ .kFollower)
    (leads : s'.role ≠ .kFollower → s.role = .kLeader →
      s'.role = .kLeader ∧ s.lm.lastLogEntryIndex ≤ s'.lm.lastLogEntryIndex) : s'.Timely p := by
  refine ⟨fun stands args msg now => ?_, fun stands reply msg now => ?_⟩
  · obtain ⟨leader, inside⟩ := timely.asked (stood stands) args msg (now.trans term)
    obtain ⟨still, grown⟩ := leads stands leader
    exact ⟨still, inside.trans grown⟩
  · rcases timely.answered (stood stands) reply msg (now.trans term) with refused | ⟨leader, range⟩
    · exact Or.inl refused
    · obtain ⟨still, grown⟩ := leads stands leader
      refine Or.inr ⟨still, range.imp_right fun bounds => ?_⟩
      omega

theorem timely_of_older (older : p.msg.term < s.currentTerm) : s.Timely p := by
  refine ⟨fun _ args msg now => ?_, fun _ reply msg now => ?_⟩
  · rw [msg] at older
    exact absurd now older.ne
  · rw [msg] at older
    exact absurd now older.ne

theorem Timely.answer {q : Packet} {t : RaftState} {args : AppendEntriesArgs} {reply : AppendEntriesReply} {now : Nat}
    (timely : s.Timely q) (request : q.msg = .appendEntries args)
    (answered : (t.processAppendEntries args now).2 = some reply) (msg : p.msg = .appendEntriesReply reply) :
    s.Timely p := by
  refine ⟨fun _ args isAppend => ?_, fun stands other isReply current => ?_⟩
  · cases msg.symm.trans isAppend
  · cases msg.symm.trans isReply
    rcases processAppendEntries_reply answered with refused | ⟨term, index⟩
    · exact Or.inl refused
    · obtain ⟨leader, inside⟩ := timely.asked stands args request (term.symm.trans current)
      refine Or.inr ⟨leader, ?_⟩
      rcases index with ⟨failure, below⟩ | behind
      · rcases Nat.eq_zero_or_pos reply.expectIndex with none | positive
        · exact Or.inl ⟨failure, none⟩
        · exact Or.inr ⟨positive, by omega⟩
      · exact Or.inr (by omega)

end RaftState

namespace Cluster

open RaftState

/-- What holds of the only server that is ever elected in every run in which no server forgets its term. -/
structure Ranged (σ : Cluster) : Prop extends σ.Solo where
  inRange : σ.preferred.InRange
  timely : ∀ p ∈ σ.net, σ.preferred.Timely p

section Steps

variable {σ σ' : Cluster} {l : Label} {i : Nat} {s : RaftState} {net : List Packet} {pending : List PendingPropose}
  {events : List Event} {p : Packet}

theorem Anchored.members (anchored : σ.Anchored) (i : Nat) : ∀ p ∈ (σ.servers i).peers, p < 32 := by
  intro p member
  rw [peers, anchored.config i] at member
  have inside := (ClusterConfig.mem_serverConfig_peers.mp member).1
  have size := σ.config.size_le
  omega

theorem Solo.deed_reply (inv : σ.Solo) (deed : Deed σ l i s) {reply : AppendEntriesReply}
    (member : p ∈ s.outbox) (msg : p.msg = .appendEntriesReply reply) : ∃ q ∈ σ.delivered l, q.msg.isRequest := by
  have answers (spoken : s.Speaks (σ.delivered l) p) : ∃ q ∈ σ.delivered l, q.msg.isRequest := by
    rcases spoken with ⟨⟨-, -, -, kind⟩, -⟩ | ⟨-, ⟨q, taken, request, -⟩, -⟩
    · rw [msg] at kind
      cases kind
    · exact ⟨q, taken, request⟩
  cases deed with
  | turn turn =>
    cases turn with
    | stays _ _ _ outbox | counts _ _ _ _ _ _ _ _ _ _ outbox => exact answers (outbox p member)
    | follows _ _ _ _ _ outbox => exact answers (Or.inr (outbox p member))
    | grants _ _ _ _ _ _ _ _ _ _ _ _ outbox =>
      rw [outbox, List.mem_singleton] at member
      subst member
      cases msg
    | stands _ _ _ _ _ _ _ campaign =>
      rcases campaign with ⟨-, requests⟩ | ⟨-, -, speaks⟩
      · rw [requests] at member
        obtain ⟨peer, -, rfl⟩ := List.mem_map.mp member
        cases msg
      · exact answers (speaks p member)
  | sends asking =>
    rcases asking.outbox p member with old | ⟨-, -, -, kind⟩
    · rw [inv.outbox i] at old
      cases old
    · rw [msg] at kind
      cases kind
  | restarts _ fresh =>
    rw [fresh] at member
    cases member

/-- Within a term a server that is up for election was so before, except for the server it was before a restart. -/
theorem Solo.deed_stood (inv : σ.Solo) (received : ∀ q ∈ σ.delivered l, q ∈ σ.net ∧ q.dst = i)
    (deed : Deed σ l i s) (same : i = σ.config.groupId) (stands : s.role ≠ .kFollower) :
    σ.preferred.currentTerm < s.currentTerm ∨
      s.currentTerm = σ.preferred.currentTerm ∧ σ.preferred.role ≠ .kFollower ∧
        (σ.preferred.role = .kLeader → s.role = .kLeader) := by
  subst same
  cases deed with
  | turn turn =>
    have still := inv.still_leads received turn
    cases turn with
    | stays ballot role =>
      refine Or.inr ⟨congrArg PersistRaftState.persistedTerm ballot.header, fun follower => ?_, still⟩
      rcases role with kept | ⟨pre, -⟩
      · exact stands (kept.trans follower)
      · cases pre.symm.trans follower
    | follows _ role => exact absurd role stands
    | @grants q _ _ _ taken msg =>
      obtain ⟨onWire, dst⟩ := received q taken
      exact absurd dst ((inv.packets q onWire).request (by rw [msg]; rfl))
    | stands _ _ _ term =>
      change s.currentTerm = σ.preferred.currentTerm + 1 at term
      exact Or.inl (by omega)
    | counts _ candidate _ _ _ _ ballot =>
      refine Or.inr ⟨congrArg PersistRaftState.persistedTerm ballot, fun follower => ?_, still⟩
      cases candidate.symm.trans follower
  | sends asking =>
    have role : s.role = σ.preferred.role := field_eq asking.core (·.role)
    refine Or.inr ⟨field_eq asking.core (·.currentTerm), fun follower => ?_, fun leads => role.trans leads⟩
    exact stands (role.trans follower)
  | restarts _ fresh =>
    rw [fresh] at stands
    exact absurd rfl stands

theorem Ranged.handles (inv : σ.Ranged) (handles : Handles σ l i s net pending events) (same : i = σ.config.groupId) :
    s.InRange ∧ (s.role ≠ .kFollower → σ.preferred.role = .kLeader →
      σ.preferred.lm.lastLogEntryIndex ≤ s.lm.lastLogEntryIndex) := by
  have inRange : (σ.servers i).InRange := same ▸ inv.inRange
  cases handles with
  | @ticks _ timers up =>
    subst same
    refine ⟨inRange.tick (stopped_of_isUp up) timers, fun _ leads => ?_⟩
    change σ.preferred.lm.lastLogEntryIndex ≤ (σ.preferred.tick timers).lm.lastLogEntryIndex
    rw [show σ.preferred.tick timers = σ.preferred.sendAsLeader timers by simp only [RaftState.tick, leads]]
    have kept : (σ.preferred.sendAsLeader timers).lm = σ.preferred.lm :=
      field_eq (Asking.sendAsLeader (stopped_of_isUp up) timers).core (·.lm)
    rw [kept]
  | @refuses _ command | @accepts _ command =>
    subst same
    refine ⟨inRange.propose command, fun _ _ => ?_⟩
    change σ.preferred.lm.lastLogEntryIndex ≤ (σ.preferred.propose command).1.lm.lastLogEntryIndex
    rcases propose_spec σ.preferred command with ⟨-, kept | stopped⟩ | ⟨-, -, -, -, e, entry, appended⟩
    · rw [kept]
    · rw [stopped]
      rfl
    · have last := LogManager.lastLogEntryIndex_appendLogEntry σ.preferred.lm e
      have index := entry.index
      rw [appended]
      dsimp only
      omega
  | @replicates n call found up =>
    have leads : (σ.servers call.server).Leads := by
      refine inRange.resolve_left fun idle => idle.role ?_
      rw [same]
      exact (inv.calls call (List.mem_of_getElem? found)).2
    refine ⟨Or.inr (leads.replicateNewProposeEntry (stopped_of_isUp up) call.index), fun _ _ => ?_⟩
    rw [field_eq (Asking.replicateNewProposeEntry (stopped_of_isUp up) call.index).core (·.lm), same]
    rfl
  | @delivers n now q found up =>
    have onWire := List.mem_of_getElem? found
    have lawful := inv.packets q onWire
    have answers : ¬ q.msg.isRequest := fun request => lawful.request request same
    rw [same] at inRange ⊢
    rcases inRange with idle | leads
    · exact ⟨(idle.process q.src now answers).inRange, fun _ leads => absurd leads idle.role⟩
    · have range : ∀ reply, q.msg = .appendEntriesReply reply → reply.term = σ.preferred.currentTerm →
          σ.preferred.ReplyInRange reply := by
        intro reply msg term
        have stands : σ.preferred.role ≠ .kFollower := fun follower => by cases leads.role.symm.trans follower
        exact ((inv.timely q onWire).answered stands reply msg term).elim Or.inl And.right
      obtain ⟨still, kept⟩ := leads.process q.src now answers lawful.term range
      refine ⟨Or.inr still, fun _ _ => ?_⟩
      rw [kept]
      rfl
  | @restarts _ lm junk =>
    exact ⟨Or.inl (idle_newRaftState (inv.toAnchored.members i) _ lm junk), fun stands => absurd rfl stands⟩

theorem Ranged.sent (inv : σ.Ranged) (survives : headerSurvives σ l) (handles : Handles σ l i s net pending events)
    {p : Packet} (member : p ∈ s.outbox) : (σ.after i s net pending events).preferred.Timely p := by
  obtain ⟨-, deed, left, -⟩ := handles.acts inv.outbox
  have lawful := (inv.toSolo.deed survives left.received deed).packets p member
  by_cases same : i = σ.config.groupId
  · rw [preferred_after_self same]
    refine ⟨fun _ args msg _ => ?_, fun _ reply msg => ?_⟩
    · rcases (inv.handles handles same).1 with idle | leads
      · have quiet := idle.quiet p member
        rw [msg] at quiet
        cases quiet
      · exact ⟨leads.role, leads.sent p member args msg⟩
    · obtain ⟨q, taken, request⟩ := inv.toSolo.deed_reply deed member msg
      obtain ⟨onWire, dst⟩ := left.received q taken
      exact absurd (dst.trans same) ((inv.packets q onWire).request request)
  · rw [preferred_after_other same]
    cases msg : p.msg with
    | requestVote | requestVoteReply | requestFragments | requestFragmentsReply =>
      refine ⟨fun _ args other => ?_, fun _ reply other => ?_⟩
      · cases msg.symm.trans other
      · cases msg.symm.trans other
    | appendEntries args => exact absurd (lawful.request (by rw [msg]; rfl)).1 same
    | appendEntriesReply reply =>
      obtain ⟨q, taken, request⟩ := inv.toSolo.deed_reply deed member msg
      cases handles with
      | ticks | refuses | accepts | replicates | restarts => cases taken
      | @delivers n now q' found =>
        cases found.symm.trans taken
        obtain ⟨args, asked, answered⟩ := process_reply (inv.followers _ same).1 (inv.outbox _) request member msg
        exact (inv.timely q (List.mem_of_getElem? found)).answer asked answered msg

theorem Ranged.step (inv : σ.Ranged) (survives : headerSurvives σ l) (step : σ.step l = some σ') : σ'.Ranged := by
  have solo := inv.toSolo.happens survives (step_happens inv.outbox step)
  obtain ⟨i, s, net, pending, events, handles, rfl⟩ := step_handles step
  obtain ⟨-, deed, left, -⟩ := handles.acts inv.outbox
  refine ⟨solo, ?_, fun p onWire => ?_⟩
  · by_cases same : i = σ.config.groupId
    · rw [preferred_after_self same]
      rcases (inv.handles handles same).1 with idle | leads
      · exact Or.inl ⟨idle.role, idle.members, idle.commit, idle.stripes, idle.encodings, nofun⟩
      · exact Or.inr ⟨leads.role, leads.members, leads.next, leads.commit, nofun⟩
    · rw [preferred_after_other same]
      exact inv.inRange
  · rcases List.mem_append.mp onWire with old | new
    · have timely := inv.timely p (left.subset old)
      by_cases same : i = σ.config.groupId
      · rw [preferred_after_self same]
        by_cases stands : s.role = .kFollower
        · exact ⟨fun other => absurd stands other, fun other => absurd stands other⟩
        · rcases inv.toSolo.deed_stood left.received deed same stands with newer | ⟨term, stood, leads⟩
          · exact timely_of_older ((inv.packets p (left.subset old)).term.trans_lt newer)
          · exact timely.later term (fun _ => stood) fun _ leader =>
              ⟨leads leader, (inv.handles handles same).2 stands leader⟩
      · rw [preferred_after_other same]
        exact timely
    · exact inv.sent survives handles new

theorem ranged_init (c : ClusterConfig) (junk : Nat → Uninitialised) : (init c junk).Ranged :=
  ⟨solo_init c junk, Or.inl ⟨nofun, (anchored_init c junk).members _, rfl, rfl, rfl, nofun⟩, nofun⟩

theorem Reach.ranged {c : ClusterConfig} {junk : Nat → Uninitialised} (reach : Reach headerSurvives (init c junk) σ) :
    σ.Ranged :=
  reach.holds (ranged_init c junk) fun _ _ _ inv survives step => inv.step survives step

end Steps

/-- In every run, restarts included, a leader goes on with each peer at an index of its log or at the next one, at any
time of its sends: the index in front of it and the number of entries from there on do not wrap around. -/
theorem nextIndex_in_range {c : ClusterConfig} {junk : Nat → Uninitialised} {σ : Cluster}
    (reach : Reach headerSurvives (init c junk) σ) {i p : Nat} (leads : (σ.servers i).role = .kLeader)
    (member : p ∈ (σ.servers i).peers) {todo rest : List SendAction} {t : RaftState}
    (due : (∃ timers, todo = (σ.servers i).tickActions timers) ∨ ∃ j, todo = [.replicateNew j])
    (underway : Underway (σ.servers i) todo t rest) :
    1 ≤ (t.raftPeer p).nextIndex ∧ (t.raftPeer p).nextIndex ≤ t.lm.lastLogEntryIndex + 1 ∧
      predIndex (t.raftPeer p).nextIndex + 1 = (t.raftPeer p).nextIndex ∧
      predIndex (t.raftPeer p).nextIndex ≤ t.lm.lastLogEntryIndex := by
  have inv := Reach.ranged reach
  have same : i = σ.config.groupId := inv.leader_eq fun follower => by cases leads.symm.trans follower
  have ranged : (σ.servers i).Leads := by
    subst same
    exact inv.inRange.resolve_left fun idle => idle.role leads
  have addressed : ∀ a ∈ todo, a.Addressed (σ.servers i).peers := by
    rcases due with ⟨timers, rfl⟩ | ⟨j, rfl⟩
    · exact tickActions_addressed (σ.servers i) timers
    · intro a single
      rw [List.mem_singleton.mp single]
      trivial
  obtain ⟨still, -⟩ := ranged.underway underway addressed
  have peer : p ∈ t.peers := by
    rw [underway_peers underway]
    exact member
  obtain ⟨positive, bound⟩ := still.next p peer
  have before := predIndex_add_one positive
  exact ⟨positive, bound, before, by omega⟩

/-- The leader of three servers has committed its first entry and is about to encode the next one. -/
def firstCommittedState : Cluster :=
  (exec headerSurvives (init (.threeServers 0) .zero) firstEntryCommitted).get (by decide +kernel)

theorem nextIndex_in_range_firstCommitted : Reach headerSurvives (init (.threeServers 0) .zero) firstCommittedState ∧
      (firstCommittedState.servers 0).role = .kLeader ∧ (firstCommittedState.servers 0).lm.lastLogEntryIndex = 1 ∧
      ((firstCommittedState.servers 0).raftPeer 1).nextIndex = 2 ∧
      predIndex ((firstCommittedState.servers 0).raftPeer 1).nextIndex ≤
        (firstCommittedState.servers 0).lm.lastLogEntryIndex := by
  have reach : Reach headerSurvives (init (.threeServers 0) .zero) firstCommittedState := .of_get _
  have leads : (firstCommittedState.servers 0).role = .kLeader := by decide +kernel
  have range := nextIndex_in_range reach leads (p := 1) (by decide +kernel) (Or.inr ⟨2, rfl⟩) .start
  exact ⟨reach, leads, by decide +kernel, by decide +kernel, range.2.2.2⟩

end Cluster

end FlexRaft
