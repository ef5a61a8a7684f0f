import FlexRaft.LocalSteps

namespace FlexRaft

namespace Cluster

open RaftState

/-- One member acts: some messages leave the wire, and only a leader starts a `Propose` call. -/
inductive Moves (σ : Cluster) (taken : Option Packet) : Cluster → Prop
  | act {i : Nat} {s : RaftState} {events : List Event} {net : List Packet} {pending : List PendingPropose}
      (member : i < σ.config.size) (step : Local σ taken i s events) (fewer : net ⊆ σ.net)
      (calls : ∀ call ∈ pending, call ∈ σ.pending ∨ call.server = σ.config.groupId ∧ σ.preferred.role = .kLeader) :
      Moves σ taken (σ.after i s net pending events)

section Moves

variable {σ σ' : Cluster} {taken : Option Packet}

theorem Inv.evolves {i : Nat} {s : RaftState} {events : List Event} (net : List Packet)
    (pending : List PendingPropose) (inv : σ.Inv) (step : Local σ taken i s events) :
    Evolves σ.preferred (σ.after i s net pending events).preferred := by
  unfold Cluster.preferred after
  simp only
  split
  · rename_i same
    exact ((step.keeps inv).preferred same.symm).1.flush
  · exact .refl _

theorem Moves.evolves (moves : Moves σ taken σ') (inv : σ.Inv) : Evolves σ.preferred σ'.preferred := by
  obtain ⟨member, step, fewer, calls⟩ := moves
  exact inv.evolves _ _ step

theorem Inv.moves (inv : σ.Inv) (moves : Moves σ taken σ') : σ'.Inv := by
  obtain ⟨member, step, fewer, calls⟩ := moves
  rename_i i s events net pending
  have keeps := step.keeps inv
  have evolves := inv.evolves net pending step
  refine ⟨fun j => ?_, fun j => ?_, ?_, fun j other => ?_, fun p onWire => ?_, fun call called => ?_,
    fun leads => ?_⟩
  · simp only [after]
    split
    · rename_i same
      exact keeps.config.trans (same ▸ inv.config i)
    · exact inv.config j
  · simp only [after]
    split
    · rfl
    · exact inv.outbox j
  · unfold Cluster.preferred after
    simp only
    split
    · rename_i same
      exact (keeps.preferred same.symm).2.1.flush
    · exact inv.preferred
  · by_cases same : j = i
    · subst same
      have ok := (keeps.follower other).1.mono inv.preferred evolves
      simpa [after] using ok.flush
    · have ok := (inv.followers j other).mono inv.preferred evolves
      simpa [after, same] using ok
  · rcases List.mem_append.mp onWire with old | new
    · exact (inv.packets p (fewer old)).mono evolves
    · by_cases same : i = σ.config.groupId
      · have ok := (keeps.preferred same).2.2 p new
        simpa [Cluster.preferred, after, same] using ok.flush
      · exact ((keeps.follower same).2 p new).mono evolves
  · rcases calls call called with old | ⟨server, leads⟩
    · obtain ⟨server, leads⟩ := inv.pending call old
      exact ⟨server, (evolves.leader leads).1⟩
    · exact ⟨server, (evolves.leader leads).1⟩
  · by_cases same : i = σ.config.groupId
    · exact same ▸ member
    · exact inv.member (by simpa [Cluster.preferred, after, Ne.symm same] using leads)

end Moves

section Local

variable {σ : Cluster} {taken : Option Packet} {i : Nat} {p : Packet} {s u : RaftState} {l : Label} {σ' : Cluster}

theorem Inv.preferred_id (inv : σ.Inv) : σ.preferred.id = σ.config.groupId :=
  congrArg RaftConfig.id (inv.config σ.config.groupId)

/-- Every entry of every log is from the one leadership there is. -/
theorem Inv.entry {j : Nat} {e : LogEntry} (inv : σ.Inv) (at_j : (σ.servers i).lm.entries[j]? = some e) :
    σ.preferred.role = .kLeader ∧ e.index = j + 1 ∧ e.term = σ.preferred.currentTerm := by
  by_cases same : i = σ.config.groupId
  · subst same
    refine ⟨?_, inv.preferred.indexed j e at_j, inv.preferred.term j e at_j⟩
    by_contra other
    rw [show (σ.servers σ.config.groupId).lm.entries = [] from (inv.preferred.fresh other).1] at at_j
    simp at at_j
  · have copy := (inv.followers i same).copies j e at_j
    exact ⟨inv.preferred.leader_of_copy copy, copy.index, inv.preferred.copy_term copy⟩

theorem Inv.indexed (inv : σ.Inv) (i : Nat) : (σ.servers i).lm.Indexed := fun _ _ at_j => (inv.entry at_j).2.1

theorem Inv.leader_eq (inv : σ.Inv) (leads : (σ.servers i).role = .kLeader) : i = σ.config.groupId := by
  by_contra other
  rw [(inv.followers i other).role] at leads
  cases leads

theorem ne_of_mem_peers {p : Nat} (inv : σ.Inv) (member : p ∈ σ.preferred.peers) : p ≠ σ.config.groupId :=
  (members_of_config (inv.config σ.config.groupId) member).2.2

theorem Quiet.newLeader (quiet : σ.Quiet i s) : newLeader i (σ.servers i) s = [] := by
  unfold Cluster.newLeader
  rw [if_neg]
  rintro ⟨before, after⟩
  by_cases same : i = σ.config.groupId
  · subst same
    exact before ((quiet.preferred rfl).2.1.mp after)
  · rw [(quiet.follower same).1] at after
    cases after

theorem quiet_local (quiet : σ.Quiet i s) : Local σ taken i s (newLeader i (σ.servers i) s) := by
  rw [quiet.newLeader]
  exact .quiet quiet

theorem Inv.quiet_of_silent (inv : σ.Inv) (log : s.logPart = (σ.servers i).logPart)
    (role : s.role = (σ.servers i).role)
    (round : i ≠ σ.config.groupId → s.electionRound = (σ.servers i).electionRound)
    (term : s.currentTerm = (σ.servers i).currentTerm) (outbox : s.outbox = (σ.servers i).outbox) : σ.Quiet i s := by
  have none : s.outbox = [] := outbox.trans (inv.outbox i)
  refine ⟨log, fun other => ?_, fun same => ?_, by simp [none]⟩
  · have ok := inv.followers i other
    exact ⟨role.trans ok.role, (round other).trans ok.round, term.le.trans ok.term, by simp [none]⟩
  · subst same
    exact ⟨role ▸ inv.preferred.role, by rw [role]; rfl, term.ge, fun _ => term, by simp [none]⟩

theorem newLeader_of_role {s' : RaftState} (role : s'.role = s.role) : newLeader i s s' = [] := by
  unfold newLeader
  rw [if_neg]
  rintro ⟨before, after⟩
  exact before (role.symm.trans after)

/-- Winning an election with an empty log makes a leader at once. -/
theorem Inv.elected (inv : σ.Inv) (before : σ.preferred.role ≠ .kLeader)
    (log : u.logPart = σ.preferred.logPart) (term : σ.preferred.currentTerm ≤ u.currentTerm) (outbox : u.outbox = []) :
    Local σ taken σ.config.groupId u.convertToPreLeader
      (newLeader σ.config.groupId σ.preferred u.convertToPreLeader) := by
  obtain ⟨empty, zero, _⟩ := inv.preferred.fresh before
  have lm : u.lm = σ.preferred.lm := field_eq log (·.lm)
  have commit : u.commitIndex = σ.preferred.commitIndex := field_eq log (·.commitIndex)
  have nothing : u.commitIndex = u.lm.lastLogEntryIndex := by
    rw [commit, lm, zero, inv.preferred.indexed.lastLogEntryIndex_eq, empty]
    rfl
  rw [convertToPreLeader_of_nothing nothing]
  have step := LeaderStep.broadcastHeartbeat u.asLeader
  have leads : u.asLeader.broadcastHeartbeat.role = .kLeader := field_eq step.core (·.role)
  have sameTerm : u.asLeader.broadcastHeartbeat.currentTerm = u.currentTerm :=
    field_eq step.core (·.currentTerm)
  unfold newLeader
  rw [if_pos ⟨before, leads⟩, sameTerm]
  exact .elected before log term outbox

/-- The preferred server stands for election whenever its timer tells it to. -/
theorem isEligible_preferred (same : s.id = s.config.groupId) : s.isEligibleForElection = true := by
  have rank : s.getPriorityRank = s.getClusterServerNumber := by simp [getPriorityRank, same]
  unfold isEligibleForElection
  simp only [rank]
  split
  · simp
  · split
    · rfl
    · have positive : 0 < s.getClusterServerNumber := Nat.succ_pos _
      simp only [decide_eq_true_eq]
      omega

/-- Any other server waits for a round that only a candidate reaches. -/
theorem isEligible_other (other : s.id ≠ s.config.groupId) (round : s.electionRound ≤ 1) :
    s.isEligibleForElection = false := by
  have rank : s.getPriorityRank < s.getClusterServerNumber := by
    unfold getPriorityRank
    rw [if_neg other]
    exact Nat.mod_lt _ (Nat.succ_pos _)
  unfold isEligibleForElection
  rw [if_pos round]
  exact decide_eq_false (Nat.ne_of_lt rank)

theorem quiet_standing (before : σ.preferred.role ≠ .kLeader)
    (log : u.logPart = σ.preferred.logPart) (role : u.role = .kCandidate)
    (term : σ.preferred.currentTerm ≤ u.currentTerm) (outbox : u.outbox = []) :
    σ.Quiet σ.config.groupId (forEach requestVote u.peers u) := by
  obtain ⟨out, run, sent⟩ := requestVotes_spec u
  rw [run]
  refine ⟨log, fun other => absurd rfl other, fun _ => ⟨by simp [role], by simp [role, before], term, by simp [role],
    fun p member => ?_⟩, fun p member reply msg => ?_⟩
  · rcases sent p member with old | ⟨src, dst, args, msg, argsTerm, candidate⟩
    · simp [outbox] at old
    · unfold PacketOk
      rw [msg]
      exact ⟨src, dst, candidate, argsTerm.le⟩
  · rcases sent p member with old | ⟨_, _, args, msg', _⟩
    · simp [outbox] at old
    · cases msg.symm.trans msg'

theorem Inv.startElection_local (inv : σ.Inv) (before : σ.preferred.role ≠ .kLeader)
    (log : s.logPart = σ.preferred.logPart) (role : s.role = .kCandidate)
    (term : s.currentTerm = σ.preferred.currentTerm) (outbox : s.outbox = []) :
    Local σ taken σ.config.groupId s.startElection (newLeader σ.config.groupId σ.preferred s.startElection) := by
  obtain ⟨u, uLog, uRole, uTerm, uOutbox, won | asked⟩ := startElection_spec role
  · rw [won]
    exact inv.elected before (uLog.trans log) (by omega) (uOutbox.trans outbox)
  · rw [asked]
    exact quiet_local (quiet_standing before (uLog.trans log) uRole (by omega) (uOutbox.trans outbox))

theorem Inv.tick_local (inv : σ.Inv) (i : Nat) (timers : Timers) :
    Local σ taken i ((σ.servers i).tick timers) (newLeader i (σ.servers i) ((σ.servers i).tick timers)) := by
  have idle : Local σ taken i (σ.servers i) (newLeader i (σ.servers i) (σ.servers i)) :=
    quiet_local (inv.quiet_of_silent rfl rfl (fun _ => rfl) rfl rfl)
  have config := inv.config i
  unfold tick
  by_cases same : i = σ.config.groupId
  · subst same
    have eligible : (σ.servers σ.config.groupId).isEligibleForElection = true :=
      isEligible_preferred (by rw [RaftState.id, config]; rfl)
    have outbox := inv.outbox σ.config.groupId
    cases role : (σ.servers σ.config.groupId).role with
    | kFollower =>
      simp only [tickOnFollower]
      split
      · exact idle
      · split
        · exact idle
        · exact inv.startElection_local (fun leads => by cases role.symm.trans leads) rfl rfl rfl outbox
    | kCandidate =>
      simp only [tickOnCandidate]
      split
      · exact idle
      · split
        · rename_i ineligible
          simp [eligible] at ineligible
        · exact inv.startElection_local (fun leads => by cases role.symm.trans leads) rfl role rfl outbox
    | kPreLeader => exact absurd role inv.preferred.role
    | kLeader =>
      have step := LeaderStep.sendAsLeader (σ.servers σ.config.groupId) timers
      rw [newLeader_of_role (field_eq step.core (·.role))]
      exact .sending role step
  · have ok := inv.followers i same
    have ineligible : (σ.servers i).isEligibleForElection = false :=
      isEligible_other (by rw [RaftState.id, config]; exact same) (by rw [ok.round]; exact Nat.zero_le 1)
    simp only [ok.role, tickOnFollower, ineligible]
    split <;> exact idle

theorem Inv.processRequestVote_local {args : RequestVoteArgs} (inv : σ.Inv)
    (now : Nat) (ok : σ.preferred.PacketOk p) (msg : p.msg = .requestVote args) :
    Local σ taken p.dst ((σ.servers p.dst).process p.src p.msg now)
      (newLeader p.dst (σ.servers p.dst) ((σ.servers p.dst).process p.src p.msg now)) := by
  unfold PacketOk at ok
  rw [msg] at ok ⊢
  obtain ⟨src, member, _, argsTerm⟩ := ok
  have other := ne_of_mem_peers inv member
  have follower := inv.followers p.dst other
  obtain ⟨log, role, round, outbox, _, _, high, reply, answered, replyTerm⟩ :=
    processRequestVote_spec args now follower.role
  have term := high.trans (max_le follower.term argsTerm)
  have none := outbox.trans (inv.outbox p.dst)
  refine quiet_local ?_
  simp only [process, answer, answered]
  refine ⟨log, fun _ => ⟨role, round.trans follower.round, term, fun q sent => ?_⟩, fun same => absurd same other,
    fun q sent ack isAck => ?_⟩
  · simp only [send, none, List.nil_append, List.mem_singleton] at sent
    subst sent
    exact ⟨src, replyTerm.le.trans term⟩
  · simp only [send, none, List.nil_append, List.mem_singleton] at sent
    subst sent
    cases isAck

theorem Inv.processRequestVoteReply_local {reply : RequestVoteReply} (inv : σ.Inv)
    (now : Nat) (ok : σ.preferred.PacketOk p) (msg : p.msg = .requestVoteReply reply) :
    Local σ taken p.dst ((σ.servers p.dst).process p.src p.msg now)
      (newLeader p.dst (σ.servers p.dst) ((σ.servers p.dst).process p.src p.msg now)) := by
  unfold PacketOk at ok
  rw [msg] at ok ⊢
  obtain ⟨dst, replyTerm⟩ := ok
  rw [dst, inv.preferred_id]
  obtain ⟨u, log, role, term, outbox, same | ⟨candidate, won⟩⟩ :=
    processRequestVoteReply_spec (s := σ.preferred) now replyTerm
  · change Local σ taken σ.config.groupId (σ.preferred.processRequestVoteReply reply now)
      (newLeader σ.config.groupId σ.preferred (σ.preferred.processRequestVoteReply reply now))
    rw [same]
    exact quiet_local (inv.quiet_of_silent log role (fun other => absurd rfl other) term outbox)
  · change Local σ taken σ.config.groupId (σ.preferred.processRequestVoteReply reply now)
      (newLeader σ.config.groupId σ.preferred (σ.preferred.processRequestVoteReply reply now))
    rw [won]
    refine inv.elected (fun leads => ?_) log term.ge (outbox.trans (inv.outbox σ.config.groupId))
    cases candidate.symm.trans leads

theorem Inv.processAppendEntries_local {args : AppendEntriesArgs} (inv : σ.Inv)
    (now : Nat) (onWire : p ∈ σ.net) (msg : p.msg = .appendEntries args) :
    Local σ (some p) p.dst ((σ.servers p.dst).process p.src p.msg now)
      (newLeader p.dst (σ.servers p.dst) ((σ.servers p.dst).process p.src p.msg now) ++
        acceptedEvents p.dst (σ.servers p.dst) p.msg now) := by
  have ok := inv.packets p onWire
  unfold PacketOk at ok
  rw [msg] at ok ⊢
  obtain ⟨leads, src, member, args', msg', argsTerm, leaderId, leaderCommit, count, copies⟩ := ok
  cases msg.symm.trans msg'
  have other := ne_of_mem_peers inv member
  have follower := inv.followers p.dst other
  have none := inv.outbox p.dst
  have places : ∀ i e, args.entries[i]? = some e → e.index = args.prevLogIndex + 1 + i :=
    fun i e at_i => (copies i e at_i).index
  have agree : ∀ i e old, args.entries[i]? = some e →
      (σ.servers p.dst).lm.entries[args.prevLogIndex + i]? = some old → e.term = old.term := by
    intro i e old at_i stored
    rw [inv.preferred.copy_term (copies i e at_i), inv.preferred.copy_term (follower.copies _ old stored)]
  simp only [process, acceptedEvents]
  rcases processAppendEntries_spec now follower.role (argsTerm.symm ▸ follower.term) follower.indexed count
    places agree with ⟨t, reply, run, refused⟩ | ⟨t, infos, run, accepted⟩
  · have out : t.outbox = [] := refused.outbox.trans none
    simp only [run, answer, Option.any_some, refused.failure, Bool.false_eq_true, if_false, List.append_nil]
    refine quiet_local ⟨refused.state, fun _ => ⟨refused.role, refused.round, (refused.term.trans argsTerm).le,
      fun q sent => ?_⟩, fun same => absurd same other, fun q sent ack isAck => ?_⟩
    · simp only [send, out, List.nil_append, List.mem_singleton] at sent
      subst sent
      exact ⟨leads, src, (refused.replyTerm.trans argsTerm).le⟩
    · simp only [send, out, List.nil_append, List.mem_singleton] at sent
      subst sent
      cases isAck
      exact refused.failure
  · have role : (t.tryApplyLogEntries.send p.src (.appendEntriesReply (t.acceptReply args infos))).role =
        (σ.servers p.dst).role :=
      ((field_eq (tryApplyLogEntries_unapplied t) (·.role)).trans accepted.role).trans
        follower.role.symm
    simp only [run, answer]
    rw [newLeader_of_role role]
    exact .accepting other rfl onWire msg accepted

theorem Inv.processAppendEntriesReply_local {reply : AppendEntriesReply} (inv : σ.Inv)
    (now : Nat) (onWire : p ∈ σ.net) (msg : p.msg = .appendEntriesReply reply) :
    Local σ (some p) p.dst ((σ.servers p.dst).process p.src p.msg now)
      (newLeader p.dst (σ.servers p.dst) ((σ.servers p.dst).process p.src p.msg now)) := by
  have ok := inv.packets p onWire
  unfold PacketOk at ok
  rw [msg] at ok ⊢
  obtain ⟨leads, dst, replyTerm⟩ := ok
  rw [dst, inv.preferred_id]
  change Local σ (some p) σ.config.groupId (σ.preferred.processAppendEntriesReply reply now)
    (newLeader σ.config.groupId σ.preferred (σ.preferred.processAppendEntriesReply reply now))
  rcases processAppendEntriesReply_spec (s := σ.preferred) now replyTerm with
    same | ⟨_, success, current, peer, run⟩ | ⟨_, u, run, noted⟩
  · rw [same]
    exact quiet_local (inv.quiet_of_silent rfl rfl (fun _ => rfl) rfl rfl)
  · rw [run, newLeader_of_role]
    · exact .acked leads rfl onWire msg success current peer
    · obtain ⟨c, committed, _⟩ :=
        tryUpdateCommitIndex_spec ((σ.preferred.updateLiveness reply.replyId now).recordReply reply)
      rw [committed]
      exact field_eq (tryApplyLogEntries_unapplied _) (·.role)
  · rw [run, newLeader_of_role]
    · exact .nacked leads noted
    · rw [field_eq (tryApplyLogEntries_unapplied u) (·.role)]
      rcases noted with rfl | ⟨_, rfl⟩ <;> rfl

theorem Inv.deliver_local (inv : σ.Inv) (onWire : p ∈ σ.net) (now : Nat) :
    Local σ (some p) p.dst ((σ.servers p.dst).process p.src p.msg now)
      (newLeader p.dst (σ.servers p.dst) ((σ.servers p.dst).process p.src p.msg now) ++
        acceptedEvents p.dst (σ.servers p.dst) p.msg now) := by
  have ok := inv.packets p onWire
  cases msg : p.msg with
  | requestVote args => simpa [acceptedEvents, msg] using inv.processRequestVote_local now ok msg
  | requestVoteReply reply => simpa [acceptedEvents, msg] using inv.processRequestVoteReply_local now ok msg
  | appendEntries args => simpa [msg] using inv.processAppendEntries_local now onWire msg
  | appendEntriesReply reply =>
    simpa [acceptedEvents, msg] using inv.processAppendEntriesReply_local now onWire msg
  | requestFragments args => simp [PacketOk, msg] at ok
  | requestFragmentsReply reply => simp [PacketOk, msg] at ok

theorem run_record_eq_after (σ : Cluster) (i : Nat) (s : RaftState) (net : List Packet)
    (pending : List PendingPropose) (events : List Event) :
    { ({ σ with net := net }.run i s).record events with pending := pending } =
      σ.after i s net pending (newLeader i (σ.servers i) s ++ events) := by
  simp [after, run, record]

theorem lt_size_of_isUp (up : σ.isUp i = true) : i < σ.config.size := by
  simp only [isUp, Bool.and_eq_true, decide_eq_true_eq] at up
  exact up.1

/-- What each step runs: the handler and its server, what it leaves on the wire and of the calls in progress, and
what it adds to the history besides a change of role. -/
inductive Handles (σ : Cluster) :
    Label → Nat → RaftState → List Packet → List PendingPropose → List Event → Prop
  | ticks {i : Nat} {timers : Timers} (up : σ.isUp i = true) :
      Handles σ (.tick i timers) i ((σ.servers i).tick timers) σ.net σ.pending []
  | refuses {i : Nat} {command : CommandData} (up : σ.isUp i = true)
      (refused : ((σ.servers i).propose command).2.isLeader = false) :
      Handles σ (.propose i command) i ((σ.servers i).propose command).1 σ.net σ.pending []
  | accepts {i : Nat} {command : CommandData} {result : ProposeResult} (up : σ.isUp i = true)
      (called : ((σ.servers i).propose command).2 = result) (accepted : result.isLeader = true) :
      Handles σ (.propose i command) i ((σ.servers i).propose command).1 σ.net
        (σ.pending ++ [{ server := i, index := result.proposeIndex, term := result.proposeTerm }])
        [.proposed i result.proposeIndex result.proposeTerm command]
  | replicates {n : Nat} {call : PendingPropose} (found : σ.pending[n]? = some call)
      (up : σ.isUp call.server = true) :
      Handles σ (.replicate n) call.server ((σ.servers call.server).replicateNewProposeEntry call.index) σ.net
        (σ.pending.eraseIdx n) []
  | delivers {n now : Nat} {q : Packet} (found : σ.net[n]? = some q) (up : σ.isUp q.dst = true) :
      Handles σ (.deliver n now) q.dst ((σ.servers q.dst).process q.src q.msg now) (σ.net.eraseIdx n) σ.pending
        (acceptedEvents q.dst (σ.servers q.dst) q.msg now)
  | restarts {i : Nat} {lm : LogManager} {junk : Uninitialised} (member : i < σ.config.size) :
      Handles σ (.restart i lm junk) i (newRaftState (σ.servers i).config (σ.servers i).storage lm junk) σ.net
        (σ.pending.filter fun call => call.server != i) []

theorem step_handles (step : σ.step l = some σ') : ∃ i s net pending events,
    Handles σ l i s net pending events ∧ σ' = σ.after i s net pending (newLeader i (σ.servers i) s ++ events) := by
  cases l with
  | tick i timers =>
    change σ.stepTick i timers = some σ' at step
    unfold stepTick at step
    split at step
    · rename_i up
      cases step
      exact ⟨_, _, _, _, _, .ticks up, by rw [List.append_nil]; rfl⟩
    · cases step
  | propose i command =>
    change σ.stepPropose i command = some σ' at step
    unfold stepPropose at step
    split at step
    · rename_i up
      dsimp only at step
      split at step
      · rename_i accepted
        cases step
        exact ⟨_, _, _, _, _, .accepts up rfl accepted, run_record_eq_after σ i _ σ.net _ _⟩
      · rename_i refused
        cases step
        exact ⟨_, _, _, _, _, .refuses up (Bool.eq_false_iff.mpr refused), by rw [List.append_nil]; rfl⟩
    · cases step
  | replicate n =>
    change σ.stepReplicate n = some σ' at step
    unfold stepReplicate at step
    split at step
    · cases step
    · rename_i call found
      split at step
      · rename_i up
        cases step
        exact ⟨_, _, _, _, _, .replicates found up, by rw [List.append_nil]; rfl⟩
      · cases step
  | deliver n now =>
    change σ.stepDeliver n now = some σ' at step
    unfold stepDeliver at step
    split at step
    · cases step
    · rename_i q found
      split at step
      · rename_i up
        cases step
        exact ⟨_, _, _, _, _, .delivers found up, run_record_eq_after σ q.dst _ (σ.net.eraseIdx n) σ.pending _⟩
      · cases step
  | restart i lm junk =>
    change σ.stepRestart i lm junk = some σ' at step
    unfold stepRestart at step
    split at step
    · rename_i member
      cases step
      exact ⟨_, _, _, _, _, .restarts member, by rw [List.append_nil]; rfl⟩
    · cases step

theorem Inv.step_moves (inv : σ.Inv) (noRestart : l.isRestart = false)
    (step : σ.step l = some σ') : Moves σ (σ.delivered l) σ' := by
  obtain ⟨i, s, net, pending, events, handles, rfl⟩ := step_handles step
  cases handles with
  | @ticks _ timers up =>
    rw [List.append_nil]
    exact .act (lt_size_of_isUp up) (inv.tick_local i timers) (List.Subset.refl _) fun call member => Or.inl member
  | @refuses _ command up refused =>
    rw [List.append_nil]
    refine .act (lt_size_of_isUp up) (quiet_local ?_) (List.Subset.refl _) fun call member => Or.inl member
    rcases propose_spec (σ.servers i) command with ⟨-, same | stopped⟩ | ⟨accepted, -⟩
    · rw [same]
      exact inv.quiet_of_silent rfl rfl (fun _ => rfl) rfl rfl
    · rw [stopped]
      exact inv.quiet_of_silent rfl rfl (fun _ => rfl) rfl rfl
    · cases accepted.symm.trans refused
  | @accepts _ command result up called accepted =>
    rcases propose_spec (σ.servers i) command with ⟨refused, -⟩ | ⟨-, leads, index, term, e, entry, run⟩
    · rw [called, accepted] at refused
      cases refused
    · have same : i = σ.config.groupId := by
        by_contra other
        rw [(inv.followers i other).role] at leads
        cases leads
      subst same called
      rw [index, term, run, newLeader_of_role (s := σ.servers σ.config.groupId) (by rfl), List.nil_append]
      refine .act (lt_size_of_isUp up) (.proposing leads entry) (List.Subset.refl _) fun call member => ?_
      rcases List.mem_append.mp member with old | new
      · exact Or.inl old
      · rw [List.mem_singleton.mp new]
        exact Or.inr ⟨rfl, leads⟩
  | @replicates n call found up =>
    obtain ⟨server, leads⟩ := inv.pending call (List.mem_of_getElem? found)
    rw [server] at up ⊢
    have sends := LeaderStep.replicateNewProposeEntry σ.preferred call.index
    have local_step : Local σ none σ.config.groupId (σ.preferred.replicateNewProposeEntry call.index)
        (newLeader σ.config.groupId σ.preferred (σ.preferred.replicateNewProposeEntry call.index)) := by
      rw [newLeader_of_role (field_eq sends.core (·.role))]
      exact .sending leads sends
    rw [List.append_nil]
    exact .act (lt_size_of_isUp up) local_step (List.Subset.refl _) fun call member => Or.inl (List.mem_of_mem_eraseIdx member)
  | @delivers n now q found up =>
    change Moves σ σ.net[n]? _
    rw [found]
    exact .act (lt_size_of_isUp up) (inv.deliver_local (List.mem_of_getElem? found) now) List.eraseIdx_subset
      fun call member => Or.inl member
  | restarts => cases noRestart

end Local

section Reach

/-- Steps of a run in which no server crashes. -/
def noRestart (_ : Cluster) (l : Label) : Prop := l.isRestart = false

instance (σ : Cluster) (l : Label) : Decidable (noRestart σ l) := inferInstanceAs (Decidable (l.isRestart = false))

theorem init_currentTerm (c : ClusterConfig) (junk : Nat → Uninitialised) (i : Nat) :
    ((init c junk).servers i).currentTerm = 0 := by
  simp only [init, ClusterConfig.initialStorage]
  split <;> rfl

theorem inv_init (c : ClusterConfig) (junk : Nat → Uninitialised) : (init c junk).Inv := by
  refine ⟨fun i => rfl, fun i => rfl, ?_, fun i _ => ?_, by simp [init], by simp [init], fun leads => by cases leads⟩
  · refine ⟨by simp [Cluster.preferred, init, newRaftState, persistRaftState], LogManager.indexed_nil,
      fun _ => ⟨rfl, rfl, fun _ => rfl, fun _ => rfl, fun _ => rfl⟩, fun leads => ?_, fun j e at_j => ?_,
      fun j e at_j => ?_, Nat.zero_le _⟩
    · cases leads
    · simp [Cluster.preferred, init, newRaftState, persistRaftState] at at_j
    · simp [Cluster.preferred, init, newRaftState, persistRaftState] at at_j
  · refine ⟨rfl, rfl, ?_, fun j e at_j => ?_, Nat.zero_le _, Nat.zero_le _⟩
    · exact (init_currentTerm c junk i).le.trans (Nat.zero_le _)
    · simp [init, newRaftState, persistRaftState] at at_j

variable {ok : Cluster → Label → Prop} {σ σ' : Cluster}

theorem Reach.inv (reach : Reach ok σ σ') (only : ∀ σ l, ok σ l → noRestart σ l) (inv : σ.Inv) : σ'.Inv := by
  induction reach with
  | refl => exact inv
  | next _ allowed step ih => exact ih.moves (ih.step_moves (only _ _ allowed) step)

/-- What every move from a state of a run keeps holds along the whole run. -/
theorem Reach.invariant {P : Cluster → Prop} (reach : Reach ok σ σ') (only : ∀ σ l, ok σ l → noRestart σ l)
    (inv : σ.Inv) (start : P σ)
    (keep : ∀ σ₁ l σ₂, σ₁.Inv → ok σ₁ l → Moves σ₁ (σ₁.delivered l) σ₂ → P σ₁ → P σ₂) : P σ' := by
  induction reach with
  | refl => exact start
  | next before allowed step ih =>
    have here := Reach.inv before only inv
    exact keep _ _ _ here allowed (here.step_moves (only _ _ allowed) step) ih

end Reach

end Cluster

end FlexRaft
