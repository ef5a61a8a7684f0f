import FlexRaft.Deeds

namespace FlexRaft

namespace Cluster

open RaftState

/-- What a message on the wire says about the preferred server. -/
structure Lawful (σ : Cluster) (p : Packet) : Prop where
  term : p.msg.term ≤ σ.preferred.currentTerm
  request : p.msg.isRequest → p.dst ≠ σ.config.groupId
  fragments : ∀ reply, p.msg = .requestFragmentsReply reply → reply.replyId ≠ σ.config.groupId
  leader : ∀ args, p.msg = .appendEntries args →
    args.leaderId = p.src ∧ .becameLeader args.leaderId args.term ∈ σ.history

/-- What holds in every run in which the preferred server never loses its term, restarts included: only
that server ever leaves the follower role, and no term is newer than its own. -/
structure Solo (σ : Cluster) : Prop extends σ.Anchored where
  followers : ∀ i ≠ σ.config.groupId, (σ.servers i).role = .kFollower ∧ (σ.servers i).electionRound = 0 ∧
    (σ.servers i).currentTerm ≤ σ.preferred.currentTerm
  packets : ∀ p ∈ σ.net, σ.Lawful p
  led : σ.preferred.role = .kLeader →
    .becameLeader σ.config.groupId σ.preferred.currentTerm ∈ σ.history
  calls : ∀ call ∈ σ.pending, call.server = σ.config.groupId ∧ σ.preferred.role = .kLeader

/-- What server `i` sends as it gets to the state `s`. -/
structure LawfulFrom (σ : Cluster) (i : Nat) (s : RaftState) (p : Packet) : Prop where
  src : p.src = i
  term : p.msg.term = s.currentTerm
  request : p.msg.isRequest → i = σ.config.groupId ∧ p.dst ≠ i
  fragments : ∀ reply, p.msg = .requestFragmentsReply reply → reply.replyId = i ∧ i ≠ σ.config.groupId
  leader : ∀ args, p.msg = .appendEntries args → args.leaderId = i ∧ s.role = .kLeader

/-- What server `i` may do. -/
structure SoloStep (σ : Cluster) (i : Nat) (s : RaftState) : Prop where
  follower : i ≠ σ.config.groupId → s.role = .kFollower ∧ s.electionRound = 0 ∧
    s.currentTerm ≤ σ.preferred.currentTerm
  later : i = σ.config.groupId → σ.preferred.currentTerm ≤ s.currentTerm
  tenure : i = σ.config.groupId → σ.preferred.role = .kLeader → s.role = .kLeader →
    s.currentTerm = σ.preferred.currentTerm
  packets : ∀ p ∈ s.outbox, σ.LawfulFrom i s p

section After

variable {σ : Cluster} {i : Nat} {s : RaftState} {net : List Packet} {pending : List PendingPropose}
  {events : List Event}

theorem preferred_after_self (same : i = σ.config.groupId) : (σ.after i s net pending events).preferred = s.flush := by
  simp [Cluster.preferred, after, same]

theorem preferred_after_other (other : i ≠ σ.config.groupId) :
    (σ.after i s net pending events).preferred = σ.preferred := by
  simp [Cluster.preferred, after, Ne.symm other]

theorem SoloStep.term_le (step : SoloStep σ i s) :
    σ.preferred.currentTerm ≤ (σ.after i s net pending events).preferred.currentTerm := by
  by_cases same : i = σ.config.groupId
  · rw [preferred_after_self same]
    exact step.later same
  · rw [preferred_after_other same]

theorem Lawful.after {p : Packet} (lawful : σ.Lawful p) (step : SoloStep σ i s) :
    (σ.after i s net pending events).Lawful p := by
  refine ⟨lawful.term.trans step.term_le, lawful.request, lawful.fragments, fun args msg => ?_⟩
  obtain ⟨src, became⟩ := lawful.leader args msg
  exact ⟨src, List.mem_append_left events became⟩

theorem Solo.led_after (inv : σ.Solo) (step : SoloStep σ i s) (leaders : newLeader i (σ.servers i) s ⊆ events)
    (leads : (σ.after i s net pending events).preferred.role = .kLeader) :
    .becameLeader σ.config.groupId (σ.after i s net pending events).preferred.currentTerm ∈
      (σ.after i s net pending events).history := by
  by_cases same : i = σ.config.groupId
  · rw [preferred_after_self same] at leads ⊢
    change s.role = .kLeader at leads
    change Event.becameLeader σ.config.groupId s.currentTerm ∈ σ.history ++ events
    by_cases before : σ.preferred.role = .kLeader
    · rw [step.tenure same before leads]
      exact List.mem_append_left events (inv.led before)
    · refine List.mem_append_right _ (leaders ?_)
      subst same
      rw [newLeader, if_pos ⟨before, leads⟩]
      exact List.mem_singleton_self _
  · rw [preferred_after_other same] at leads ⊢
    exact List.mem_append_left events (inv.led leads)

theorem Solo.after (inv : σ.Solo) (anchored : (σ.after i s net pending events).Anchored) (step : SoloStep σ i s)
    (fewer : net ⊆ σ.net)
    (calls : ∀ call ∈ pending, call.server = σ.config.groupId ∧
      (σ.after i s net pending events).preferred.role = .kLeader)
    (leaders : newLeader i (σ.servers i) s ⊆ events) : (σ.after i s net pending events).Solo := by
  have led : (σ.after i s net pending events).preferred.role = .kLeader → _ := inv.led_after step leaders
  refine ⟨anchored, fun j other => ?_, fun p onWire => ?_, led, calls⟩
  · have old : j ≠ i → (σ.servers j).role = .kFollower ∧ (σ.servers j).electionRound = 0 ∧
        (σ.servers j).currentTerm ≤ (σ.after i s net pending events).preferred.currentTerm := fun _ => by
      obtain ⟨role, round, term⟩ := inv.followers j other
      exact ⟨role, round, term.trans step.term_le⟩
    by_cases same : j = i
    · subst same
      obtain ⟨role, round, term⟩ := step.follower other
      simpa [Cluster.after, flush] using And.intro role (And.intro round (term.trans step.term_le))
    · simpa [Cluster.after, same] using old same
  · rcases List.mem_append.mp onWire with old | new
    · exact (inv.packets p (fewer old)).after step
    · have from_i := step.packets p new
      refine ⟨?_, fun request => ?_, fun reply msg => ?_, fun args msg => ?_⟩
      · rw [from_i.term]
        by_cases same : i = σ.config.groupId
        · rw [preferred_after_self same]
          exact le_rfl
        · rw [preferred_after_other same]
          exact (step.follower same).2.2
      · obtain ⟨same, other⟩ := from_i.request request
        exact same ▸ other
      · obtain ⟨replyId, other⟩ := from_i.fragments reply msg
        exact replyId ▸ other
      · obtain ⟨leaderId, leads⟩ := from_i.leader args msg
        have same : i = σ.config.groupId := (from_i.request (by simp [msg, Message.isRequest])).1
        refine ⟨leaderId.trans from_i.src.symm, ?_⟩
        have term : args.term = s.currentTerm := by simpa [msg, Message.term] using from_i.term
        rw [preferred_after_self same] at led
        rw [leaderId, term, same]
        exact led leads

end After

section SoloStep

variable {σ : Cluster} {i : Nat} {s : RaftState} {p : Packet}

theorem Solo.leader_eq (inv : σ.Solo) (leads : (σ.servers i).role ≠ .kFollower) : i = σ.config.groupId := by
  by_contra other
  exact leads (inv.followers i other).1

theorem Solo.asks (inv : σ.Solo) (config : s.config = (σ.servers i).config) (same : i = σ.config.groupId)
    (asks : s.Asks p) (leads : p.msg.isAppendEntries → s.role = .kLeader) : σ.LawfulFrom i s p := by
  have id : s.id = i := (congrArg RaftConfig.id config).trans (inv.id i)
  obtain ⟨src, dst, term, kind⟩ := asks
  refine ⟨src.trans id, term, fun _ => ⟨same, inv.peer_ne config dst⟩, fun reply msg => ?_, fun args msg => ?_⟩
  · simp [msg] at kind
  · rw [msg] at kind leads
    exact ⟨Eq.trans kind id, leads rfl⟩

theorem Solo.answers (inv : σ.Solo) {taken : Option Packet} (config : s.config = (σ.servers i).config)
    (received : ∀ q ∈ taken, q ∈ σ.net ∧ q.dst = i) (answers : s.Answers taken p) : σ.LawfulFrom i s p := by
  have id : s.id = i := (congrArg RaftConfig.id config).trans (inv.id i)
  obtain ⟨src, ⟨q, isTaken, request, _⟩, term, kind⟩ := answers
  obtain ⟨onWire, dst⟩ := received q isTaken
  have other : i ≠ σ.config.groupId := dst ▸ (inv.packets q onWire).request request
  refine ⟨src.trans id, term, fun isRequest => ?_, fun reply msg => ?_, fun args msg => ?_⟩
  · cases msg : p.msg with
    | requestVote | appendEntries | requestFragments => simp [msg] at kind
    | _ => simp [msg, Message.isRequest] at isRequest
  · rw [msg] at kind
    exact ⟨Eq.trans kind id, other⟩
  · simp [msg] at kind

theorem Solo.speaks (inv : σ.Solo) {taken : Option Packet} (config : s.config = (σ.servers i).config)
    (received : ∀ q ∈ taken, q ∈ σ.net ∧ q.dst = i)
    (alone : i ≠ σ.config.groupId → s.role = .kFollower) (speaks : s.Speaks taken p) : σ.LawfulFrom i s p := by
  rcases speaks with ⟨asks, elected, leads⟩ | answers
  · have same : i = σ.config.groupId := by
      by_contra other
      rcases elected with pre | leader
      · cases pre.symm.trans (alone other)
      · cases leader.symm.trans (alone other)
    exact inv.asks config same asks leads
  · exact inv.answers config received answers

theorem Solo.turn (inv : σ.Solo) {taken : Option Packet} (received : ∀ q ∈ taken, q ∈ σ.net ∧ q.dst = i)
    (turn : Turn (σ.servers i) taken s) : SoloStep σ i s := by
  cases turn with
  | stays same role round outbox =>
    have term : s.currentTerm = (σ.servers i).currentTerm := congrArg PersistRaftState.persistedTerm same.header
    have alone : i ≠ σ.config.groupId → s.role = .kFollower := fun other => by
      have follower := (inv.followers i other).1
      rcases role with kept | ⟨pre, _⟩
      · exact kept.trans follower
      · cases pre.symm.trans follower
    refine ⟨fun other => ?_, fun same => ?_, fun same _ _ => ?_,
      fun p member => inv.speaks same.config received alone (outbox p member)⟩
    · obtain ⟨_, zero, le⟩ := inv.followers i other
      exact ⟨alone other, round.elim (fun kept => kept.trans zero) fun zero => zero, term ▸ le⟩
    · subst same
      exact term.ge
    · subst same
      exact term
  | follows config role cause saves round outbox =>
    have bounded : ∀ q ∈ taken, q.msg.term ≤ σ.preferred.currentTerm := fun q isTaken =>
      (inv.packets q (received q isTaken).1).term
    refine ⟨fun other => ?_, fun same => ?_, fun _ _ leads => ?_,
      fun p member => inv.answers config received (outbox p member)⟩
    · obtain ⟨follower, zero, le⟩ := inv.followers i other
      refine ⟨role, (round follower).elim (fun kept => kept.trans zero) fun zero => zero, ?_⟩
      rcases cause with ⟨_, kept⟩ | ⟨_, _, q, isTaken, term⟩
      · exact (congrArg PersistRaftState.persistedTerm kept).trans_le le
      · exact term.trans_le (bounded q isTaken)
    · subst same
      rcases cause with ⟨_, kept⟩ | ⟨newer, _⟩
      · exact (congrArg PersistRaftState.persistedTerm kept).ge
      · exact Nat.le_of_lt newer
    · cases leads.symm.trans role
  | @grants q args reply config isTaken msg term later vote free role round saves granted replyTerm outbox =>
    have id : (σ.servers i).id = i := inv.id i
    obtain ⟨onWire, dst⟩ := received q isTaken
    have lawful := inv.packets q onWire
    have other : i ≠ σ.config.groupId := dst ▸ lawful.request (by simp [msg, Message.isRequest])
    obtain ⟨follower, zero, _⟩ := inv.followers i other
    refine ⟨fun _ => ⟨?_, round.trans zero, ?_⟩, fun same => absurd same other,
      fun same => absurd same other, fun p member => ?_⟩
    · exact role.elim (fun role => role) fun kept => kept.1.trans follower
    · have bound := lawful.term
      rw [msg] at bound
      exact term.trans_le bound
    · rw [outbox, List.mem_singleton] at member
      subst member
      exact ⟨id, replyTerm.trans term.symm, by simp [Message.isRequest], by simp, by simp⟩
  | stands config eligible passive term vote saves count campaign =>
    have same : i = σ.config.groupId := by
      by_contra other
      have barred := isEligible_other (s := σ.servers i) (by rw [inv.id, inv.config]; exact other)
        (by rw [(inv.followers i other).2.1]; exact Nat.zero_le 1)
      rw [barred] at eligible
      cases eligible
    refine ⟨fun other => absurd same other, fun _ => ?_, fun _ leads => ?_, fun p member => ?_⟩
    · subst same
      exact term.symm ▸ Nat.le_succ _
    · subst same
      rcases passive with follower | candidate
      · cases leads.symm.trans follower
      · cases leads.symm.trans candidate
    · rcases campaign with ⟨_, requests⟩ | ⟨_, _, speaks⟩
      · rw [requests] at member
        obtain ⟨peer, asked, rfl⟩ := List.mem_map.mp member
        have id : s.id = i := (congrArg RaftConfig.id config).trans (inv.id i)
        refine ⟨id, rfl, fun _ => ⟨same, ?_⟩, by simp [voteRequest], by simp [voteRequest]⟩
        rw [← id]
        exact (of_decide_eq_true (List.mem_filter.mp asked).2).1
      · exact inv.speaks config received (fun other => absurd same other) (speaks p member)
  | counts config candidate isTaken msg granted replyTerm ballot storage count role outbox =>
    have same : i = σ.config.groupId := inv.leader_eq fun follower => by cases candidate.symm.trans follower
    refine ⟨fun other => absurd same other, fun _ => ?_, fun _ leads => ?_,
      fun p member => inv.speaks config received (fun other => absurd same other) (outbox p member)⟩
    · subst same
      exact (congrArg PersistRaftState.persistedTerm ballot).ge
    · subst same
      cases leads.symm.trans candidate

theorem Solo.sends (inv : σ.Solo) (asking : Asking (σ.servers i) s)
    (leads : (σ.servers i).role = .kLeader) : SoloStep σ i s := by
  have same : i = σ.config.groupId := inv.leader_eq fun follower => by cases leads.symm.trans follower
  have ballot := SameBallot.of_core asking.core
  have term : s.currentTerm = (σ.servers i).currentTerm := congrArg PersistRaftState.persistedTerm ballot.header
  have role : s.role = (σ.servers i).role := field_eq asking.core (·.role)
  refine ⟨fun other => absurd same other, fun _ => ?_, fun _ _ _ => ?_, fun p member => ?_⟩
  · subst same
    exact term.ge
  · subst same
    exact term
  · rcases asking.outbox p member with old | asks
    · rw [inv.outbox i] at old
      cases old
    · exact inv.asks ballot.config same (ballot.asks asks) fun _ => role.trans leads

theorem Solo.restarts (inv : σ.Solo) (hasStorage : σ.config.hasStorage i = true) (lm : LogManager)
    (junk : Uninitialised) :
    SoloStep σ i (newRaftState (σ.servers i).config (σ.servers i).storage lm junk) := by
  have term := congrArg PersistRaftState.persistedTerm (inv.restart_header hasStorage lm junk)
  refine ⟨fun other => ⟨rfl, rfl, ?_⟩, fun same => ?_, fun _ _ => nofun, nofun⟩
  · exact Eq.trans_le term (inv.followers i other).2.2
  · subst same
    exact term.ge

/-- No message makes a leader step down. -/
theorem Solo.still_leads (inv : σ.Solo) {taken : Option Packet} (received : ∀ q ∈ taken, q ∈ σ.net ∧ q.dst = i)
    (turn : Turn (σ.servers i) taken s) (leads : (σ.servers i).role = .kLeader) : s.role = .kLeader := by
  have same : i = σ.config.groupId := inv.leader_eq fun follower => by cases leads.symm.trans follower
  cases turn with
  | stays _ role =>
    rcases role with kept | ⟨pre, _⟩
    · exact kept.trans leads
    · cases leads.symm.trans pre
  | follows _ _ cause =>
    rcases cause with ⟨candidate, _⟩ | ⟨newer, _, q, isTaken, term⟩
    · cases leads.symm.trans candidate
    · have bound := (inv.packets q (received q isTaken).1).term
      subst same
      exact absurd (term.trans_le bound) (Nat.not_le.mpr newer)
  | @grants q _ _ _ isTaken msg =>
    obtain ⟨onWire, dst⟩ := received q isTaken
    exact absurd (dst.trans same) ((inv.packets q onWire).request (by simp [msg, Message.isRequest]))
  | stands _ _ passive =>
    rcases passive with follower | candidate
    · cases leads.symm.trans follower
    · cases leads.symm.trans candidate
  | counts _ candidate => cases leads.symm.trans candidate

end SoloStep

section Runs

variable {σ σ' : Cluster} {l : Label} {i : Nat} {s : RaftState}

theorem Solo.deed_leads (inv : σ.Solo) (received : ∀ q ∈ σ.delivered l, q ∈ σ.net ∧ q.dst = i) (deed : Deed σ l i s)
    (alive : ∀ lm junk, l ≠ .restart i lm junk) (leads : (σ.servers i).role = .kLeader) : s.role = .kLeader := by
  cases deed with
  | turn turn => exact inv.still_leads received turn leads
  | sends asking => exact (field_eq asking.core (·.role)).trans leads
  | restarts label => exact absurd label (alive _ _)

theorem Left.received {net : List Packet} (left : σ.Left i (σ.delivered l) net) :
    ∀ q ∈ σ.delivered l, q ∈ σ.net ∧ q.dst = i := by
  intro q isTaken
  rw [isTaken] at left
  exact ⟨left.onWire, left.1⟩

/-- A leader stays a leader until it restarts. -/
theorem Solo.leads_happens (inv : σ.Solo) (happens : Happens σ l σ')
    (alive : ∀ lm junk, l ≠ .restart σ.config.groupId lm junk) (leads : σ.preferred.role = .kLeader) :
    σ'.preferred.role = .kLeader := by
  obtain ⟨member, deed, left, calls, leaders⟩ := happens
  rename_i i s events net pending
  by_cases same : i = σ.config.groupId
  · rw [preferred_after_self same]
    change s.role = .kLeader
    subst same
    exact inv.deed_leads left.received deed alive leads
  · rw [preferred_after_other same]
    exact leads

theorem Solo.deed (inv : σ.Solo) (survives : headerSurvives σ l)
    (received : ∀ q ∈ σ.delivered l, q ∈ σ.net ∧ q.dst = i) (deed : Deed σ l i s) : SoloStep σ i s := by
  cases deed with
  | turn turn => exact inv.turn received turn
  | sends asking due =>
    refine inv.sends asking ?_
    rcases due with leads | ⟨call, called, rfl⟩
    · exact leads
    · obtain ⟨server, leads⟩ := inv.calls call called
      rw [server]
      exact leads
  | @restarts lm junk label fresh =>
    subst label fresh
    exact inv.restarts survives lm junk

theorem Solo.happens (inv : σ.Solo) (survives : headerSurvives σ l) (happens : Happens σ l σ') : σ'.Solo := by
  obtain ⟨member, deed, left, calls, leaders⟩ := happens
  rename_i i s events net pending
  have step : SoloStep σ i s := inv.deed survives left.received deed
  obtain ⟨config, saves⟩ := inv.toAnchored.deed survives deed
  refine inv.after (inv.toAnchored.after config saves net pending events) step left.subset (fun call inside => ?_) leaders
  rcases calls call inside with ⟨old, gone⟩ | ⟨server, leads⟩
  · obtain ⟨server, leads⟩ := inv.calls call old
    refine ⟨server, ?_⟩
    by_cases same : i = σ.config.groupId
    · rw [preferred_after_self same]
      change s.role = .kLeader
      subst same
      exact inv.deed_leads left.received deed (fun lm junk label => gone (label ▸ rfl) server) leads
    · rw [preferred_after_other same]
      exact leads
  · have same : i = σ.config.groupId := by
      by_contra other
      cases leads.symm.trans (step.follower other).1
    rw [preferred_after_self same]
    exact ⟨server.trans same, leads⟩

theorem solo_init (c : ClusterConfig) (junk : Nat → Uninitialised) : (init c junk).Solo := by
  refine ⟨anchored_init c junk, fun i _ => ⟨rfl, rfl, ?_⟩, by simp [init], nofun, by simp [init]⟩
  exact (init_currentTerm c junk i).le.trans (Nat.zero_le _)

theorem Reach.solo (reach : Reach headerSurvives σ σ') (inv : σ.Solo) : σ'.Solo ∧ σ'.config = σ.config := by
  refine reach.holds (P := fun τ => τ.Solo ∧ τ.config = σ.config) ⟨inv, rfl⟩ ?_
  rintro σ₁ l σ₂ ⟨inv, config⟩ survives step
  have happens := step_happens inv.outbox step
  exact ⟨inv.happens survives happens, happens.config_eq.trans config⟩

theorem Solo.elected_eq (inv : σ.Solo) (elected : (σ.servers i).isElected) : i = σ.config.groupId := by
  refine inv.leader_eq fun follower => ?_
  rcases elected with pre | leads
  · cases pre.symm.trans follower
  · cases leads.symm.trans follower

variable {c : ClusterConfig} {junk : Nat → Uninitialised}

/-- No two servers are elected in one term, at whatever times of a run with restarts. Only the preferred server
is ever elected, whatever the votes are. -/
theorem election_safety {a b : Nat} (odd : c.size % 2 = 1) (reach : Reach headerSurvives (init c junk) σ)
    (later : Reach headerSurvives σ σ') (first : (σ.servers a).isElected) (second : (σ'.servers b).isElected)
    (term : (σ.servers a).currentTerm = (σ'.servers b).currentTerm) : a = b := by
  obtain ⟨inv, -⟩ := Reach.solo reach (solo_init c junk)
  obtain ⟨inv', config⟩ := Reach.solo later inv
  have preferred := inv'.elected_eq second
  rw [config] at preferred
  exact (inv.elected_eq first).trans preferred.symm

/-- Server 0 leads; server 1 crashes and comes back without its log. -/
theorem election_safety_threeServers : ∃ σ σ', Reach headerSurvives (init (.threeServers 0) .zero) σ ∧
    Reach headerSurvives σ σ' ∧ (σ.servers 0).isElected ∧ (σ.servers 0).currentTerm = 1 ∧
    ∀ b, (σ'.servers b).isElected → 1 = (σ'.servers b).currentTerm → 0 = b := by
  have first : (((exec headerSurvives (init (.threeServers 0) .zero) electZero).get (by decide +kernel)).servers 0).role =
    .kLeader := by decide +kernel
  have term : (((exec headerSurvives (init (.threeServers 0) .zero) electZero).get
    (by decide +kernel)).servers 0).currentTerm = 1 := by decide +kernel
  refine ⟨_, (exec headerSurvives ((exec headerSurvives (init (.threeServers 0) .zero) electZero).get
      (by decide +kernel)) [.restart 1 {} (.zero 1), .tick 1 { electionExpired := true }]).get (by decide +kernel),
    .of_get _, .of_get _, Or.inr first, term, fun b second same => ?_⟩
  exact election_safety (by decide) (.of_get _) (.of_get _) (Or.inr first) second (term.trans same)

end Runs

end Cluster

end FlexRaft
