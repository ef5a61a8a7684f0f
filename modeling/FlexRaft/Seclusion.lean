import FlexRaft.Lockout
import FlexRaft.Collecting

namespace FlexRaft

namespace RaftState

/-- A full log, and what has been collected for its recovery belongs to it. -/
structure Intact (s : RaftState) : Prop where
  log : s.FullLog
  collecting : s.role = .kPreLeader → s.Collecting

theorem KeepsLog.of_core {s s' : RaftState} (core : s'.core = s.core)
    (collecting : s.role = .kPreLeader → s.Collecting) : KeepsLog s s' := by
  refine ⟨?_, fun pre => ?_⟩
  · rw [field_eq core (·.lm)]
    exact .refl _
  · have before : s.core.Collecting := collecting (by rwa [field_eq core (·.role)] at pre)
    rw [← core] at before
    exact before

end RaftState

namespace Cluster

open RaftState

/-- What holds in every run, even if servers lose their term and vote in a restart: only the preferred server ever
leaves the follower role, and no request is sent to it. -/
structure Secluded (σ : Cluster) : Prop where
  config : ∀ i, (σ.servers i).config = σ.config.serverConfig i
  outbox : ∀ i, (σ.servers i).outbox = []
  followers : ∀ i ≠ σ.config.groupId, (σ.servers i).role = .kFollower ∧ (σ.servers i).electionRound = 0
  requests : ∀ p ∈ σ.net, p.msg.isRequest → p.dst ≠ σ.config.groupId
  answers : ∀ p ∈ σ.net, ∀ reply, p.msg = .requestFragmentsReply reply → reply.replyId ≠ σ.config.groupId
  calls : ∀ call ∈ σ.pending, call.server = σ.config.groupId

/-- What server `i` sends does not end the seclusion. -/
structure SecludedFrom (σ : Cluster) (i : Nat) (p : Packet) : Prop where
  request : p.msg.isRequest → p.dst ≠ σ.config.groupId
  answer : ∀ reply, p.msg = .requestFragmentsReply reply → reply.replyId = i ∧ i ≠ σ.config.groupId

/-- What server `i` may do. -/
structure SecludedStep (σ : Cluster) (i : Nat) (s : RaftState) : Prop where
  config : s.config = (σ.servers i).config
  follower : i ≠ σ.config.groupId → s.role = .kFollower ∧ s.electionRound = 0
  packets : ∀ p ∈ s.outbox, σ.SecludedFrom i p

section Secluded

variable {σ σ' : Cluster} {i : Nat} {s : RaftState} {p : Packet} {taken : Option Packet} {l : Label}

theorem Secluded.leader_eq (inv : σ.Secluded) (active : (σ.servers i).role ≠ .kFollower) : i = σ.config.groupId := by
  by_contra other
  exact active (inv.followers i other).1

theorem Secluded.id (inv : σ.Secluded) (config : s.config = (σ.servers i).config) : s.id = i := by
  rw [RaftState.id, config, inv.config i]
  rfl

theorem Secluded.asks (inv : σ.Secluded) (config : s.config = (σ.servers i).config) (same : i = σ.config.groupId)
    (asks : s.Asks p) : σ.SecludedFrom i p := by
  obtain ⟨_, dst, _, kind⟩ := asks
  refine ⟨fun _ => ?_, fun reply msg => ?_⟩
  · rw [peers, config, inv.config i] at dst
    exact same ▸ (ClusterConfig.mem_serverConfig_peers.mp dst).2
  · simp [msg] at kind

theorem Secluded.answered (inv : σ.Secluded) (config : s.config = (σ.servers i).config)
    (received : ∀ q ∈ taken, q ∈ σ.net ∧ q.dst = i) (answers : s.Answers taken p) : σ.SecludedFrom i p := by
  obtain ⟨_, ⟨q, isTaken, request, _⟩, _, kind⟩ := answers
  obtain ⟨onWire, dst⟩ := received q isTaken
  have other : i ≠ σ.config.groupId := dst ▸ inv.requests q onWire request
  refine ⟨fun isRequest => ?_, fun reply msg => ?_⟩
  · cases msg : p.msg with
    | requestVote | appendEntries | requestFragments => simp [msg] at kind
    | _ => simp [msg, Message.isRequest] at isRequest
  · rw [msg] at kind
    exact ⟨Eq.trans kind (inv.id config), other⟩

theorem Secluded.speaks (inv : σ.Secluded) (config : s.config = (σ.servers i).config)
    (received : ∀ q ∈ taken, q ∈ σ.net ∧ q.dst = i)
    (alone : i ≠ σ.config.groupId → s.role = .kFollower) (speaks : s.Speaks taken p) : σ.SecludedFrom i p := by
  rcases speaks with ⟨asks, elected, _⟩ | answers
  · have same : i = σ.config.groupId := by
      by_contra other
      rcases elected with pre | leader
      · cases pre.symm.trans (alone other)
      · cases leader.symm.trans (alone other)
    exact inv.asks config same asks
  · exact inv.answered config received answers

theorem Secluded.turn (inv : σ.Secluded) (received : ∀ q ∈ taken, q ∈ σ.net ∧ q.dst = i)
    (turn : Turn (σ.servers i) taken s) : SecludedStep σ i s := by
  have config := turn.config
  cases turn with
  | stays same role round outbox =>
    have alone : i ≠ σ.config.groupId → s.role = .kFollower := fun other => by
      have follower := (inv.followers i other).1
      rcases role with kept | ⟨pre, _⟩
      · exact kept.trans follower
      · cases pre.symm.trans follower
    refine ⟨config, fun other => ⟨alone other, ?_⟩, fun p member => inv.speaks config received alone (outbox p member)⟩
    exact round.elim (fun kept => kept.trans (inv.followers i other).2) fun zero => zero
  | follows _ role _ _ round outbox =>
    refine ⟨config, fun other => ⟨role, ?_⟩, fun p member => inv.answered config received (outbox p member)⟩
    obtain ⟨follower, zero⟩ := inv.followers i other
    exact (round follower).elim (fun kept => kept.trans zero) fun zero => zero
  | @grants q args reply _ isTaken msg _ _ _ _ role round _ _ _ outbox =>
    refine ⟨config, fun other => ?_, fun p member => ?_⟩
    · obtain ⟨follower, zero⟩ := inv.followers i other
      exact ⟨role.elim (fun role => role) fun kept => kept.1.trans follower, round.trans zero⟩
    · rw [outbox, List.mem_singleton] at member
      subst member
      exact ⟨by simp [Message.isRequest], by simp⟩
  | stands _ eligible _ _ _ _ _ campaign =>
    have same : i = σ.config.groupId := by
      by_contra other
      have barred := isEligible_other (s := σ.servers i) (by rw [inv.id rfl, inv.config]; exact other)
        (by rw [(inv.followers i other).2]; exact Nat.zero_le 1)
      rw [barred] at eligible
      cases eligible
    refine ⟨config, fun other => absurd same other, fun p member => ?_⟩
    rcases campaign with ⟨_, requests⟩ | ⟨_, _, speaks⟩
    · rw [requests] at member
      obtain ⟨peer, asked, rfl⟩ := List.mem_map.mp member
      refine ⟨fun _ => ?_, by simp [voteRequest]⟩
      rw [← same, ← inv.id config]
      exact (of_decide_eq_true (List.mem_filter.mp asked).2).1
    · exact inv.speaks config received (fun other => absurd same other) (speaks p member)
  | counts _ candidate _ _ _ _ _ _ _ _ outbox =>
    have same : i = σ.config.groupId := inv.leader_eq fun follower => by cases candidate.symm.trans follower
    exact ⟨config, fun other => absurd same other,
      fun p member => inv.speaks config received (fun other => absurd same other) (outbox p member)⟩

theorem Secluded.deed (inv : σ.Secluded) (received : ∀ q ∈ σ.delivered l, q ∈ σ.net ∧ q.dst = i) (deed : Deed σ l i s) :
    SecludedStep σ i s := by
  cases deed with
  | turn turn => exact inv.turn received turn
  | sends asking due =>
    have same : i = σ.config.groupId := by
      rcases due with leads | ⟨call, called, rfl⟩
      · exact inv.leader_eq fun follower => by cases leads.symm.trans follower
      · exact inv.calls call called
    have config : s.config = (σ.servers i).config := field_eq asking.core (·.config)
    refine ⟨config, fun other => absurd same other, fun p member => ?_⟩
    rcases asking.outbox p member with old | asks
    · rw [inv.outbox i] at old
      cases old
    · exact inv.asks rfl same asks
  | restarts _ fresh =>
    subst fresh
    exact ⟨rfl, fun _ => ⟨rfl, rfl⟩, nofun⟩

theorem Secluded.happens (inv : σ.Secluded) (happens : Happens σ l σ') : σ'.Secluded := by
  obtain ⟨member, deed, left, calls, leaders⟩ := happens
  rename_i i s events net pending
  obtain ⟨config, follower, packets⟩ := inv.deed left.received deed
  refine ⟨?_, ?_, ?_, fun p onWire => ?_, fun p onWire => ?_, fun call inside => ?_⟩
  · exact forall_after (P := fun j u => u.config = σ.config.serverConfig j) (config.trans (inv.config i))
      fun j _ => inv.config j
  · exact forall_after (P := fun _ u => u.outbox = []) rfl fun j _ => inv.outbox j
  · exact forall_after (P := fun j u => j ≠ σ.config.groupId → u.role = .kFollower ∧ u.electionRound = 0) follower
      fun j _ => inv.followers j
  · rcases List.mem_append.mp onWire with old | new
    · exact inv.requests p (left.subset old)
    · exact (packets p new).request
  · rcases List.mem_append.mp onWire with old | new
    · exact inv.answers p (left.subset old)
    · intro reply msg
      obtain ⟨replyId, other⟩ := (packets p new).answer reply msg
      exact replyId ▸ other
  · rcases calls call inside with ⟨old, _⟩ | ⟨server, leads⟩
    · exact inv.calls call old
    · refine server.trans ?_
      by_contra other
      cases leads.symm.trans (follower other).1

theorem secluded_init (c : ClusterConfig) (junk : Nat → Uninitialised) : (init c junk).Secluded :=
  ⟨fun _ => rfl, fun _ => rfl, fun _ _ => ⟨rfl, rfl⟩, by simp [init], by simp [init], by simp [init]⟩

theorem Reach.secluded {c : ClusterConfig} {junk : Nat → Uninitialised} {ok : Cluster → Label → Prop}
    (reach : Reach ok (init c junk) σ) : σ.config = c ∧ σ.Secluded := by
  refine reach.holds (P := fun σ => σ.config = c ∧ σ.Secluded) ⟨rfl, secluded_init c junk⟩ ?_
  rintro σ₁ l σ₂ ⟨config, inv⟩ _ step
  have happens := step_happens inv.outbox step
  exact ⟨happens.config_eq.trans config, inv.happens happens⟩

theorem Solo.secluded (solo : σ.Solo) : σ.Secluded :=
  ⟨solo.config, solo.outbox, fun i other => ⟨(solo.followers i other).1, (solo.followers i other).2.1⟩,
    fun p onWire => (solo.packets p onWire).request, fun p onWire => (solo.packets p onWire).fragments,
    fun call called => (solo.calls call called).1⟩

end Secluded

/-- What a step does to the log of the preferred server. -/
inductive LogStep (σ : Cluster) (l : Label) (σ' : Cluster) : Prop
  | keeps (same : KeepsLog σ.preferred σ'.preferred)
      (proposals : ∀ i j t command, .proposed i j t command ∈ σ'.history → .proposed i j t command ∈ σ.history)
  | proposes {command : CommandData} {e : LogEntry} (leads : σ.preferred.role = .kLeader)
      (entry : ProposedEntry σ.preferred command e)
      (after : σ'.preferred = { σ.preferred with lm := σ.preferred.lm.appendLogEntry e })
      (history : σ'.history = σ.history ++
        [.proposed σ.config.groupId (σ.preferred.lm.lastLogEntryIndex + 1) σ.preferred.currentTerm command])
  | restarts {lm : LogManager} {junk : Uninitialised} (label : l = .restart σ.config.groupId lm junk)
      (log : σ'.preferred.lm.entries <+: σ.preferred.lm.entries) (role : σ'.preferred.role = .kFollower)
      (proposals : ∀ i j t command, .proposed i j t command ∈ σ'.history → .proposed i j t command ∈ σ.history)

/-- The preferred server comes back with an initial part of its log, if any. -/
def restoresPart (σ : Cluster) : Label → Prop
  | .restart i lm _ => i = σ.config.groupId → lm.entries <+: (σ.servers i).lm.entries
  | _ => True

instance (σ : Cluster) : (l : Label) → Decidable (restoresPart σ l)
  | .restart i lm _ => inferInstanceAs (Decidable (i = σ.config.groupId → lm.entries <+: (σ.servers i).lm.entries))
  | .tick _ _ | .propose _ _ | .replicate _ | .deliver _ _ => isTrue trivial

/-- Moreover, what a pre-leader takes up from a smaller id corroborates its own log. -/
def attested (σ : Cluster) (l : Label) : Prop :=
  restoresPart σ l ∧ ∀ p ∈ σ.delivered l, AnswerCorroborates (σ.servers p.dst) p.msg

instance (σ : Cluster) (l : Label) : Decidable (attested σ l) :=
  inferInstanceAs (Decidable (restoresPart σ l ∧ ∀ p ∈ σ.delivered l, AnswerCorroborates (σ.servers p.dst) p.msg))

section LogStep

variable {σ σ' : Cluster} {i : Nat} {s : RaftState} {net : List Packet} {pending : List PendingPropose}
  {events : List Event} {l : Label} {j : Nat} {e : LogEntry}

theorem LogStep.of_after (intact : σ.preferred.Intact) (own : i = σ.config.groupId → KeepsLog σ.preferred s)
    (none : ∀ i j t command, .proposed i j t command ∉ events) : LogStep σ l (σ.after i s net pending events) := by
  refine .keeps ?_ fun i j t command recorded => ?_
  · by_cases same : i = σ.config.groupId
    · rw [preferred_after_self same]
      exact ⟨(own same).lm, (own same).collecting⟩
    · rw [preferred_after_other same]
      exact ⟨.refl _, intact.collecting⟩
  · rcases List.mem_append.mp recorded with old | new
    · exact old
    · exact absurd new (none i j t command)

theorem proposed_notMem_newLeader (n : Nat) (s s' : RaftState) (i j t : Nat) (command : CommandData) :
    .proposed i j t command ∉ newLeader n s s' := by
  unfold newLeader
  split <;> simp

theorem proposed_notMem_acceptedEvents (n : Nat) (s : RaftState) (msg : Message) (now i j t : Nat)
    (command : CommandData) : .proposed i j t command ∉ acceptedEvents n s msg now := by
  unfold acceptedEvents
  split
  · split <;> simp
  · simp

theorem proposed_notMem_events (n : Nat) (s s' : RaftState)
    (none : ∀ i j t command, .proposed i j t command ∉ events) (i j t : Nat) (command : CommandData) :
    .proposed i j t command ∉ newLeader n s s' ++ events := by
  intro member
  rcases List.mem_append.mp member with leader | other
  · exact proposed_notMem_newLeader n s s' i j t command leader
  · exact none i j t command other

theorem Secluded.accepts_logStep (inv : σ.Secluded) {command : CommandData} {result : ProposeResult}
    (called : ((σ.servers i).propose command).2 = result) (accepted : result.isLeader = true) :
    LogStep σ l (σ.after i ((σ.servers i).propose command).1 net pending
      (newLeader i (σ.servers i) ((σ.servers i).propose command).1 ++
        [.proposed i result.proposeIndex result.proposeTerm command])) := by
  rcases propose_spec (σ.servers i) command with ⟨refused, -⟩ | ⟨-, leads, index, term, e, entry, run⟩
  · rw [called, accepted] at refused
    cases refused
  · have same : i = σ.config.groupId := inv.leader_eq fun follower => by cases leads.symm.trans follower
    subst same called
    rw [index, term, run]
    refine .proposes leads entry ?_ ?_
    · simp [Cluster.preferred, Cluster.after, flush, inv.outbox]
    · simp [Cluster.after, newLeader, leads, Cluster.preferred]

theorem restarts_logStep (intact : σ.preferred.Intact) {lm : LogManager} {junk : Uninitialised}
    (allowed : attested σ (.restart i lm junk)) : LogStep σ (.restart i lm junk)
      (σ.after i (newRaftState (σ.servers i).config (σ.servers i).storage lm junk) net pending
        (newLeader i (σ.servers i) (newRaftState (σ.servers i).config (σ.servers i).storage lm junk) ++ [])) := by
  have none : ∀ j n t command, .proposed j n t command ∉ newLeader i (σ.servers i)
      (newRaftState (σ.servers i).config (σ.servers i).storage lm junk) ++ [] := proposed_notMem_events i _ _ nofun
  by_cases same : i = σ.config.groupId
  · have written : lm.entries <+: σ.preferred.lm.entries := by
      have here := allowed.1 same
      rwa [same] at here
    refine .restarts (by rw [same]) ?_ ?_ ?_
    · subst same
      simpa [Cluster.preferred, Cluster.after, flush, newRaftState, persistRaftState] using written
    · subst same
      simp [Cluster.preferred, Cluster.after, flush, newRaftState, persistRaftState]
    · intro i' j t command recorded
      rcases List.mem_append.mp recorded with old | new
      · exact old
      · exact absurd new (none i' j t command)
  · exact .of_after intact (fun same' => absurd same' same) none

/-- The five kinds of steps, as far as the log of the preferred server goes. -/
theorem Secluded.step_logStep (inv : σ.Secluded) (intact : σ.preferred.Intact) (allowed : attested σ l)
    (step : σ.step l = some σ') : LogStep σ l σ' := by
  obtain ⟨i, s, net, pending, events, handles, rfl⟩ := step_handles step
  cases handles with
  | @ticks _ timers up =>
    refine .of_after intact (fun same => ?_) (proposed_notMem_events _ _ _ nofun)
    subst same
    exact tick_keeps intact.log intact.collecting (stopped_of_isUp up) timers
  | @refuses _ command up refused =>
    refine .of_after intact (fun same => ?_) (proposed_notMem_events _ _ _ nofun)
    subst same
    rcases propose_spec (σ.servers σ.config.groupId) command with ⟨-, same | stopped⟩ | ⟨accepted, -⟩
    · rw [same]
      exact ⟨.refl _, intact.collecting⟩
    · rw [stopped]
      exact ⟨.refl _, intact.collecting⟩
    · cases accepted.symm.trans refused
  | accepts _ called accepted => exact inv.accepts_logStep called accepted
  | @replicates n call found up =>
    refine .of_after intact (fun same => ?_) (proposed_notMem_events _ _ _ nofun)
    have core := (Asking.replicateNewProposeEntry (stopped_of_isUp up) call.index).core
    rw [same] at core ⊢
    exact .of_core core intact.collecting
  | @delivers n now q found up =>
    have onWire := List.mem_of_getElem? found
    have agrees : (σ.servers q.dst).AnswerCorroborates q.msg := allowed.2 q found
    refine .of_after intact (fun same => ?_)
      (proposed_notMem_events _ _ _ (proposed_notMem_acceptedEvents q.dst (σ.servers q.dst) q.msg now))
    rw [same] at up agrees ⊢
    refine process_keeps intact.log intact.collecting (stopped_of_isUp up) now
      (fun request => inv.requests q onWire request same) (fun reply msg => ?_) agrees
    rw [Cluster.preferred, inv.id rfl]
    exact inv.answers q onWire reply msg
  | restarts => exact restarts_logStep intact allowed

theorem getElem?_of_written {lm lm' : LogManager} (written : lm'.entries <+: lm.entries)
    (at_j : lm'.entries[j]? = some e) : lm.entries[j]? = some e := by
  obtain ⟨bound, _⟩ := List.getElem?_eq_some_iff.mp at_j
  obtain ⟨rest, whole⟩ := written
  rw [← whole, List.getElem?_append_left bound, at_j]

/-- Unless it restarts, the preferred server keeps the commands of its log. -/
theorem Secluded.keeps_entry (inv : σ.Secluded) (intact : σ.preferred.Intact) (allowed : attested σ l)
    (alive : ∀ lm junk, l ≠ .restart σ.config.groupId lm junk) (step : σ.step l = some σ') 
    (at_j : σ.preferred.lm.entries[j]? = some e) : ∃ f, σ'.preferred.lm.entries[j]? = some f ∧ SameCommand e f := by
  cases inv.step_logStep intact allowed step with
  | keeps same =>
    have bound : j < σ'.preferred.lm.entries.length := by
      rw [same.lm.length]
      exact (List.getElem?_eq_some_iff.mp at_j).1
    have at_f := List.getElem?_eq_getElem bound
    obtain ⟨e', at_e', e'_f⟩ := same.lm.entry j _ at_f
    cases at_j.symm.trans at_e'
    exact ⟨_, at_f, e'_f⟩
  | proposes _ _ after =>
    refine ⟨e, ?_, .refl e⟩
    rw [after]
    exact List.getElem?_append_left (List.getElem?_eq_some_iff.mp at_j).1 ▸ at_j
  | restarts label => exact absurd label (alive _ _)

theorem Secluded.intact_step (inv : σ.Secluded) (intact : σ.preferred.Intact) (allowed : attested σ l)
    (step : σ.step l = some σ') : σ'.preferred.Intact := by
  have happens := step_happens inv.outbox step
  have config : σ'.preferred.config = σ.preferred.config := by
    rw [Cluster.preferred, Cluster.preferred, (inv.happens happens).config, inv.config, happens.config_eq]
  cases inv.step_logStep intact allowed step with
  | keeps same => exact ⟨intact.log.keeps same.lm config, same.collecting⟩
  | proposes leads entry after =>
    refine ⟨⟨?_, fun j f at_j => ?_, ?_⟩, fun pre => ?_⟩
    · rw [after]
      exact intact.log.indexed.appendLogEntry (intact.log.indexed.lastLogEntryIndex_eq ▸ entry.index)
    · rw [after] at at_j
      rcases LogManager.appendLogEntry_getElem? at_j with old | ⟨rfl, _⟩
      · exact intact.log.normal j f old
      · exact entry.type
    · rw [after]
      exact intact.log.size
    · rw [after] at pre
      cases leads.symm.trans pre
  | restarts _ log role =>
    have before : ∀ (j : Nat) e, σ'.preferred.lm.entries[j]? = some e → σ.preferred.lm.entries[j]? = some e :=
      fun _ _ => getElem?_of_written log
    refine ⟨⟨fun j e at_j => intact.log.indexed j e (before j e at_j),
      fun j e at_j => intact.log.normal j e (before j e at_j), ?_⟩, fun pre => ?_⟩
    · rw [getClusterServerNumber, peers, config]
      exact intact.log.size
    · cases role.symm.trans pre

theorem intact_init {c : ClusterConfig} (junk : Nat → Uninitialised) (member : c.groupId < c.size) :
    (init c junk).preferred.Intact := by
  have none : ∀ (j : Nat) e, (init c junk).preferred.lm.entries[j]? ≠ some e := fun j e at_j => by
    have empty : ([] : List LogEntry)[j]? = some e := at_j
    simp at empty
  refine ⟨⟨fun j e at_j => absurd at_j (none j e), fun j e at_j => absurd at_j (none j e), ?_⟩, nofun⟩
  change (c.serverConfig c.groupId).peers.length + 1 ≤ 32
  rw [c.serverConfig_peers_length, if_pos member]
  have bound := c.size_le
  omega

end LogStep

end Cluster

end FlexRaft
