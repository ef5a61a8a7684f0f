import FlexRaft.StateMachine
import FlexRaft.StripeEntry

namespace FlexRaft

namespace RaftState

variable {s s' : RaftState}

/-- A server has handed over the beginning of its log, and nothing that is not committed. -/
structure HandsOver (s : RaftState) : Prop where
  bridge : s.bridge = s.lm.entries.take s.lastApplied
  applied : s.lastApplied ≤ s.commitIndex

theorem HandsOver.applyNext (only : s.config.hasRsm = false ∧ s.config.hasBridge = true)
    (indexed : s.lm.Indexed) (bridge : s.bridge = s.lm.entries.take s.lastApplied) (next : s.applyNext = some s') :
    s'.bridge = s.lm.entries.take s'.lastApplied := by
  unfold RaftState.applyNext at next
  rw [only.1, only.2] at next
  obtain ⟨ent, found, rfl⟩ := Option.map_eq_some_iff.mp next
  rw [indexed.getSingleLogEntry_succ] at found
  simp [bridge, List.take_add_one, found]

theorem HandsOver.tryApplyLogEntries (only : s.config.hasRsm = false ∧ s.config.hasBridge = true)
    (indexed : s.lm.Indexed) (hands : s.HandsOver) : s.tryApplyLogEntries.HandsOver := by
  have rest := tryApplyLogEntries_unapplied s
  have loop : s.tryApplyLogEntries.unapplied = s.unapplied ∧
      s.tryApplyLogEntries.bridge = s.lm.entries.take s.tryApplyLogEntries.lastApplied := by
    refine tryApplyLogEntries_induction (motive := fun t => t.unapplied = s.unapplied ∧
      t.bridge = s.lm.entries.take t.lastApplied) ⟨rfl, hands.bridge⟩ ?_
    rintro t t' ⟨same, bridge⟩ next
    have config : t.config = s.config := field_eq same (·.config)
    have lm : t.lm = s.lm := field_eq same (·.lm)
    refine ⟨(applyNext_spec next).1.trans same, ?_⟩
    rw [← lm] at bridge ⊢
    exact applyNext (config ▸ only) (lm ▸ indexed) bridge next
  refine ⟨?_, ?_⟩
  · rw [loop.2, field_eq rest (·.lm)]
  · rw [field_eq rest (·.commitIndex)]
    exact tryApplyLogEntries_lastApplied_le hands.applied

theorem HandsOver.of_eq (hands : s.HandsOver) (same : s'.applied = s.applied) (lm : s'.lm = s.lm)
    (commit : s'.commitIndex = s.commitIndex) : s'.HandsOver := by
  simp only [RaftState.applied, Prod.mk.injEq] at same
  obtain ⟨_, bridge, last⟩ := same
  exact ⟨by rw [bridge, lm, last, hands.bridge], by rw [last, commit]; exact hands.applied⟩

theorem HandsOver.grown (hands : s.HandsOver) (same : s'.applied = s.applied)
    (inside : s.commitIndex ≤ s.lm.entries.length) (log : s.lm.entries <+: s'.lm.entries)
    (commit : s.commitIndex ≤ s'.commitIndex) : s'.HandsOver := by
  simp only [RaftState.applied, Prod.mk.injEq] at same
  obtain ⟨_, bridge, last⟩ := same
  have applied := hands.applied
  refine ⟨?_, by omega⟩
  obtain ⟨more, grown⟩ := log
  rw [bridge, last, hands.bridge, ← grown, List.take_append_of_le_length (by omega)]

end RaftState

namespace Cluster

open RaftState

section Preferred

variable {σ σ' : Cluster} {taken : Option Packet} {i : Nat} {s : RaftState} {events : List Event} {l : Label}

theorem Local.lm_eq (step : Local σ taken i s events) (own : i = σ.config.groupId)
    (none : ∀ i j t command, .proposed i j t command ∉ events) : s.lm = σ.preferred.lm := by
  cases step with
  | quiet quiet =>
    subst own
    exact field_eq quiet.logPart (·.lm)
  | @elected u before log =>
    have step := LeaderStep.broadcastHeartbeat u.asLeader
    exact (field_eq step.core (·.lm)).trans (field_eq log (·.lm))
  | sending _ step => exact field_eq step.core (·.lm)
  | proposing => exact absurd (List.mem_singleton_self _) (none _ _ _ _)
  | accepting other => exact absurd own other
  | @acked p reply now =>
    obtain ⟨c, committed, _⟩ :=
      tryUpdateCommitIndex_spec ((σ.preferred.updateLiveness reply.replyId now).recordReply reply)
    rw [committed]
    exact field_eq (tryApplyLogEntries_unapplied _) (·.lm)
  | @nacked reply now u _ noted =>
    rw [field_eq (tryApplyLogEntries_unapplied u) (·.lm)]
    rcases noted with rfl | ⟨_, rfl⟩ <;> rfl

theorem Local.log_extends (step : Local σ taken i s events) (own : i = σ.config.groupId) :
    σ.preferred.lm.entries <+: s.lm.entries := by
  by_cases proposes : ∀ i j t command, .proposed i j t command ∉ events
  · simp only [step.lm_eq own proposes, List.prefix_rfl]
  · cases step with
    | proposing => exact List.prefix_append _ _
    | quiet | elected | sending | accepting | acked | nacked => simp at proposes

theorem Inv.preferred_moves (inv : σ.Inv) (moves : Moves σ taken σ')
    (only : σ.preferred.config.hasRsm = false ∧ σ.preferred.config.hasBridge = true)
    (hands : σ.preferred.HandsOver) :
    σ'.preferred.HandsOver ∧ σ.preferred.lm.entries <+: σ'.preferred.lm.entries ∧
      σ.preferred.commitIndex ≤ σ'.preferred.commitIndex := by
  have inv' := inv.moves moves
  have evolves := moves.evolves inv
  obtain ⟨member, step, fewer, calls⟩ := moves
  rename_i actor s events net pending
  refine ⟨?_, ?_, evolves.commit⟩
  · by_cases own : actor = σ.config.groupId
    · have indexed : s.lm.Indexed := by
        have flushed := inv'.preferred.indexed
        rwa [preferred_after_self own] at flushed
      rw [preferred_after_self own] at evolves ⊢
      have log := step.log_extends own
      obtain ⟨u, config, applied, lm, commit, done⟩ := step.applies
      subst own
      have before : u.HandsOver :=
        hands.grown applied inv.preferred.commit (lm ▸ log) (commit.symm ▸ evolves.commit)
      rcases done with same | ran
      · exact before.of_eq same lm.symm commit.symm
      · have rest := tryApplyLogEntries_unapplied u
        refine (before.tryApplyLogEntries (config ▸ only) (lm ▸ indexed)).of_eq ran ?_ ?_
        · exact lm.symm.trans (field_eq rest (·.lm)).symm
        · exact commit.symm.trans (field_eq rest (·.commitIndex)).symm
    · rw [preferred_after_other own]
      exact hands
  · by_cases own : actor = σ.config.groupId
    · rw [preferred_after_self own]
      exact step.log_extends own
    · simp only [preferred_after_other own, List.prefix_rfl]

theorem preferred_after_lm {net : List Packet} {pending : List PendingPropose}
    (own : i = σ.config.groupId → s.lm = σ.preferred.lm) :
    (σ.after i s net pending events).preferred.lm = σ.preferred.lm := by
  by_cases same : i = σ.config.groupId
  · rw [preferred_after_self same]
    exact own same
  · rw [preferred_after_other same]

theorem Inv.lm_of_step (inv : σ.Inv) (alive : l.isRestart = false) (other : ∀ i command, l ≠ .propose i command)
    (step : σ.step l = some σ') : σ'.preferred.lm = σ.preferred.lm := by
  obtain ⟨i, s, net, pending, events, handles, rfl⟩ := step_handles step
  refine preferred_after_lm fun own => ?_
  cases handles with
  | @ticks _ timers =>
    have acts : Local σ none i _ _ := inv.tick_local i timers
    exact acts.lm_eq own (proposed_notMem_newLeader _ _ _)
  | refuses | accepts => exact absurd rfl (other _ _)
  | replicates =>
    rw [own]
    exact field_eq (LeaderStep.replicateNewProposeEntry σ.preferred _).core (·.lm)
  | @delivers n now p found =>
    refine (inv.deliver_local (List.mem_of_getElem? found) now).lm_eq own fun i j t command member => ?_
    rcases List.mem_append.mp member with leader | accepted
    · exact proposed_notMem_newLeader _ _ _ i j t command leader
    · exact proposed_notMem_acceptedEvents _ _ _ _ i j t command accepted
  | restarts => cases alive

/-- A server without storage that comes back knows nothing. -/
theorem Inv.restart_other (inv : σ.Inv) {junk : Uninitialised} (other : i ≠ σ.config.groupId)
    (volatile : (σ.servers i).storage = none) (step : σ.stepRestart i {} junk = some σ') :
    σ'.Inv ∧ σ'.preferred = σ.preferred := by
  unfold stepRestart at step
  rw [volatile] at step
  split at step <;> cases step
  generalize restarted : newRaftState (σ.servers i).config none {} junk = fresh
  generalize calls : σ.pending.filter (fun call => call.server != i) = pending
  change (σ.after i fresh σ.net pending (newLeader i (σ.servers i) fresh)).Inv ∧
    (σ.after i fresh σ.net pending (newLeader i (σ.servers i) fresh)).preferred = σ.preferred
  have same : (σ.after i fresh σ.net pending (newLeader i (σ.servers i) fresh)).preferred = σ.preferred :=
    preferred_after_other other
  subst restarted
  refine ⟨⟨?_, ?_, same ▸ inv.preferred, ?_, fun p onWire => ?_, fun call inside => ?_, fun leads => ?_⟩, same⟩
  · exact forall_after (P := fun j u => u.config = σ.config.serverConfig j) (inv.config i) fun j _ => inv.config j
  · exact forall_after (P := fun _ u => u.outbox = []) rfl fun j _ => inv.outbox j
  · rw [same]
    refine forall_after (P := fun j u => j ≠ σ.config.groupId → FollowerOk σ.preferred j u) (fun _ => ?_)
      fun j _ => inv.followers j
    exact ⟨rfl, rfl, Nat.zero_le _, nofun, Nat.zero_le _, Nat.zero_le _⟩
  · rw [same]
    exact inv.packets p (by simpa [Cluster.after, newRaftState, persistRaftState] using onWire)
  · rw [same]
    rw [← calls] at inside
    exact inv.pending call (List.mem_of_mem_filter inside)
  · rw [same] at leads
    exact inv.member leads

theorem Happens.volatile (happens : Happens σ l σ') (bare : ∀ i, (σ.servers i).storage = none) :
    ∀ i, (σ'.servers i).storage = none := by
  obtain ⟨member, deed, left, calls, leaders⟩ := happens
  rename_i i s events net pending
  refine forall_after (P := fun _ u => u.storage = none) ?_ fun j _ => bare j
  cases deed with
  | turn turn =>
    rcases turn.saves with ⟨kept, _⟩ | written
    · exact kept.trans (bare i)
    · rw [bare i] at written
      exact written
  | sends asking => exact (SameBallot.of_core asking.core).storage.trans (bare i)
  | restarts _ fresh =>
    rw [fresh, bare i]
    rfl

end Preferred

end Cluster

namespace PutGroup

open RaftState

/-- The preferred server does not restart, only puts are proposed, their sizes fit and so do the indices of the log. -/
def steady (γ : PutGroup) : PutLabel → Prop
  | .raft (.propose _ _) => False
  | .restart server _ => server ≠ γ.cluster.config.groupId
  | .startPut _ key value => key ≠ [] ∧ value ≠ [] ∧ 29 + key.length < 2 ^ 31 ∧ value.length < 2 ^ 31
  | .proposePut _ => γ.cluster.preferred.lm.entries.length + 1 < UInt32.size
  | .raft _ | .answer _ | .pollPut _ => True

instance (γ : PutGroup) : (l : PutLabel) → Decidable (γ.steady l)
  | .raft (.propose _ _) => isFalse nofun
  | .restart server _ => inferInstanceAs (Decidable (server ≠ γ.cluster.config.groupId))
  | .startPut _ key value =>
    inferInstanceAs (Decidable (key ≠ [] ∧ value ≠ [] ∧ 29 + key.length < 2 ^ 31 ∧ value.length < 2 ^ 31))
  | .proposePut _ => inferInstanceAs (Decidable (γ.cluster.preferred.lm.entries.length + 1 < UInt32.size))
  | .raft (.tick _ _) | .raft (.replicate _) | .raft (.deliver _ _) | .raft (.restart _ _ _) | .answer _ | .pollPut _ =>
    isTrue trivial

/-- The put has its entry at `index` of the log of the preferred server. -/
structure HasEntry (c : StripeConfig) (σ : Cluster) (put : PutCall) (index term : Nat) : Prop where
  server : put.server = c.groupId
  entry : ∃ j, index = j + 1 ∧ σ.preferred.lm.entries[j]? = some (c.stripeEntry put.cmd term (j + 1))

/-- The log of the preferred server is made of puts, and each call has its own entry in it. -/
structure Logged (c : StripeConfig) (γ : PutGroup) : Prop where
  config : γ.cluster.config = c.clusterConfig
  inv : γ.cluster.Inv
  volatile : ∀ i, (γ.cluster.servers i).storage = none
  hands : γ.cluster.preferred.HandsOver
  entries : ∀ (j : Nat) e, γ.cluster.preferred.lm.entries[j]? = some e →
    ∃ cmd term, cmd.Fits ∧ e = c.stripeEntry cmd term (j + 1)
  short : γ.cluster.preferred.lm.entries.length < UInt32.size
  fits : ∀ put ∈ γ.puts, put.cmd.Fits
  waits : ∀ put ∈ γ.puts, ∀ index term retry, put.phase = .waiting index term retry →
    HasEntry c γ.cluster put index term
  done : ∀ put ∈ γ.puts, ∀ index term, put.phase = .returned .kOk index term →
    HasEntry c γ.cluster put index term ∧ index ≤ γ.cluster.preferred.commitIndex

section Logged

variable {c : StripeConfig} {γ γ' : PutGroup} {σ σ' : Cluster} {put : PutCall} {index term n : Nat} {l : Label}
  {puts : List PutCall} {server : Nat} {cmd : StripeWriteCommand}

theorem getElem?_of_begins {xs ys : List LogEntry} {j : Nat} {e : LogEntry} (log : xs <+: ys) (at_j : xs[j]? = some e) :
    ys[j]? = some e := by
  obtain ⟨more, grown⟩ := log
  rw [← grown, List.getElem?_append_left (List.getElem?_eq_some_iff.mp at_j).1, at_j]

theorem HasEntry.grown (has : HasEntry c σ put index term)
    (log : σ.preferred.lm.entries <+: σ'.preferred.lm.entries) : HasEntry c σ' put index term := by
  obtain ⟨server, j, place, at_j⟩ := has
  exact ⟨server, j, place, getElem?_of_begins log at_j⟩

/-- The log of the preferred server and its committed part have grown. -/
def Extends (σ σ' : Cluster) : Prop :=
  σ.preferred.lm.entries <+: σ'.preferred.lm.entries ∧ σ.preferred.commitIndex ≤ σ'.preferred.commitIndex

theorem Extends.refl (σ : Cluster) : Extends σ σ := ⟨List.prefix_rfl, le_rfl⟩

/-- What the group may do under the puts. -/
structure Advances (c : StripeConfig) (σ σ' : Cluster) : Prop where
  config : σ'.config = σ.config
  inv : σ'.Inv
  volatile : ∀ i, (σ'.servers i).storage = none
  hands : σ'.preferred.HandsOver
  entries : ∀ (j : Nat) e, σ'.preferred.lm.entries[j]? = some e → ∃ cmd term, cmd.Fits ∧ e = c.stripeEntry cmd term (j + 1)
  short : σ'.preferred.lm.entries.length < UInt32.size
  extended : Extends σ σ'

theorem Logged.advances (logged : Logged c γ) (advances : Advances c γ.cluster σ') {hung : List Nat}
    (old : ∀ put ∈ puts, put ∈ γ.puts) :
    Logged c { cluster := σ', hung := hung, puts := puts } := by
  obtain ⟨log, commit⟩ := advances.extended
  refine ⟨advances.config.trans logged.config, advances.inv, advances.volatile, advances.hands, advances.entries,
    advances.short, fun put inside => logged.fits put (old put inside), fun put inside index term retry phase => ?_,
    fun put inside index term phase => ?_⟩
  · exact (logged.waits put (old put inside) index term retry phase).grown log
  · obtain ⟨has, committed⟩ := logged.done put (old put inside) index term phase
    exact ⟨has.grown log, committed.trans commit⟩

theorem Logged.only (logged : Logged c γ) : γ.cluster.preferred.config.hasRsm = false ∧
    γ.cluster.preferred.config.hasBridge = true := by
  rw [Cluster.preferred, logged.inv.config, logged.config]
  exact ⟨rfl, rfl⟩

theorem Logged.step_advances (logged : Logged c γ) (alive : l.isRestart = false)
    (other : ∀ i command, l ≠ .propose i command) (step : γ.cluster.step l = some σ') : Advances c γ.cluster σ' := by
  have moves := logged.inv.step_moves alive step
  have happens := Cluster.step_happens logged.inv.outbox step
  obtain ⟨hands, extended⟩ := logged.inv.preferred_moves moves logged.only logged.hands
  have lm := logged.inv.lm_of_step alive other step
  exact ⟨happens.config_eq, logged.inv.moves moves, happens.volatile logged.volatile, hands, lm ▸ logged.entries,
    lm ▸ logged.short, extended⟩

theorem Logged.raftStep (logged : Logged c γ) (allowed : γ.steady (.raft l)) (step : γ.raftStep l = some γ') :
    Logged c γ' ∧ Extends γ.cluster γ'.cluster := by
  obtain ⟨σ', runs, steps, rfl⟩ := of_raftStep step
  have alive : l.isRestart = false := by
    cases l with
    | restart => cases runs
    | _ => rfl
  have advances := logged.step_advances alive (fun i command same => by subst same; exact allowed) steps
  exact ⟨logged.advances advances fun _ inside => inside, advances.extended⟩

theorem Logged.restart (logged : Logged c γ) {junk : Uninitialised}
    (allowed : γ.steady (.restart server junk)) (step : γ.restart server junk = some γ') :
    Logged c γ' ∧ Extends γ.cluster γ'.cluster := by
  obtain ⟨σ', steps, rfl⟩ := Option.map_eq_some_iff.mp step
  obtain ⟨inv, same⟩ := logged.inv.restart_other allowed (logged.volatile server) steps
  have happens := Cluster.step_happens logged.inv.outbox steps
  have extended : Extends γ.cluster σ' := by
    unfold Extends
    rw [same]
    exact Extends.refl γ.cluster
  refine ⟨logged.advances ⟨happens.config_eq, inv, happens.volatile logged.volatile, ?_, ?_, ?_, extended⟩
    fun _ inside => List.mem_of_mem_filter inside, extended⟩
  all_goals rw [same]
  · exact logged.hands
  · exact logged.entries
  · exact logged.short

/-- Nothing is recovered, so nobody is asked for fragments. -/
theorem Logged.no_answer (logged : Logged c γ) : γ.answer n = none := by
  unfold PutGroup.answer
  split
  · rfl
  · rename_i p found
    have ok := logged.inv.packets p (List.mem_of_getElem? found)
    cases msg : p.msg with
    | requestFragmentsReply reply => simp [RaftState.PacketOk, msg] at ok
    | _ => simp [Message.isFragmentsAnswer]

theorem Logged.calls (logged : Logged c γ) (kept : ∀ put ∈ puts, put ∈ γ.puts ∨ put.cmd.Fits ∧
      (∀ index term retry, put.phase = .waiting index term retry → HasEntry c γ.cluster put index term) ∧
      ∀ index term, put.phase = .returned .kOk index term →
        HasEntry c γ.cluster put index term ∧ index ≤ γ.cluster.preferred.commitIndex) :
    Logged c { γ with puts := puts } := by
  refine ⟨logged.config, logged.inv, logged.volatile, logged.hands, logged.entries, logged.short, fun put inside => ?_,
    fun put inside => ?_, fun put inside => ?_⟩
  · exact (kept put inside).elim (logged.fits put) fun new => new.1
  · exact (kept put inside).elim (logged.waits put) fun new => new.2.1
  · exact (kept put inside).elim (logged.done put) fun new => new.2.2

theorem Logged.startPut (logged : Logged c γ) {key value : Slice}
    (allowed : γ.steady (.startPut server key value)) (step : γ.startPut server key value = some γ') :
    Logged c γ' ∧ Extends γ.cluster γ'.cluster := by
  unfold PutGroup.startPut at step
  split at step <;> cases step
  refine ⟨logged.calls fun put inside => ?_, .refl _⟩
  rcases List.mem_append.mp inside with old | new
  · exact Or.inl old
  · obtain ⟨keyFilled, valueFilled, keySize, valueSize⟩ := allowed
    rw [List.mem_singleton.mp new]
    refine Or.inr ⟨⟨keyFilled, valueFilled, keySize, valueSize⟩, fun index term retry phase => ?_,
      fun index term phase => ?_⟩
    · split at phase <;> cases phase
    · split at phase <;> cases phase

theorem Logged.pollPut (logged : Logged c γ) (step : γ.pollPut n = some γ') :
    Logged c γ' ∧ Extends γ.cluster γ'.cluster := by
  unfold PutGroup.pollPut at step
  split at step
  · rename_i server cmd index term retry found
    have inside := List.mem_of_getElem? found
    have fits : cmd.Fits := logged.fits _ inside
    have has := logged.waits _ inside index term retry rfl
    have server : server = γ.cluster.config.groupId := by
      rw [logged.config]
      exact has.server
    split at step <;> cases step
    refine ⟨logged.calls fun put member => (List.mem_or_eq_of_mem_set member).imp_right ?_, .refl _⟩
    rintro rfl
    refine ⟨fits, fun index' term' retry' phase => ?_, fun index' term' phase => ?_⟩
    · split at phase
      · cases phase
      · split at phase <;> cases phase
        exact ⟨has.server, has.entry⟩
    · split at phase
      · cases phase
      · split at phase
        · rename_i committed
          cases phase
          rw [server] at committed
          exact ⟨⟨has.server, has.entry⟩, committed⟩
        · cases phase
  · cases step

theorem Logged.lm_of_stepPropose (logged : Logged c γ) (fits : cmd.Fits)
    (step : γ.cluster.stepPropose server cmd.commandData = some σ') :
    (((γ.cluster.servers server).propose cmd.commandData).2.isLeader = false ∧
      σ'.preferred.lm = γ.cluster.preferred.lm) ∨
    server = γ.cluster.config.groupId ∧ ((γ.cluster.servers server).propose cmd.commandData).2 =
        { proposeIndex := γ.cluster.preferred.lm.entries.length + 1, proposeTerm := γ.cluster.preferred.currentTerm,
          isLeader := true } ∧
      σ'.preferred.lm = γ.cluster.preferred.lm.appendLogEntry (c.stripeEntry cmd γ.cluster.preferred.currentTerm
        (γ.cluster.preferred.lm.entries.length + 1)) := by
  unfold Cluster.stepPropose at step
  split at step
  swap
  · cases step
  rcases propose_spec (γ.cluster.servers server) cmd.commandData with ⟨refused, unchanged⟩ | ⟨_, leads, _⟩
  · simp only [refused, Bool.false_eq_true, if_false, Option.some.injEq] at step
    subst step
    refine Or.inl ⟨refused, Cluster.preferred_after_lm fun own => ?_⟩
    rw [own] at unchanged ⊢
    rcases unchanged with same | stopped
    · rw [same]
      rfl
    · rw [stopped]
      rfl
  · have own : server = γ.cluster.config.groupId := logged.inv.leader_eq leads
    have config : (γ.cluster.servers server).config = c.clusterConfig.serverConfig c.groupId := by
      rw [logged.inv.config, own, logged.config]
      rfl
    have last := logged.inv.preferred.indexed.lastLogEntryIndex_eq
    have here : γ.cluster.servers server = γ.cluster.preferred := by rw [own, Cluster.preferred]
    rw [here] at config leads step ⊢
    have proposes := c.propose_eq fits config leads
    rw [last] at proposes
    rw [proposes] at step ⊢
    subst own
    cases step
    simp [Cluster.preferred, Cluster.run, Cluster.record, flush]

theorem Logged.stepPropose (logged : Logged c γ) (fits : cmd.Fits)
    (room : γ.cluster.preferred.lm.entries.length + 1 < UInt32.size)
    (step : γ.cluster.stepPropose server cmd.commandData = some σ') : Advances c γ.cluster σ' ∧
      ∀ phase, ((γ.cluster.servers server).propose cmd.commandData).2.isLeader = true →
        HasEntry c σ' { server := server, cmd := cmd, phase := phase }
          ((γ.cluster.servers server).propose cmd.commandData).2.proposeIndex
          ((γ.cluster.servers server).propose cmd.commandData).2.proposeTerm := by
  have moves : Cluster.Moves γ.cluster none σ' := logged.inv.step_moves (l := .propose server cmd.commandData) rfl step
  have happens := Cluster.step_happens logged.inv.outbox (l := .propose server cmd.commandData) step
  obtain ⟨hands, extended⟩ := logged.inv.preferred_moves moves logged.only logged.hands
  have rest : ∀ entries short, Advances c γ.cluster σ' := fun entries short =>
    ⟨happens.config_eq, logged.inv.moves moves, happens.volatile logged.volatile, hands, entries, short, extended⟩
  rcases logged.lm_of_stepPropose fits step with ⟨refused, same⟩ | ⟨own, result, lm⟩
  · refine ⟨rest (same ▸ logged.entries) (same ▸ logged.short), fun _ accepted => ?_⟩
    cases refused.symm.trans accepted
  · refine ⟨rest (fun j e at_j => ?_) ?_, fun phase _ => ?_⟩
    · rw [lm] at at_j
      rcases LogManager.appendLogEntry_getElem? at_j with old | ⟨rfl, rfl⟩
      · exact logged.entries j e old
      · exact ⟨cmd, _, fits, rfl⟩
    · rw [lm]
      simpa [LogManager.appendLogEntry] using room
    · rw [result]
      refine ⟨?_, γ.cluster.preferred.lm.entries.length, rfl, ?_⟩
      · rw [own, logged.config]
        rfl
      · rw [lm]
        simp [LogManager.appendLogEntry]

theorem Logged.proposePut (logged : Logged c γ) (allowed : γ.steady (.proposePut n))
    (step : γ.proposePut n = some γ') : Logged c γ' ∧ Extends γ.cluster γ'.cluster := by
  unfold PutGroup.proposePut at step
  split at step
  · rename_i server cmd found
    have inside := List.mem_of_getElem? found
    obtain ⟨γ₁, proposes, rfl⟩ := Option.map_eq_some_iff.mp step
    obtain ⟨σ', _, proposed, rfl⟩ := of_raftStep proposes
    have fits : cmd.Fits := logged.fits _ inside
    obtain ⟨advances, has⟩ := logged.stepPropose fits allowed proposed
    have kept : Logged c { γ with cluster := σ' } := logged.advances advances fun put inside => inside
    refine ⟨kept.calls fun put member => (List.mem_or_eq_of_mem_set member).imp_right ?_, advances.extended⟩
    rintro rfl
    refine ⟨fits, fun index term retry phase => ?_, fun index term phase => ?_⟩
    · split at phase <;> cases phase
      exact has _ ‹_›
    · split at phase <;> cases phase
  · cases step

theorem Logged.step (logged : Logged c γ) {l : PutLabel} (allowed : γ.steady l) (step : γ.step l = some γ') :
    Logged c γ' ∧ Extends γ.cluster γ'.cluster := by
  cases l with
  | raft l => exact logged.raftStep allowed step
  | answer n => cases logged.no_answer.symm.trans step
  | restart server junk => exact logged.restart allowed step
  | startPut server key value => exact logged.startPut allowed step
  | proposePut n => exact logged.proposePut allowed step
  | pollPut n => exact logged.pollPut step

theorem logged_init (c : StripeConfig) (junk : Nat → Uninitialised) : Logged c (init c.clusterConfig junk) := by
  have fresh : (Cluster.init c.clusterConfig junk).preferred.lm.entries = [] := rfl
  refine ⟨rfl, Cluster.inv_init _ junk, fun _ => rfl, ⟨rfl, le_rfl⟩, fun j e at_j => ?_,
    show 0 < UInt32.size by decide, nofun, nofun, nofun⟩
  rw [init, fresh] at at_j
  simp at at_j

end Logged

end PutGroup

end FlexRaft
