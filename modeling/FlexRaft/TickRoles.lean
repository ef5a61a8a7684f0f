import FlexRaft.LogChanges
import FlexRaft.StateLock
import FlexRaft.Deeds

namespace FlexRaft

def Message.isRequestFragments : Message → Bool
  | .requestFragments _ => true
  | _ => false

namespace RaftState

section Body

/-- The body of a `Tick` that has read `read` before it took the lock. -/
def tickBody (s : RaftState) (read : RaftRole) (timers : Timers) : RaftState := (Call.tick read timers).effect 0 s

/-- The server as it is when the body calls `startElection`, if it does. -/
def electionStart (s : RaftState) (read : RaftRole) (timers : Timers) : Option RaftState :=
  if timers.electionExpired && s.isEligibleForElection then
    match read with
    | .kFollower => some { s with role := .kCandidate, electionRound := s.electionRound + 1 }
    | .kCandidate => some s
    | .kPreLeader | .kLeader => none
  else none

/-- `PreLeaderBecomeLeader` finds enough answers. -/
def hasCollected (s : RaftState) : Bool := decide (s.livenessLevel + 1 ≤ s.preleaderStripeStore.collectedFragmentsCnt)

/-- The body does not get to `startElection` as anything but a candidate, nor to the collected stripes or to
`collectFragments` as anything but a pre-leader: not because the role has changed since it was read, and not because
the server has just become the leader in this body. -/
def InRole (s : RaftState) (read : RaftRole) (timers : Timers) : Prop :=
  match read with
  | .kFollower | .kLeader => True
  | .kCandidate => timers.electionExpired = true → s.isEligibleForElection = true → s.role = .kCandidate
  | .kPreLeader => (s.hasCollected = true → s.preleaderStripeStore.stripes ≠ [] → s.role = .kPreLeader) ∧
      (timers.collectDue = true → s.peers ≠ [] → s.role = .kPreLeader ∧ s.hasCollected = false)

instance (s : RaftState) (timers : Timers) : (read : RaftRole) → Decidable (s.InRole read timers)
  | .kFollower | .kLeader => isTrue trivial
  | .kCandidate => inferInstanceAs (Decidable (timers.electionExpired = true → s.isEligibleForElection = true → s.role = .kCandidate))
  | .kPreLeader => inferInstanceAs (Decidable
      ((s.hasCollected = true → s.preleaderStripeStore.stripes ≠ [] → s.role = .kPreLeader) ∧
        (timers.collectDue = true → s.peers ≠ [] → s.role = .kPreLeader ∧ s.hasCollected = false)))

variable {s t : RaftState} {read : RaftRole} {timers : Timers} {p : Packet}

/-- An election is started in that state, and in no other way. -/
theorem tickBody_of_electionStart (start : s.electionStart read timers = some t) :
    s.tickBody read timers = t.startElection := by
  unfold electionStart at start
  split at start
  · rename_i due
    obtain ⟨expired, eligible⟩ := Bool.and_eq_true_iff.mp due
    cases read with
    | kFollower =>
      cases start
      change s.tickOnFollower timers = _
      unfold tickOnFollower
      rw [expired, eligible]
      rfl
    | kCandidate =>
      cases start
      change s.tickOnCandidate timers = _
      unfold tickOnCandidate
      rw [expired, eligible]
      rfl
    | kPreLeader => cases start
    | kLeader => cases start
  · cases start

/-- `collectFragments` opens its task and sends; a server without peers sends nothing. -/
theorem collectFragments_spec (s : RaftState) : ∃ store out stopped,
    s.collectFragments = { s with preleaderStripeStore := store, outbox := out, stopped := stopped } ∧
    (s.peers = [] → out = s.outbox) := by
  unfold collectFragments
  dsimp only
  split
  · exact ⟨_, s.outbox, true, rfl, fun _ => rfl⟩
  · obtain ⟨out, sent⟩ := forEach_requestFragments s.peers { s with preleaderStripeStore := _ }
    refine ⟨_, out, s.stopped, sent, fun alone => ?_⟩
    have same := congrArg RaftState.outbox sent
    rw [alone] at same
    exact same.symm

/-- The election changes nothing before it starts but the role and the round. -/
theorem electionStart_keeps (start : s.electionStart read timers = some t) :
    t.lm = s.lm ∧ t.outbox = s.outbox ∧ t.stopped = s.stopped := by
  unfold electionStart at start
  split at start
  · cases read <;> cases start <;> exact ⟨rfl, rfl, rfl⟩
  · cases start

/-- A tick that has read a role from before an election does nothing if it starts none. -/
theorem tickBody_idle (waits : read = .kFollower ∨ read = .kCandidate) (none : s.electionStart read timers = none) :
    (s.tickBody read timers).lm = s.lm ∧ (s.tickBody read timers).outbox = s.outbox ∧
      (s.tickBody read timers).currentTerm = s.currentTerm := by
  have due : (timers.electionExpired && s.isEligibleForElection) = false := by
    by_contra due
    unfold electionStart at none
    rw [if_pos (Bool.not_eq_false _ ▸ due)] at none
    rcases waits with rfl | rfl <;> cases none
  have resigned : (s.convertToFollower s.currentTerm).lm = s.lm ∧ (s.convertToFollower s.currentTerm).outbox = s.outbox ∧
      (s.convertToFollower s.currentTerm).currentTerm = s.currentTerm := by
    unfold convertToFollower
    rw [if_neg (Nat.lt_irrefl _)]
    dsimp only
    rw [if_neg (Nat.lt_irrefl _)]
    exact ⟨rfl, rfl, rfl⟩
  rcases waits with rfl | rfl
  · have idle : s.tickBody .kFollower timers = s := by
      change s.tickOnFollower timers = s
      unfold tickOnFollower
      cases expired : timers.electionExpired with
      | false => rfl
      | true =>
        rw [expired, Bool.true_and] at due
        rw [due]
        rfl
    rw [idle]
    exact ⟨rfl, rfl, rfl⟩
  · change (s.tickOnCandidate timers).lm = _ ∧ (s.tickOnCandidate timers).outbox = _ ∧
      (s.tickOnCandidate timers).currentTerm = _
    unfold tickOnCandidate
    cases expired : timers.electionExpired with
    | false => exact ⟨rfl, rfl, rfl⟩
    | true =>
      rw [expired, Bool.true_and] at due
      rw [due]
      exact resigned

/-- Nothing but an election changes the term. -/
theorem tickBody_term (running : s.stopped = false) (none : s.electionStart read timers = none) :
    (s.tickBody read timers).currentTerm = s.currentTerm := by
  cases read with
  | kFollower => exact (tickBody_idle (.inl rfl) none).2.2
  | kCandidate => exact (tickBody_idle (.inr rfl) none).2.2
  | kPreLeader =>
    have first : s.preLeaderBecomeLeader.currentTerm = s.currentTerm :=
      congrArg PersistRaftState.persistedTerm (Presides.preLeaderBecomeLeader s).same.header
    change (s.tickOnPreLeader timers).currentTerm = _
    unfold tickOnPreLeader andThen
    split
    · exact first
    · split
      · obtain ⟨_, _, _, collected, _⟩ := s.preLeaderBecomeLeader.collectFragments_spec
        dsimp only
        rw [collected]
        exact first
      · exact first
  | kLeader =>
    change RaftState.currentTerm (if s.role ≠ .kLeader then s else s.sendAsLeader timers) = _
    split
    · rfl
    · exact field_eq (Asking.sendAsLeader running timers).core (·.currentTerm)

/-- Before an election a tick leaves the log alone. -/
theorem tickBody_waits_lm (waits : read = .kFollower ∨ read = .kCandidate) : (s.tickBody read timers).lm = s.lm := by
  cases start : s.electionStart read timers with
  | none => exact (tickBody_idle waits start).1
  | some t => rw [tickBody_of_electionStart start, startElection_lm, (electionStart_keeps start).1]

/-- The log changes only where the collected stripes are decoded. -/
theorem tickBody_lm (running : s.stopped = false) (inRole : s.InRole read timers)
    (changed : (s.tickBody read timers).lm ≠ s.lm) : s.role = .kPreLeader := by
  cases read with
  | kFollower => exact absurd (tickBody_waits_lm (.inl rfl)) changed
  | kCandidate => exact absurd (tickBody_waits_lm (.inr rfl)) changed
  | kPreLeader =>
    have same : (s.tickBody .kPreLeader timers).lm = s.preLeaderBecomeLeader.lm := by
      change (s.tickOnPreLeader timers).lm = _
      unfold tickOnPreLeader andThen
      split
      · rfl
      · split
        · exact collectFragments_lm _
        · rfl
    rw [same, preLeaderBecomeLeader_lm] at changed
    split at changed
    · rename_i enough
      refine inRole.1 (decide_eq_true enough) fun none => changed ?_
      unfold decodeCollectedStripe
      rw [none]
      rfl
    · exact absurd rfl changed
  | kLeader =>
    refine absurd ?_ changed
    change RaftState.lm (if s.role ≠ .kLeader then s else s.sendAsLeader timers) = _
    split
    · rfl
    · exact field_eq (Asking.sendAsLeader running timers).core (·.lm)

theorem act_outbox_cases (s : RaftState) (a : SendAction) :
    ∀ p ∈ (s.act a).1.outbox, p ∈ s.outbox ∨ p.msg.isAppendEntries = true := by
  cases s.acts a with
  | silent _ outbox =>
    rw [outbox]
    exact fun _ => .inl
  | sends sent =>
    rw [sent]
    exact List.forall_mem_append.mpr ⟨fun _ => .inl, List.forall_mem_singleton.mpr (.inr rfl)⟩

theorem Performs.outbox_cases {todo : List SendAction} (performs : Performs s todo t)
    (member : p ∈ t.outbox) : p ∈ s.outbox ∨ p.msg.isAppendEntries = true := by
  induction performs with
  | done => exact .inl member
  | stopped _ => exact .inl member
  | next _ _ ih => exact (ih member).elim (act_outbox_cases _ _ p) .inr

theorem convertToLeaderInternal_outbox (running : s.stopped = false)
    (member : p ∈ s.convertToLeaderInternal.outbox) : p ∈ s.outbox ∨ p.msg.isAppendEntries = true := by
  unfold convertToLeaderInternal at member
  split at member
  · exact .inl member
  · exact (performs_broadcastHeartbeat
      (s := { s with role := .kLeader, electionRound := 0 }.resetNextIndexAndMatchIndex) running).outbox_cases member

theorem not_isRequestFragments (append : p.msg.isAppendEntries = true) : ¬ p.msg.isRequestFragments = true := by
  cases msg : p.msg with
  | appendEntries => exact nofun
  | _ =>
    rw [msg] at append
    cases append

theorem convertToPreLeader_requests (running : s.stopped = false)
    (member : p ∈ s.convertToPreLeader.outbox) (asks : p.msg.isRequestFragments = true) :
    p ∈ s.outbox ∨ s.convertToPreLeader.role = .kPreLeader := by
  unfold convertToPreLeader at member ⊢
  dsimp only at member ⊢
  split
  · rename_i complete
    rw [if_pos complete] at member
    rcases convertToLeaderInternal_outbox (s := { s with role := .kPreLeader }) running member with old | append
    · exact .inl old
    · exact absurd asks (not_isRequestFragments append)
  · obtain ⟨_, _, _, collected, _⟩ := collectFragments_spec { s with role := .kPreLeader }
    rw [collected]
    exact .inr rfl

theorem startElection_requests (running : s.stopped = false) (member : p ∈ s.startElection.outbox)
    (asks : p.msg.isRequestFragments = true) : p ∈ s.outbox ∨ s.startElection.role = .kPreLeader := by
  by_cases candidate : s.role = .kCandidate
  · rw [startElection_of_candidate candidate] at member ⊢
    split
    · rename_i alone
      rw [if_pos alone] at member
      exact convertToPreLeader_requests (s := s.standForElection) running member asks
    · rename_i others
      rw [if_neg others] at member
      obtain ⟨out, sent, votes⟩ := requestVotes_spec s.standForElection
      have sameLoop : forEach requestVote s.peers s.standForElection = { s.standForElection with outbox := out } := sent
      rw [sameLoop] at member
      rcases votes p member with old | ⟨_, _, _, vote, _⟩
      · exact .inl old
      · rw [vote] at asks
        cases asks
  · have stops : s.startElection = s.stop := if_pos candidate
    rw [stops] at member
    exact .inl member

theorem tickBody_waits_requests (waits : read = .kFollower ∨ read = .kCandidate) (running : s.stopped = false)
    (member : p ∈ (s.tickBody read timers).outbox) (asks : p.msg.isRequestFragments = true) :
    p ∈ s.outbox ∨ (s.tickBody read timers).role = .kPreLeader := by
  cases start : s.electionStart read timers with
  | none =>
    rw [(tickBody_idle waits start).2.1] at member
    exact .inl member
  | some t =>
    obtain ⟨_, outbox, stopped⟩ := electionStart_keeps start
    rw [tickBody_of_electionStart start] at member ⊢
    rw [← outbox]
    exact startElection_requests (stopped.trans running) member asks

theorem decodeStripes_outbox (stripes : List Stripe) (raftIndex : Nat) (s : RaftState) :
    (decodeStripes stripes raftIndex s).outbox = s.outbox := by
  induction stripes generalizing raftIndex s with
  | nil => rfl
  | cons stripe rest ih =>
    unfold decodeStripes
    split
    · exact ih (raftIndex + 1) s
    · split
      · rfl
      · rfl
      · exact ih (raftIndex + 1) _

theorem preLeaderBecomeLeader_outbox (member : p ∈ s.preLeaderBecomeLeader.outbox) : p ∈ s.outbox ∨ p.msg.isAppendEntries = true := by
  have decoding : s.decodeCollectedStripe.outbox = s.outbox := decodeStripes_outbox _ _ s
  unfold preLeaderBecomeLeader andThen at member
  split at member
  · split at member
    · exact .inl (decoding ▸ member)
    · rename_i goes
      rw [← decoding]
      exact convertToLeaderInternal_outbox (by simpa using goes) member
  · exact .inl member

/-- Fragments are asked for by a server that is a pre-leader when the body ends, and nothing after the sending
changes the role. -/
theorem tickBody_requests (running : s.stopped = false) (inRole : s.InRole read timers)
    (member : p ∈ (s.tickBody read timers).outbox) (asks : p.msg.isRequestFragments = true) :
    p ∈ s.outbox ∨ (s.tickBody read timers).role = .kPreLeader := by
  cases read with
  | kFollower => exact tickBody_waits_requests (.inl rfl) running member asks
  | kCandidate => exact tickBody_waits_requests (.inr rfl) running member asks
  | kPreLeader =>
    have first (member : p ∈ s.preLeaderBecomeLeader.outbox) : p ∈ s.outbox :=
      (preLeaderBecomeLeader_outbox member).resolve_right fun append => not_isRequestFragments append asks
    change p ∈ (s.tickOnPreLeader timers).outbox at member
    change p ∈ s.outbox ∨ (s.tickOnPreLeader timers).role = .kPreLeader
    unfold tickOnPreLeader andThen at member ⊢
    split
    · rename_i halted
      rw [if_pos halted] at member
      exact .inl (first member)
    · rename_i goes
      rw [if_neg goes] at member
      cases due : timers.collectDue with
      | false =>
        rw [due] at member
        exact .inl (first member)
      | true =>
        rw [due] at member
        obtain ⟨_, out, _, collected, alone⟩ := s.preLeaderBecomeLeader.collectFragments_spec
        dsimp only at member ⊢
        rw [if_pos rfl, collected] at member ⊢
        by_cases none : s.peers = []
        · have config := (Presides.preLeaderBecomeLeader s).same.config
          refine .inl (first ?_)
          rw [← alone (by rw [peers, config]; exact none)]
          exact member
        · -- the server has not collected enough, so it is still the pre-leader that it was
          obtain ⟨pre, few⟩ := inRole.2 due none
          have waits : s.preLeaderBecomeLeader = s := if_neg (of_decide_eq_false few)
          rw [waits]
          exact .inr pre
  | kLeader =>
    change p ∈ RaftState.outbox (if s.role ≠ .kLeader then s else s.sendAsLeader timers) at member
    split at member
    · exact .inl member
    · rcases (performs_sendAsLeader running timers).outbox_cases member with old | append
      · exact .inl old
      · exact absurd asks (not_isRequestFragments append)

end Body

end RaftState

/-- A group whose `Tick` calls read the role before they take the lock. `begun` holds those that have read it and
not run their bodies, with the server and the role. -/
structure SplitTicks where
  cluster : Cluster
  begun : List (Nat × RaftRole)

namespace SplitTicks

/-- A tick in its two steps, or any other step of the group. -/
inductive Label
  | read (server : Nat)
  | body (n : Nat) (timers : Timers)
  | other (l : FlexRaft.Label)

def start (c : ClusterConfig) (junk : Nat → RaftState.Uninitialised) : SplitTicks :=
  { cluster := Cluster.init c junk, begun := [] }

/-- The calls in progress on a server that restarts are gone. -/
def remaining (begun : List (Nat × RaftRole)) : FlexRaft.Label → List (Nat × RaftRole)
  | .restart server _ _ => begun.filter fun call => call.1 != server
  | _ => begun

def stepRead (σ : SplitTicks) (server : Nat) : Option SplitTicks :=
  if σ.cluster.isUp server then some { σ with begun := σ.begun ++ [(server, (σ.cluster.servers server).role)] }
  else none

def stepBody (σ : SplitTicks) (n : Nat) (timers : Timers) : Option SplitTicks :=
  match σ.begun[n]? with
  | none => none
  | some call =>
    if σ.cluster.isUp call.1 then
      some
        { cluster := σ.cluster.run call.1 ((σ.cluster.servers call.1).tickBody call.2 timers)
          begun := σ.begun.eraseIdx n }
    else none

def stepOther (σ : SplitTicks) (l : FlexRaft.Label) : Option SplitTicks :=
  if l matches .tick _ _ then none
  else (σ.cluster.step l).map fun cluster => { cluster := cluster, begun := remaining σ.begun l }

def step (σ : SplitTicks) : Label → Option SplitTicks
  | .read server => σ.stepRead server
  | .body n timers => σ.stepBody n timers
  | .other l => σ.stepOther l

/-- Bodies run in the role that they take for granted. -/
def inRole (σ : SplitTicks) : Label → Prop
  | .body n timers => ∀ call ∈ σ.begun[n]?, (σ.cluster.servers call.1).InRole call.2 timers
  | _ => True

instance (σ : SplitTicks) : (l : Label) → Decidable (σ.inRole l)
  | .body n timers => inferInstanceAs (Decidable (∀ call ∈ σ.begun[n]?, (σ.cluster.servers call.1).InRole call.2 timers))
  | .read _ | .other _ => isTrue trivial

section Steps

variable {σ σ' : SplitTicks}

theorem of_stepBody {n : Nat} {timers : Timers} (steps : σ.stepBody n timers = some σ') :
    ∃ call, σ.begun[n]? = some call ∧ σ.cluster.isUp call.1 = true ∧
      σ' = { cluster := σ.cluster.run call.1 ((σ.cluster.servers call.1).tickBody call.2 timers)
             begun := σ.begun.eraseIdx n } := by
  unfold stepBody at steps
  split at steps
  · cases steps
  · rename_i call found
    split at steps
    · cases steps
      exact ⟨call, found, ‹_›, rfl⟩
    · cases steps

/-- No server has anything left to send. -/
def Quiet (σ : SplitTicks) : Prop := ∀ i, (σ.cluster.servers i).outbox = []

theorem Quiet.step {l : Label} (quiet : σ.Quiet) (steps : σ.step l = some σ') : σ'.Quiet := by
  cases l with
  | read server =>
    change σ.stepRead server = some σ' at steps
    unfold stepRead at steps
    split at steps
    · cases steps
      exact quiet
    · cases steps
  | body n timers =>
    obtain ⟨call, _, _, rfl⟩ := of_stepBody steps
    intro i
    change RaftState.outbox (if i = call.1 then RaftState.flush _ else σ.cluster.servers i) = []
    split
    · rfl
    · exact quiet i
  | other l =>
    change σ.stepOther l = some σ' at steps
    unfold stepOther at steps
    split at steps
    · cases steps
    · obtain ⟨cluster, stepped, rfl⟩ := Option.map_eq_some_iff.mp steps
      obtain ⟨_, _, _, _, _⟩ := Cluster.step_happens quiet stepped
      exact Cluster.forall_after (P := fun _ u => u.outbox = []) rfl fun j _ => quiet j

theorem quiet_start (c : ClusterConfig) (junk : Nat → RaftState.Uninitialised) : (start c junk).Quiet := fun _ => rfl

end Steps

/-- In every run whose bodies find themselves in the role that they take for granted, the body of a tick starts
elections as a candidate only, and changes the log and asks for fragments as a pre-leader only. -/
theorem tick_acts_in_role {c : ClusterConfig} {junk : Nat → RaftState.Uninitialised} {σ σ' : SplitTicks} {n : Nat}
    {timers : Timers} (reach : Steps.Reach step inRole (start c junk) σ) (turn : σ.inRole (.body n timers))
    (steps : σ.step (.body n timers) = some σ') :
    ∃ i read, σ.begun[n]? = some (i, read) ∧
      (∀ t, (σ.cluster.servers i).electionStart read timers = some t →
        t.role = .kCandidate ∧ σ'.cluster.servers i = t.startElection.flush) ∧
      ((σ.cluster.servers i).electionStart read timers = none →
        (σ'.cluster.servers i).currentTerm = (σ.cluster.servers i).currentTerm) ∧
      ((σ'.cluster.servers i).lm ≠ (σ.cluster.servers i).lm → (σ.cluster.servers i).role = .kPreLeader) ∧
      ∀ p ∈ σ'.cluster.net, p.msg.isRequestFragments = true →
        p ∈ σ.cluster.net ∨ (σ'.cluster.servers i).role = .kPreLeader := by
  have quiet : σ.Quiet := reach.holds (quiet_start c junk) fun _ _ _ quiet _ steps => quiet.step steps
  obtain ⟨⟨i, read⟩, found, up, rfl⟩ := of_stepBody steps
  have running := Cluster.stopped_of_isUp up
  have inRole : (σ.cluster.servers i).InRole read timers := turn (i, read) found
  have server : ∀ s : RaftState, (σ.cluster.run i s).servers i = s.flush := fun s => if_pos rfl
  refine ⟨i, read, found, fun t start => ⟨?_, ?_⟩, fun none => ?_, fun changed => ?_, fun p member asks => ?_⟩
  · unfold RaftState.electionStart at start
    split at start
    · rename_i due
      obtain ⟨expired, eligible⟩ := Bool.and_eq_true_iff.mp due
      cases read with
      | kFollower =>
        cases start
        rfl
      | kCandidate =>
        cases start
        exact inRole expired eligible
      | kPreLeader => cases start
      | kLeader => cases start
    · cases start
  · dsimp only
    rw [server, RaftState.tickBody_of_electionStart start]
  · dsimp only
    rw [server]
    exact RaftState.tickBody_term running none
  · dsimp only at changed
    rw [server] at changed
    exact RaftState.tickBody_lm running inRole changed
  · dsimp only at member ⊢
    rw [server]
    rcases List.mem_append.mp member with old | sent
    · exact .inl old
    · rcases RaftState.tickBody_requests running inRole sent asks with left | pre
      · rw [quiet i] at left
        cases left
      · exact .inr pre

/-- Server 0 of three has read that it is a follower. -/
def followerRead : SplitTicks :=
  (Steps.exec step inRole (start (.threeServers 0) RaftState.Uninitialised.zero) [.read 0]).get (by decide +kernel)

theorem tick_acts_in_role_followerRead : ∃ i read, followerRead.begun[0]? = some (i, read) ∧
      ∀ t, (followerRead.cluster.servers i).electionStart read { electionExpired := true } = some t →
        t.role = .kCandidate := by
  have steps : (followerRead.step (.body 0 { electionExpired := true })).isSome := by decide +kernel
  obtain ⟨i, read, found, starts, _⟩ :=
    tick_acts_in_role (Steps.Reach.of_get _) (by decide +kernel) (Option.some_get steps).symm
  exact ⟨i, read, found, fun t start => (starts t start).1⟩

/-- The steps after which server 0 has read that it is a candidate and a vote has made it the leader. -/
def winsAfterRead : List Label :=
  [.read 0, .body 0 { electionExpired := true }, .other (.deliver 0 1), .other (.deliver 0 1), .read 0,
    .other (.deliver 0 1)]

/-- The steps after which it has proposed an entry and restarted. Elected again, it has read that it is a pre-leader
and an answer has made it the leader. -/
def takesOverAfterRead : List Label :=
  [.other (.propose 0 ⟨0, [1, 2]⟩),
    .other (.restart 0 { entries := [{ term := 1, index := 1, commandSize := 2, commandDataField := [1, 2] }] }
      (RaftState.Uninitialised.zero 0)),
    .read 0, .body 0 { electionExpired := true }, .other (.deliver 4 1), .other (.deliver 4 1), .read 0,
    .other (.deliver 4 1), .other (.deliver 5 1)]

def leaderOnceCandidate : SplitTicks :=
  (Steps.exec step (fun _ _ => True) (start (.threeServers 0) RaftState.Uninitialised.zero) winsAfterRead).get
    (by decide +kernel)

def leaderOncePreLeader : SplitTicks :=
  (Steps.exec step (fun _ _ => True) (start (.threeServers 0) RaftState.Uninitialised.zero)
    (winsAfterRead ++ takesOverAfterRead)).get (by decide +kernel)

/-- A leader calls `startElection`, which fails its assertion, and a leader asks for fragments. -/
theorem tick_acts_on_stale_role :
    (Steps.Reach step (fun _ _ => True) (start (.threeServers 0) RaftState.Uninitialised.zero) leaderOnceCandidate ∧
      leaderOnceCandidate.begun[0]? = some (0, .kCandidate) ∧
      ∃ t, (leaderOnceCandidate.cluster.servers 0).electionStart .kCandidate { electionExpired := true } = some t ∧
        t.role = .kLeader ∧ t.startElection.stopped = true) ∧
    Steps.Reach step (fun _ _ => True) (start (.threeServers 0) RaftState.Uninitialised.zero) leaderOncePreLeader ∧
      leaderOncePreLeader.begun[0]? = some (0, .kPreLeader) ∧ (leaderOncePreLeader.cluster.servers 0).role = .kLeader ∧
      ∃ σ' p, leaderOncePreLeader.step (.body 0 { collectDue := true }) = some σ' ∧ p ∈ σ'.cluster.net ∧
        p.msg.isRequestFragments = true ∧ p ∉ leaderOncePreLeader.cluster.net ∧
        (σ'.cluster.servers 0).role = .kLeader := by
  have starts : (leaderOnceCandidate.cluster.servers 0).electionStart .kCandidate { electionExpired := true } =
      some (leaderOnceCandidate.cluster.servers 0) := by
    unfold RaftState.electionStart
    rw [if_pos (by decide +kernel)]
  refine ⟨⟨Steps.Reach.of_get _, by decide +kernel, _, starts, by decide +kernel, by decide +kernel⟩,
    Steps.Reach.of_get _, by decide +kernel, by decide +kernel,
    (leaderOncePreLeader.step (.body 0 { collectDue := true })).get (by decide +kernel),
    { src := 0, dst := 1, msg := .requestFragments { term := 2, leaderId := 0, startIndex := 1, lastIndex := 1 } },
    (Option.some_get _).symm, by decide +kernel, rfl, by decide +kernel, by decide +kernel⟩

end SplitTicks

end FlexRaft
