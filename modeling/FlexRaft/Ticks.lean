import FlexRaft.Runs
import FlexRaft.Turns

namespace FlexRaft

namespace RaftState

/-- A server that only ticks; `timers n` is what its timers say at tick `n`. -/
def ticks (timers : Nat → Timers) : Nat → RaftState → RaftState
  | 0, s => s
  | n + 1, s => (ticks timers n s).tick (timers n)

section Ticks

variable {s : RaftState}

/-- A server that stands for election is a candidate, or has won by its own vote alone. -/
theorem convertToCandidate_role (s : RaftState) : s.convertToCandidate.role ≠ .kFollower := by
  obtain ⟨u, _, candidate, _, _, won | asks⟩ := startElection_spec
    (s := { s with role := .kCandidate, electionRound := s.electionRound + 1 }) rfl
  · have elected : u.convertToPreLeader.isElected := (Presides.convertToPreLeader u).isElected_of (.inl rfl)
    change RaftState.role (startElection _) ≠ _
    rw [won]
    rcases elected with role | role
    · rw [role]
      exact nofun
    · rw [role]
      exact nofun
  · obtain ⟨out, sent, _⟩ := requestVotes_spec u
    change RaftState.role (startElection _) ≠ _
    rw [asks, sent]
    change u.role ≠ _
    rw [candidate]
    exact nofun

/-- An expired timer means nothing to a follower that is not eligible: the round stays what it is. -/
theorem ticks_ineligible (follower : s.role = .kFollower) (barred : s.isEligibleForElection = false)
    (timers : Nat → Timers) (n : Nat) : s.ticks timers n = s := by
  induction n with
  | zero => rfl
  | succ n ih =>
    rw [ticks, ih, tick, follower]
    dsimp only
    unfold tickOnFollower
    rw [barred]
    split
    · rfl
    · rfl

theorem tick_eligible {timers : Timers} (follower : s.role = .kFollower) (eligible : s.isEligibleForElection = true)
    (expired : timers.electionExpired = true) : s.tick timers = s.convertToCandidate := by
  rw [tick, follower]
  dsimp only
  unfold tickOnFollower
  rw [expired, eligible]
  rfl

/-- Until it has stood for election twice only the preferred server is eligible. -/
theorem isEligible_iff (round : s.electionRound ≤ 1) : s.isEligibleForElection = true ↔ s.id = s.config.groupId := by
  constructor
  · intro eligible
    by_contra other
    rw [Cluster.isEligible_other other round] at eligible
    cases eligible
  · exact Cluster.isEligible_preferred

end Ticks

/-- A follower that hears nothing and whose election timer has always expired stands for election, at once or never:
at once if it is eligible, which a server in one of its first two rounds is exactly if it is the preferred one. -/
theorem becomes_candidate_iff (s : RaftState) (timers : Nat → Timers) (bound : Nat) (follower : s.role = .kFollower)
    (expired : ∀ n, (timers n).electionExpired = true) (positive : 1 ≤ bound) :
    ((∃ n ≤ bound, (s.ticks timers n).role ≠ .kFollower) ↔ s.isEligibleForElection = true) ∧
    (s.electionRound ≤ 1 →
      ((∃ n ≤ bound, (s.ticks timers n).role ≠ .kFollower) ↔ s.id = s.config.groupId)) := by
  have stands : (∃ n ≤ bound, (s.ticks timers n).role ≠ .kFollower) ↔ s.isEligibleForElection = true := by
    constructor
    · rintro ⟨n, _, role⟩
      by_contra barred
      rw [ticks_ineligible follower (Bool.eq_false_iff.mpr barred)] at role
      exact role follower
    · intro eligible
      refine ⟨1, positive, ?_⟩
      rw [ticks, ticks, tick_eligible follower eligible (expired 0)]
      exact convertToCandidate_role s
  exact ⟨stands, fun round => stands.trans (isEligible_iff round)⟩

/-- A server of three as it has been started. -/
def startedServer (i : Nat) : RaftState :=
  newRaftState ((ClusterConfig.threeServers 0).serverConfig i) ((ClusterConfig.threeServers 0).initialStorage i) {}
    (Uninitialised.zero i)

theorem becomes_candidate_iff_startedServer :
    (∃ n ≤ 10, ((startedServer 0).ticks (fun _ => { electionExpired := true }) n).role ≠ .kFollower) ↔
      (startedServer 0).id = (startedServer 0).config.groupId :=
  (becomes_candidate_iff (startedServer 0) (fun _ => { electionExpired := true }) 10 (by decide +kernel)
    (fun _ => rfl) (by decide)).2 (by decide +kernel)

/-- Server 1 of three never stands for election: no number of ticks is enough. -/
theorem never_candidate : (startedServer 1).role = .kFollower ∧
    ∀ n, ((startedServer 1).ticks (fun _ => { electionExpired := true }) n).role = .kFollower := by
  have follower : (startedServer 1).role = .kFollower := by decide +kernel
  refine ⟨follower, fun n => ?_⟩
  rw [ticks_ineligible follower (by decide +kernel)]
  exact follower

end RaftState

end FlexRaft
