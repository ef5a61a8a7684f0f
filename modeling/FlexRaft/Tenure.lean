import FlexRaft.CommitCounting
import FlexRaft.Lockout
import FlexRaft.LogMatching

namespace FlexRaft

namespace RaftState

variable {s s' s'' : RaftState}

/-- How the ballot of a server may change: terms do not go back, and a vote stands until its term is over. -/
structure BallotLe (s s' : RaftState) : Prop where
  term : s.currentTerm ≤ s'.currentTerm
  vote : s'.currentTerm = s.currentTerm → s.voteFor ≠ kNotVoted → s'.voteFor = s.voteFor

theorem BallotLe.of_header (same : s'.header = s.header) : BallotLe s s' :=
  ⟨(congrArg PersistRaftState.persistedTerm same).ge, fun _ _ => congrArg PersistRaftState.persistedVoteFor same⟩

theorem BallotLe.trans (first : BallotLe s s') (second : BallotLe s' s'') : BallotLe s s'' := by
  refine ⟨first.term.trans second.term, fun same voted => ?_⟩
  have between : s'.currentTerm = s.currentTerm := le_antisymm (same ▸ second.term) first.term
  have kept := first.vote between voted
  rw [← kept] at voted ⊢
  exact second.vote (same.trans between.symm) voted

theorem Turn.ballot_le {taken : Option Packet} (turn : Turn s taken s') : BallotLe s s' := by
  cases turn with
  | stays same => exact .of_header same.header
  | follows _ _ cause =>
    rcases cause with ⟨_, kept⟩ | ⟨newer, _⟩
    · exact .of_header kept
    · exact ⟨newer.le, fun same => absurd same newer.ne'⟩
  | grants _ _ _ term later vote free =>
    refine ⟨later.trans term.ge, fun same voted => ?_⟩
    exact vote.trans ((free (same.symm.trans term)).resolve_left voted).symm
  | stands _ _ _ term => exact ⟨by omega, fun same => by omega⟩
  | counts _ _ _ _ _ _ ballot => exact .of_header ballot

end RaftState

namespace Cluster

open RaftState

variable {σ σ' : Cluster} {l : Label} {i n : Nat} {e : LogEntry} {c : ClusterConfig} {junk : Nat → Uninitialised}

theorem Anchored.deed_ballot {s : RaftState} (inv : σ.Anchored) (survives : headerSurvives σ l) (deed : Deed σ l i s) :
    BallotLe (σ.servers i) s := by
  cases deed with
  | turn turn => exact turn.ballot_le
  | sends asking => exact .of_header (SameBallot.of_core asking.core).header
  | @restarts lm junk label fresh =>
    subst label fresh
    exact .of_header (inv.restart_header survives lm junk)

theorem Anchored.happens (inv : σ.Anchored) (survives : headerSurvives σ l) (happens : Happens σ l σ') :
    σ'.Anchored ∧ ∀ i, BallotLe (σ.servers i) (σ'.servers i) := by
  obtain ⟨member, deed, left, calls, leaders⟩ := happens
  obtain ⟨config, saves⟩ := inv.deed survives deed
  have ballot := inv.deed_ballot survives deed
  exact ⟨inv.after config saves _ _ _,
    forall_after (P := fun i s => BallotLe (σ.servers i) s) ⟨ballot.term, ballot.vote⟩ fun _ _ => .of_header rfl⟩

/-- A server goes back behind no term, and within a term it stands by its vote, however often it crashes. -/
theorem votes_stand (reach : Reach headerSurvives (init c junk) σ) (later : Reach headerSurvives σ σ') (i : Nat) :
    (σ.servers i).currentTerm ≤ (σ'.servers i).currentTerm ∧
      ((σ'.servers i).currentTerm = (σ.servers i).currentTerm → (σ.servers i).voteFor ≠ kNotVoted →
        (σ'.servers i).voteFor = (σ.servers i).voteFor) := by
  have anchored : σ.Anchored := reach.holds (P := Anchored) (anchored_init c junk)
    fun _ _ _ inv survives step => (inv.happens survives (step_happens inv.outbox step)).1
  obtain ⟨-, ballot⟩ := later.holds (P := fun τ => τ.Anchored ∧ BallotLe (σ.servers i) (τ.servers i))
    ⟨anchored, .of_header rfl⟩ fun _ _ _ ⟨inv, before⟩ survives step =>
      have next := inv.happens survives (step_happens inv.outbox step)
      ⟨next.1, before.trans (next.2 i)⟩
  exact ⟨ballot.term, ballot.vote⟩

/-- Server 0 has been elected with the votes of the others. -/
def zeroLeads : Cluster := (exec headerSurvives (init (.threeServers 0) .zero) electZero).get (by decide +kernel)

theorem zeroLeads_reached : Reach headerSurvives (init (.threeServers 0) .zero) zeroLeads := .of_get _

/-- Server 1 has come back, without a log. -/
def oneRestarted : Cluster := (zeroLeads.step (.restart 1 {} (.zero 1))).get (by decide +kernel)

theorem oneRestarted_next : headerSurvives zeroLeads (.restart 1 {} (.zero 1)) ∧
    zeroLeads.step (.restart 1 {} (.zero 1)) = some oneRestarted :=
  ⟨by decide +kernel, (Option.some_get _).symm⟩

theorem votes_stand_oneRestarted : (zeroLeads.servers 1).voteFor = 0 ∧
    (oneRestarted.servers 1).voteFor = (zeroLeads.servers 1).voteFor :=
  ⟨by decide +kernel, (votes_stand zeroLeads_reached (.next .refl oneRestarted_next.1 oneRestarted_next.2) 1).2
    (by decide +kernel) (by decide +kernel)⟩

/-- Steps of a run in which server `i` does not restart. -/
def staysUp (i : Nat) (σ : Cluster) (l : Label) : Prop := headerSurvives σ l ∧ ∀ lm junk, l ≠ .restart i lm junk

theorem Solo.tenure (inv : σ.Solo) (survives : headerSurvives σ l) (happens : Happens σ l σ')
    (leads : σ.preferred.role = .kLeader) (leads' : σ'.preferred.role = .kLeader) :
    σ'.preferred.currentTerm = σ.preferred.currentTerm := by
  obtain ⟨member, deed, left, calls, leaders⟩ := happens
  rename_i i s events net pending
  by_cases same : i = σ.config.groupId
  · rw [preferred_after_self same] at leads' ⊢
    exact (inv.deed survives left.received deed).tenure same leads leads'
  · rw [preferred_after_other same]

/-- No leader is ever deposed: until it restarts it leads, in one term, and all others follow it. -/
theorem leader_keeps_office (reach : Reach headerSurvives (init c junk) σ) (leads : (σ.servers i).role = .kLeader)
    (later : Reach (staysUp i) σ σ') :
    (σ'.servers i).role = .kLeader ∧ (σ'.servers i).currentTerm = (σ.servers i).currentTerm ∧
      ∀ j ≠ i, (σ'.servers j).role = .kFollower ∧ (σ'.servers j).currentTerm ≤ (σ.servers i).currentTerm := by
  obtain ⟨inv, -⟩ := Reach.solo reach (solo_init c junk)
  obtain rfl := inv.elected_eq (Or.inr leads)
  obtain ⟨inv', config, leads', term⟩ := later.holds (P := fun τ => τ.Solo ∧ τ.config = σ.config ∧
    τ.preferred.role = .kLeader ∧ τ.preferred.currentTerm = σ.preferred.currentTerm) ⟨inv, rfl, leads, rfl⟩ <| by
      rintro τ l τ' ⟨inv, config, leads, term⟩ ⟨survives, alive⟩ step
      have happens := step_happens inv.outbox step
      have leads' := inv.leads_happens happens (config ▸ alive) leads
      exact ⟨inv.happens survives happens, happens.config_eq.trans config, leads',
        (inv.tenure survives happens leads leads').trans term⟩
  rw [preferred, config] at leads' term
  refine ⟨leads', term, fun j other => ?_⟩
  obtain ⟨follower, -, le⟩ := inv'.followers j (config ▸ other)
  rw [preferred, config] at le
  exact ⟨follower, le.trans term.le⟩

theorem leader_keeps_office_oneRestarted : (zeroLeads.servers 0).role = .kLeader ∧
    (oneRestarted.servers 0).role = .kLeader ∧ (oneRestarted.servers 0).currentTerm = (zeroLeads.servers 0).currentTerm := by
  have leads : (zeroLeads.servers 0).role = .kLeader := by decide +kernel
  obtain ⟨leads', term, -⟩ := leader_keeps_office zeroLeads_reached leads
    (.next .refl ⟨oneRestarted_next.1, by simp⟩ oneRestarted_next.2)
  exact ⟨leads, leads', term⟩

/-- Without restarts no log loses an entry. The leader's entries stay as they are, a follower's may be replaced by
fragments of the same term with a smaller `k`. -/
theorem entries_stay (reach : Reach noRestart (init c junk) σ) (later : Reach noRestart σ σ')
    (found : (σ.servers i).lm.getSingleLogEntry n = some e) :
    ∃ e', (σ'.servers i).lm.getSingleLogEntry n = some e' ∧ e'.term = e.term ∧ e'.chunkInfo.k ≤ e.chunkInfo.k ∧
      (i = σ.config.groupId → e' = e) := by
  have inv := reach.inv (fun _ _ allowed => allowed) (inv_init c junk)
  have inv' := later.inv (fun _ _ allowed => allowed) inv
  obtain ⟨low, at_n⟩ := (inv.indexed i).getSingleLogEntry_eq_some.mp found
  obtain ⟨leads, -, term⟩ := inv.entry at_n
  obtain ⟨-, grows⟩ := (later.evolves inv).leader leads
  -- every entry of the run has the term of the one leader
  have same_term {e' : LogEntry} (found' : (σ'.servers i).lm.getSingleLogEntry n = some e') : e'.term = e.term := by
    obtain ⟨-, at_n'⟩ := (inv'.indexed i).getSingleLogEntry_eq_some.mp found'
    exact (inv'.entry at_n').2.2.trans (grows.term.trans term.symm)
  obtain ⟨config, stored⟩ := later.invariant (P := fun τ => τ.config = σ.config ∧ (i ≠ σ.config.groupId →
      ∃ e', (τ.servers i).lm.getSingleLogEntry n = some e' ∧ e'.chunkInfo.k ≤ e.chunkInfo.k))
    (fun _ _ allowed => allowed) inv ⟨rfl, fun _ => ⟨e, found, le_rfl⟩⟩ <| by
      intro τ l τ' here _ moves ⟨config, stored⟩
      have config' : τ'.config = τ.config := by
        obtain ⟨_, _, _, _⟩ := moves
        rfl
      refine ⟨config'.trans config, fun other => ?_⟩
      obtain ⟨e', found', le⟩ := stored other
      obtain ⟨e'', found'', le'⟩ := moves.stored_le here (config ▸ other) found'
      exact ⟨e'', found'', le'.trans le⟩
  by_cases same : i = σ.config.groupId
  · subst same
    have kept := grows.log n e found
    rw [preferred, config] at kept
    exact ⟨e, kept, rfl, le_rfl, fun _ => rfl⟩
  · obtain ⟨e', found', le⟩ := stored same
    exact ⟨e', found', same_term found', le, fun leader => absurd leader same⟩

def oneStored : Cluster := (exec noRestart (init (.threeServers 0) .zero) firstEntryCommitted).get (by decide +kernel)

theorem entries_stay_firstFragment : ∃ σ σ' e', Reach noRestart (init (.threeServers 0) .zero) σ ∧
    Reach noRestart σ σ' ∧ (σ.servers 1).lm.getSingleLogEntry 1 = some firstFragment ∧
    (σ'.servers 1).lm.getSingleLogEntry 1 = some e' ∧ e'.term = 1 := by
  have first : Reach noRestart (init (.threeServers 0) .zero) oneStored := .of_get _
  have later : Reach noRestart oneStored ((exec noRestart oneStored [.propose 0 ⟨0, [3]⟩]).get (by decide +kernel)) :=
    .of_get _
  have found : (oneStored.servers 1).lm.getSingleLogEntry 1 = some firstFragment := by decide +kernel
  obtain ⟨e', found', term, -⟩ := entries_stay first later found
  exact ⟨_, _, e', first, later, found, found', term⟩

end Cluster

end FlexRaft
