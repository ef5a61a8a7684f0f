import FlexRaft.Lockout

namespace FlexRaft

/-- Code of a leader that has left the lock of its server, with what it still has to do. -/
structure SendThread where
  server : Nat
  todo : List SendAction

/-- The group when the sends of a leader outside of its lock are steps of their own. -/
structure Concurrent where
  cluster : Cluster
  threads : List SendThread

/-- As `Label`, with `resume` for the next action of a thread. -/
inductive ConcurrentLabel
  | tick (server : Nat) (timers : Timers)
  | propose (server : Nat) (command : CommandData)
  | replicate (n : Nat)
  | resume (n : Nat)
  | deliver (n : Nat) (now : Nat)
  | restart (server : Nat) (lm : LogManager) (junk : RaftState.Uninitialised)

namespace Concurrent

open Cluster RaftState

def init (c : ClusterConfig) (junk : Nat → Uninitialised) : Concurrent :=
  { cluster := Cluster.init c junk, threads := [] }

def withCluster (τ : Concurrent) (σ : Cluster) : Concurrent := { τ with cluster := σ }

/-- Under its lock a leader only looks at its timers; any other role does all of its work there. -/
def stepTick (τ : Concurrent) (id : Nat) (timers : Timers) : Option Concurrent :=
  if (τ.cluster.servers id).role = .kLeader then
    if τ.cluster.isUp id then
      some { τ with threads := τ.threads ++ [{ server := id, todo := (τ.cluster.servers id).tickActions timers }] }
    else none
  else (τ.cluster.stepTick id timers).map τ.withCluster

/-- A `Propose` call goes on to replicate its entry. -/
def stepReplicate (τ : Concurrent) (n : Nat) : Option Concurrent :=
  match τ.cluster.pending[n]? with
  | none => none
  | some call =>
    some
      { cluster := { τ.cluster with pending := τ.cluster.pending.eraseIdx n }
        threads := τ.threads ++ [{ server := call.server, todo := [.replicateNew call.index] }] }

def stepResume (τ : Concurrent) (n : Nat) : Option Concurrent :=
  match τ.threads[n]? with
  | none => none
  | some thread =>
    match thread.todo with
    | [] => none
    | a :: rest =>
      if τ.cluster.isUp thread.server then
        let result := (τ.cluster.servers thread.server).act a
        some
          { cluster := τ.cluster.run thread.server result.1
            threads := τ.threads.set n { thread with todo := result.2 ++ rest } }
      else none

/-- The threads of a server end with it. -/
def stepRestart (τ : Concurrent) (id : Nat) (lm : LogManager) (junk : Uninitialised) : Option Concurrent :=
  (τ.cluster.stepRestart id lm junk).map fun σ =>
    { cluster := σ, threads := τ.threads.filter fun thread => thread.server != id }

def step (τ : Concurrent) : ConcurrentLabel → Option Concurrent
  | .tick server timers => τ.stepTick server timers
  | .propose server command => (τ.cluster.stepPropose server command).map τ.withCluster
  | .replicate n => τ.stepReplicate n
  | .resume n => τ.stepResume n
  | .deliver n now => (τ.cluster.stepDeliver n now).map τ.withCluster
  | .restart server lm junk => τ.stepRestart server lm junk

/-- Every thread is the preferred server's, which leads as long as it runs. -/
structure Inv (τ : Concurrent) : Prop where
  solo : τ.cluster.Solo
  server : ∀ thread ∈ τ.threads, thread.server = τ.cluster.config.groupId ∧ τ.cluster.preferred.role = .kLeader
  allowed : ∀ thread ∈ τ.threads, ∀ a ∈ thread.todo, τ.cluster.preferred.Allowed a

/-- A server only comes back if it finds its term again. -/
def headerSurvives (τ : Concurrent) (l : ConcurrentLabel) : Prop :=
  match l with
  | .restart server _ _ => τ.cluster.config.hasStorage server = true
  | _ => True

instance (τ : Concurrent) (l : ConcurrentLabel) : Decidable (headerSurvives τ l) := by
  unfold headerSurvives
  split <;> infer_instance

section Steps

variable {τ τ' : Concurrent} {i n : Nat}

theorem inv_init (c : ClusterConfig) (junk : Nat → Uninitialised) : (init c junk).Inv :=
  ⟨solo_init c junk, by simp [init], by simp [init]⟩

theorem Inv.happens {σ : Cluster} {l : Label} {threads : List SendThread} (inv : τ.Inv)
    (happens : Happens τ.cluster l σ) (survives : τ.cluster.headerSurvives l) (fewer : threads ⊆ τ.threads)
    (alive : ∀ lm junk, l = .restart τ.cluster.config.groupId lm junk → threads = []) :
    Inv { cluster := σ, threads := threads } := by
  have solo := inv.solo.happens survives happens
  have config : σ.config = τ.cluster.config := happens.config_eq
  have same : σ.preferred.config = τ.cluster.preferred.config := by
    rw [Cluster.preferred, Cluster.preferred, solo.config, inv.solo.config, config]
  refine ⟨solo, fun thread running => ?_, fun thread running a due => ?_⟩
  · obtain ⟨server, leads⟩ := inv.server thread (fewer running)
    refine ⟨config ▸ server, inv.solo.leads_happens happens (fun lm junk label => ?_) leads⟩
    rw [alive lm junk label] at running
    cases running
  · exact (inv.allowed thread (fewer running) a due).congr (by rw [peers, peers, same])

theorem Inv.starts (inv : τ.Inv) (thread : SendThread) (leads : (τ.cluster.servers thread.server).role = .kLeader)
    (allowed : ∀ a ∈ thread.todo, (τ.cluster.servers thread.server).Allowed a) :
    Inv { τ with threads := τ.threads ++ [thread] } := by
  have same : thread.server = τ.cluster.config.groupId :=
    inv.solo.leader_eq fun follower => by cases leads.symm.trans follower
  rw [same] at leads allowed
  refine ⟨inv.solo, fun other running => ?_, fun other running => ?_⟩
  · rcases List.mem_append.mp running with old | new
    · exact inv.server other old
    · rw [List.mem_singleton.mp new]
      exact ⟨same, leads⟩
  · rcases List.mem_append.mp running with old | new
    · exact inv.allowed other old
    · rw [List.mem_singleton.mp new]
      exact allowed

theorem Inv.tick {timers : Timers} (inv : τ.Inv) (step : τ.stepTick i timers = some τ') : τ'.Inv := by
  unfold stepTick at step
  split at step
  · rename_i leads
    split at step
    · cases step
      exact inv.starts _ leads (tickActions_allowed _ timers)
    · cases step
  · obtain ⟨σ, ticked, rfl⟩ := Option.map_eq_some_iff.mp step
    exact inv.happens (step_happens inv.solo.outbox (l := .tick i timers) ticked) trivial (List.Subset.refl _) nofun

theorem Inv.replicate (inv : τ.Inv) (step : τ.stepReplicate n = some τ') : τ'.Inv := by
  unfold stepReplicate at step
  split at step
  · cases step
  · rename_i call found
    cases step
    obtain ⟨server, leads⟩ := inv.solo.calls call (List.mem_of_getElem? found)
    -- Without the call nothing changes for the group.
    have without : Inv { τ with cluster := { τ.cluster with pending := τ.cluster.pending.eraseIdx n } } := by
      have anchored := inv.solo.toAnchored
      refine ⟨⟨⟨anchored.config, anchored.outbox, anchored.stored⟩, inv.solo.followers, fun p onWire => ?_, inv.solo.led,
        fun call called => inv.solo.calls call (List.mem_of_mem_eraseIdx called)⟩, inv.server, inv.allowed⟩
      have lawful := inv.solo.packets p onWire
      exact ⟨lawful.term, lawful.request, lawful.fragments, lawful.leader⟩
    refine without.starts { server := call.server, todo := [.replicateNew call.index] } ?_ ?_
    · exact server ▸ leads
    · simp [Allowed]

theorem Inv.resume (inv : τ.Inv) (step : τ.stepResume n = some τ') : τ'.Inv := by
  unfold stepResume at step
  split at step
  · cases step
  · rename_i thread found
    split at step
    · cases step
    · rename_i a rest todo
      split at step
      · cases step
        have running := List.mem_of_getElem? found
        obtain ⟨server, leads⟩ := inv.server thread running
        obtain ⟨asking, more⟩ := act_asking (inv.allowed thread running a (by simp [todo]))
        have role : (τ.cluster.preferred.act a).1.role = .kLeader :=
          (field_eq asking.core (·.role)).trans leads
        rw [server]
        have solo : (τ.cluster.run τ.cluster.config.groupId (τ.cluster.preferred.act a).1).Solo := by
          have ballot := SameBallot.of_core asking.core
          refine inv.solo.after (inv.solo.toAnchored.after ballot.config (Or.inl ⟨ballot.storage, ballot.header⟩) _ _ _)
            (inv.solo.sends asking leads) (List.Subset.refl _) (fun call called => ?_)
            (List.Subset.refl _)
          rw [preferred_after_self rfl]
          exact ⟨(inv.solo.calls call called).1, role⟩
        have after : (τ.cluster.run τ.cluster.config.groupId (τ.cluster.preferred.act a).1).preferred =
            (τ.cluster.preferred.act a).1.flush := preferred_after_self rfl
        have still := (congrArg RaftState.role after).trans role
        have peers := (congrArg RaftState.peers after).trans asking.peers_eq
        refine ⟨solo, fun other inside => ?_, fun other inside b due => ?_⟩
        · rcases List.mem_or_eq_of_mem_set inside with old | rfl
          · exact ⟨(inv.server other old).1, still⟩
          · exact ⟨rfl, still⟩
        · refine .congr peers ?_
          rcases List.mem_or_eq_of_mem_set inside with old | rfl
          · exact inv.allowed other old b due
          · rcases List.mem_append.mp due with new | rest
            · exact more b new
            · exact inv.allowed thread running b (by simp [todo, rest])
      · cases step

theorem Inv.restart {lm : LogManager} {junk : Uninitialised} (inv : τ.Inv)
    (survives : τ.cluster.config.hasStorage i = true) (step : τ.stepRestart i lm junk = some τ') : τ'.Inv := by
  obtain ⟨σ, restarted, rfl⟩ := Option.map_eq_some_iff.mp step
  refine inv.happens (step_happens inv.solo.outbox (l := .restart i lm junk) restarted) survives (List.filter_subset_self _) fun lm' junk' label => ?_
  cases label
  refine List.filter_eq_nil_iff.mpr fun thread running => ?_
  simp [(inv.server thread running).1]

theorem Inv.step {l : ConcurrentLabel} (inv : τ.Inv) (survives : headerSurvives τ l) (step : τ.step l = some τ') :
    τ'.Inv := by
  cases l with
  | tick i timers => exact inv.tick step
  | propose i command =>
    obtain ⟨σ, proposed, rfl⟩ := Option.map_eq_some_iff.mp step
    exact inv.happens (step_happens inv.solo.outbox (l := .propose i command) proposed) trivial (List.Subset.refl _) nofun
  | replicate n => exact inv.replicate step
  | resume n => exact inv.resume step
  | deliver n now =>
    obtain ⟨σ, delivered, rfl⟩ := Option.map_eq_some_iff.mp step
    exact inv.happens (step_happens inv.solo.outbox (l := .deliver n now) delivered) trivial (List.Subset.refl _) nofun
  | restart i lm junk => exact inv.restart survives step

end Steps

/-- Whatever the handlers of a leader do between its sends, each `AppendEntries` request on the wire has a
term in which its sender became leader. -/
theorem appendEntries_legitimate {c : ClusterConfig} {junk : Nat → Uninitialised} {τ : Concurrent} {p : Packet}
    {args : AppendEntriesArgs} (reach : Steps.Reach step headerSurvives (init c junk) τ)
    (onWire : p ∈ τ.cluster.net) (msg : p.msg = .appendEntries args) :
    args.leaderId = p.src ∧ .becameLeader args.leaderId args.term ∈ τ.cluster.history := by
  have inv : τ.Inv := reach.holds (inv_init c junk) fun _ _ _ inv survives step => inv.step survives step
  exact (inv.solo.packets p onWire).leader args msg

/-- Server 0 is elected and starts to send an entry; before the thread gets to its first request, the leader
handles the answer to a heartbeat. -/
def answeredMeanwhile : List ConcurrentLabel :=
  [.tick 0 { electionExpired := true }, .deliver 0 1, .deliver 0 1, .deliver 0 1, .deliver 0 1,
    .propose 0 ⟨0, [1, 2]⟩, .replicate 0, .resume 0, .resume 0, .deliver 0 2, .deliver 1 2, .resume 0, .resume 0,
    .resume 0]

theorem appendEntries_legitimate_threeServers : ∃ τ : Concurrent,
    Steps.Reach step headerSurvives (init (.threeServers 0) .zero) τ ∧
      { src := 0, dst := 1, msg := .appendEntries firstRequest } ∈ τ.cluster.net ∧
      .becameLeader 0 1 ∈ τ.cluster.history := by
  have onWire : { src := 0, dst := 1, msg := .appendEntries firstRequest } ∈
      ((Steps.exec step headerSurvives (init (.threeServers 0) .zero) answeredMeanwhile).get
        (by decide +kernel)).cluster.net := by decide +kernel
  exact ⟨_, .of_get _, onWire, (appendEntries_legitimate (.of_get _) onWire rfl).2⟩

end Concurrent

end FlexRaft
