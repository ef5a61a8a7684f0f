import Mathlib.Data.List.Perm.Basic
import FlexRaft.Runs
import FlexRaft.Turns

namespace FlexRaft

namespace Cluster

variable {σ σ' : Cluster} {i : Nat} {net : List Packet} {l : Label}

open RaftState

/-- What server `i` does in the step `l`. In contrast to `Local` no assumption is made about the run: any
server may stand for election, and servers may restart. -/
inductive Deed (σ : Cluster) (l : Label) (i : Nat) (s : RaftState) : Prop
  | turn (turn : Turn (σ.servers i) (σ.delivered l) s)
  | sends (asking : Asking (σ.servers i) s)
      (due : (σ.servers i).role = .kLeader ∨ ∃ call ∈ σ.pending, call.server = i)
  | restarts {lm : LogManager} {junk : Uninitialised} (label : l = .restart i lm junk)
      (fresh : s = newRaftState (σ.servers i).config (σ.servers i).storage lm junk)

/-- The wire loses the message that was delivered and nothing else. -/
def Left (σ : Cluster) (i : Nat) (taken : Option Packet) (net : List Packet) : Prop :=
  match taken with
  | none => net = σ.net
  | some q => q.dst = i ∧ σ.net.Perm (q :: net)

/-- One server acts. -/
inductive Happens (σ : Cluster) (l : Label) : Cluster → Prop
  | act {i : Nat} {s : RaftState} {events : List Event} {net : List Packet} {pending : List PendingPropose}
      (member : i < σ.config.size) (deed : Deed σ l i s) (left : σ.Left i (σ.delivered l) net)
      (calls : ∀ call ∈ pending, call ∈ σ.pending ∧ (l.isRestart → call.server ≠ i) ∨
        call.server = i ∧ s.role = .kLeader)
      (leaders : newLeader i (σ.servers i) s ⊆ events) : Happens σ l (σ.after i s net pending events)

theorem Left.subset {taken : Option Packet} (left : σ.Left i taken net) : net ⊆ σ.net := by
  cases taken with
  | none => exact left ▸ List.Subset.refl _
  | some q => exact fun p member => left.2.symm.subset (List.mem_cons_of_mem q member)

theorem Left.onWire {q : Packet} (left : σ.Left i (some q) net) : q ∈ σ.net :=
  left.2.symm.subset List.mem_cons_self

theorem Happens.config_eq (happens : Happens σ l σ') : σ'.config = σ.config := by
  obtain ⟨_, _, _, _, _⟩ := happens
  rfl

theorem Happens.history_subset (happens : Happens σ l σ') : σ.history ⊆ σ'.history := by
  obtain ⟨_, _, _, _, _⟩ := happens
  exact List.subset_append_left _ _

/-- Servers have their configuration, nothing left to send, and their term and vote in the storage. -/
structure Anchored (σ : Cluster) : Prop where
  config : ∀ i, (σ.servers i).config = σ.config.serverConfig i
  outbox : ∀ i, (σ.servers i).outbox = []
  stored : ∀ i, (σ.servers i).storage = if σ.config.hasStorage i then some (σ.servers i).header else none

/-- A server only comes back if it finds its term again. -/
def headerSurvives (σ : Cluster) (l : Label) : Prop :=
  match l with
  | .restart i _ _ => σ.config.hasStorage i = true
  | _ => True

instance (σ : Cluster) : (l : Label) → Decidable (headerSurvives σ l)
  | .restart i _ _ => inferInstanceAs (Decidable (σ.config.hasStorage i = true))
  | .tick _ _ | .propose _ _ | .replicate _ | .deliver _ _ => isTrue trivial

section Anchored

variable {σ : Cluster} {i : Nat} {s : RaftState}

theorem Anchored.id (inv : σ.Anchored) (i : Nat) : (σ.servers i).id = i := congrArg RaftConfig.id (inv.config i)

theorem Anchored.peer_ne (inv : σ.Anchored) {p : Nat} (config : s.config = (σ.servers i).config)
    (member : p ∈ s.peers) : p ≠ i := by
  rw [peers, config, inv.config i] at member
  exact (ClusterConfig.mem_serverConfig_peers.mp member).2

theorem newRaftState_header {c : RaftConfig} {st : PersistRaftState} (lm : LogManager) (junk : Uninitialised)
    (valid : st.valid = true) : (newRaftState c (some st) lm junk).header = st := by
  cases st
  cases valid
  rfl

theorem Anchored.restart_header (inv : σ.Anchored) (hasStorage : σ.config.hasStorage i = true) (lm : LogManager)
    (junk : Uninitialised) :
    (newRaftState (σ.servers i).config (σ.servers i).storage lm junk).header = (σ.servers i).header := by
  rw [inv.stored i, if_pos hasStorage]
  exact newRaftState_header lm junk rfl

theorem Anchored.deed (inv : σ.Anchored) (survives : headerSurvives σ l) (deed : Deed σ l i s) :
    s.config = (σ.servers i).config ∧ Saves (σ.servers i) s := by
  cases deed with
  | turn turn => exact ⟨turn.config, turn.saves⟩
  | sends asking =>
    have ballot := SameBallot.of_core asking.core
    exact ⟨ballot.config, Or.inl ⟨ballot.storage, ballot.header⟩⟩
  | @restarts lm junk label fresh =>
    subst label fresh
    have hasStorage : σ.config.hasStorage i = true := survives
    refine ⟨rfl, Or.inl ⟨?_, inv.restart_header hasStorage lm junk⟩⟩
    rw [inv.stored i, if_pos hasStorage]
    rfl

theorem forall_after {pending : List PendingPropose} {events : List Event}
    {P : Nat → RaftState → Prop} (own : P i s.flush) (others : ∀ j ≠ i, P j (σ.servers j)) (j : Nat) :
    P j ((σ.after i s net pending events).servers j) := by
  by_cases same : j = i
  · subst same
    simpa [Cluster.after] using own
  · simpa [Cluster.after, same] using others j same

theorem Anchored.after (inv : σ.Anchored) (config : s.config = (σ.servers i).config) (saves : Saves (σ.servers i) s)
    (net : List Packet) (pending : List PendingPropose) (events : List Event) :
    (σ.after i s net pending events).Anchored := by
  have stored : s.storage = if σ.config.hasStorage i then some s.header else none := by
    rcases saves with ⟨storage, header⟩ | written
    · rw [storage, header, inv.stored i]
    · rw [written, inv.stored i]
      split <;> rfl
  exact ⟨forall_after (P := fun j u => u.config = σ.config.serverConfig j) (config.trans (inv.config i))
      fun j _ => inv.config j,
    forall_after (P := fun _ u => u.outbox = []) rfl fun j _ => inv.outbox j,
    forall_after (P := fun j u => u.storage = if σ.config.hasStorage j then some u.header else none) stored
      fun j _ => inv.stored j⟩

theorem anchored_init (c : ClusterConfig) (junk : Nat → Uninitialised) : (init c junk).Anchored := by
  refine ⟨fun i => rfl, fun i => rfl, fun i => ?_⟩
  simp only [init, ClusterConfig.initialStorage]
  split <;> rfl

end Anchored

theorem stopped_of_isUp (up : σ.isUp i = true) : (σ.servers i).stopped = false := by
  simp only [isUp, Bool.and_eq_true, Bool.not_eq_true'] at up
  exact up.2

section Steps

variable {σ σ' : Cluster} (quiet : ∀ i, (σ.servers i).outbox = []) {l : Label}
include quiet

theorem Handles.acts {s : RaftState} {pending : List PendingPropose}
    {events : List Event} (handles : Handles σ l i s net pending events) :
    i < σ.config.size ∧ Deed σ l i s ∧ σ.Left i (σ.delivered l) net ∧
      ∀ call ∈ pending, call ∈ σ.pending ∧ (l.isRestart → call.server ≠ i) ∨ call.server = i ∧ s.role = .kLeader := by
  cases handles with
  | @ticks _ timers up =>
    have running := stopped_of_isUp up
    refine ⟨lt_size_of_isUp up, ?_, rfl, fun call member => Or.inl ⟨member, nofun⟩⟩
    by_cases leads : (σ.servers i).role = .kLeader
    · refine .sends ?_ (Or.inl leads)
      rw [show (σ.servers i).tick timers = (σ.servers i).sendAsLeader timers by simp [tick, leads]]
      exact .sendAsLeader running timers
    · exact .turn (tick_turn timers (quiet i) running leads)
  | @refuses _ command up =>
    exact ⟨lt_size_of_isUp up, .turn (propose_turn command (quiet i)), rfl, fun call member => Or.inl ⟨member, nofun⟩⟩
  | @accepts _ command result up called accepted =>
    refine ⟨lt_size_of_isUp up, .turn (propose_turn command (quiet i)), rfl, fun call member => ?_⟩
    rcases List.mem_append.mp member with old | new
    · exact Or.inl ⟨old, nofun⟩
    · rcases propose_spec (σ.servers i) command with ⟨refused, -⟩ | ⟨-, leads, -, -, e, -, run⟩
      · rw [called, accepted] at refused
        cases refused
      · rw [List.mem_singleton.mp new, run]
        exact Or.inr ⟨rfl, leads⟩
  | @replicates n call found up =>
    have asking := Asking.replicateNewProposeEntry (stopped_of_isUp up) call.index
    exact ⟨lt_size_of_isUp up, .sends asking (Or.inr ⟨call, List.mem_of_getElem? found, rfl⟩), rfl,
      fun call member => Or.inl ⟨List.mem_of_mem_eraseIdx member, nofun⟩⟩
  | @delivers n now q found up =>
    have taken : σ.delivered (.deliver n now) = some q := found
    refine ⟨lt_size_of_isUp up, .turn ?_, ?_, fun call member => Or.inl ⟨member, nofun⟩⟩
    · rw [taken]
      exact process_turn now (quiet q.dst) q
    · rw [taken]
      obtain ⟨bound, at_n⟩ := List.getElem?_eq_some_iff.mp found
      refine ⟨rfl, ?_⟩
      rw [← at_n]
      exact (List.getElem_cons_eraseIdx_perm bound).symm
  | restarts member =>
    refine ⟨member, .restarts rfl rfl, rfl, fun call inside => ?_⟩
    obtain ⟨old, other⟩ := List.mem_filter.mp inside
    exact Or.inl ⟨old, fun _ => by simpa using other⟩

theorem step_happens (step : σ.step l = some σ') : Happens σ l σ' := by
  obtain ⟨i, s, net, pending, events, handles, rfl⟩ := step_handles step
  obtain ⟨member, deed, left, calls⟩ := handles.acts quiet
  exact .act member deed left calls (List.subset_append_left _ _)

end Steps

end Cluster

end FlexRaft
