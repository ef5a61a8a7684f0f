import FlexRaft.Cluster
import FlexRaft.Handlers
import FlexRaft.PersistQueue

namespace FlexRaft

/-- A server whose `Propose` is called by several threads, and the queue behind it. `pushing` holds the
indices of the calls that have appended their entry under the lock and not pushed it yet. -/
structure Proposals where
  raft : RaftState
  pushing : List Nat
  disk : PersistQueue

namespace Proposals

variable {f : StorageFormat}

inductive Label
  | propose (command : CommandData)
  | push (index : Nat)
  | collect
  | write
  | mark
  deriving DecidableEq, Repr

def start (s : RaftState) (file : FileStorage) : Proposals :=
  { raft := s, pushing := [], disk := .start file }

/-- The critical section of `Propose`. -/
def propose (σ : Proposals) (command : CommandData) : Proposals :=
  let (s, result) := σ.raft.propose command
  { σ with raft := s, pushing := if result.isLeader then σ.pushing ++ [result.proposeIndex] else σ.pushing }

/-- The call that appended `index` copies the entry from the log and pushes it. -/
def push (σ : Proposals) (index : Nat) : Proposals :=
  { σ with
    pushing := σ.pushing.erase index
    disk := match σ.raft.lm.getSingleLogEntry index with
      | none => σ.disk
      | some entry => σ.disk.push entry index }

def step (f : StorageFormat) (σ : Proposals) : Label → Option Proposals
  | .propose command => some (σ.propose command)
  | .push index => if index ∈ σ.pushing then some (σ.push index) else none
  | .collect => σ.disk.collect.map fun disk => { σ with disk := disk }
  | .write => (σ.disk.write f).map fun disk => { σ with disk := disk }
  | .mark => σ.disk.mark.map fun disk => { σ with disk := disk }

/-- No call pushes before one that has a smaller index. -/
def pushesInOrder (σ : Proposals) : Label → Prop
  | .push index => ∀ other ∈ σ.pushing, index ≤ other
  | _ => True

instance (σ : Proposals) : (l : Label) → Decidable (σ.pushesInOrder l)
  | .push index => inferInstanceAs (Decidable (∀ other ∈ σ.pushing, index ≤ other))
  | .propose _ | .collect | .write | .mark => inferInstanceAs (Decidable True)

/-- The queue holds consecutive indices from `a` on, and the calls that have yet to push continue them up to
the end of the log. -/
structure InOrder (σ : Proposals) : Prop where
  indexed : σ.raft.lm.Indexed
  consecutive : ∃ a n m, 1 ≤ a ∧ σ.disk.queue.map PersistItem.index = List.range' a n ∧
    σ.pushing = List.range' (a + n) m ∧ a + n + m = σ.raft.lm.entries.length + 1
  own : ∀ item ∈ σ.disk.queue, item.entry.index = item.index
  collected : ∀ batch, σ.disk.worker = .collected batch → batch <+: σ.disk.queue

section InOrder

variable {f : StorageFormat} {σ σ' : Proposals} {disk : PersistQueue}

theorem inOrder_start {s : RaftState} (indexed : s.lm.Indexed) (file : FileStorage) : (start s file).InOrder := by
  refine ⟨indexed, ⟨s.lm.entries.length + 1, 0, 0, by omega, rfl, rfl, by simp [start]⟩, fun item none => ?_,
    fun _ idle => (nomatch idle)⟩
  exact absurd none List.not_mem_nil

theorem InOrder.propose (ordered : σ.InOrder) (command : CommandData) : (σ.propose command).InOrder := by
  obtain ⟨a, n, m, positive, queued, pending, total⟩ := ordered.consecutive
  rcases RaftState.propose_spec σ.raft command with ⟨refused, same⟩ | ⟨accepted, _, place, _, e, made, run⟩
  · have log : (σ.propose command).raft.lm = σ.raft.lm := by
      rcases same with same | stopped
      · exact congrArg RaftState.lm same
      · exact (congrArg RaftState.lm stopped).trans rfl
    have pushing : (σ.propose command).pushing = σ.pushing := by
      simp [Proposals.propose, refused]
    refine ⟨?_, ⟨a, n, m, positive, queued, ?_, ?_⟩, ordered.own, ordered.collected⟩
    · rw [log]
      exact ordered.indexed
    · rw [pushing]
      exact pending
    · rw [log]
      exact total
  · have log : (σ.propose command).raft.lm = σ.raft.lm.appendLogEntry e := congrArg RaftState.lm run
    have last := ordered.indexed.lastLogEntryIndex_eq
    have pushing : (σ.propose command).pushing = σ.pushing ++ [a + n + m] := by
      have next : σ.raft.lm.lastLogEntryIndex + 1 = a + n + m := by omega
      simp [Proposals.propose, accepted, place, next]
    refine ⟨?_, ⟨a, n, m + 1, positive, queued, ?_, ?_⟩, ordered.own, ordered.collected⟩
    · rw [log]
      exact ordered.indexed.appendLogEntry (by rw [made.index, last])
    · rw [pushing, pending, List.range'_concat, Nat.one_mul]
    · have longer : (σ.raft.lm.appendLogEntry e).entries.length = σ.raft.lm.entries.length + 1 :=
        List.length_append
      rw [log, longer]
      omega

theorem InOrder.push {index : Nat} (ordered : σ.InOrder) (waits : index ∈ σ.pushing)
    (first : ∀ other ∈ σ.pushing, index ≤ other) : (σ.push index).InOrder := by
  obtain ⟨a, n, m, positive, queued, pending, total⟩ := ordered.consecutive
  rw [pending] at waits first
  have bounds := List.mem_range'_1.mp waits
  have low := first (a + n) (List.mem_range'_1.mpr (by omega))
  obtain rfl : index = a + n := by omega
  obtain ⟨m, rfl⟩ : ∃ k, m = k + 1 := ⟨m - 1, by omega⟩
  have inside : a + n - 1 < σ.raft.lm.entries.length := by omega
  have found : σ.raft.lm.getSingleLogEntry (a + n) = some σ.raft.lm.entries[a + n - 1] :=
    ordered.indexed.getSingleLogEntry_eq_some.mpr ⟨by omega, List.getElem?_eq_getElem inside⟩
  have place := ordered.indexed _ _ (List.getElem?_eq_getElem inside)
  have disk : (σ.push (a + n)).disk = σ.disk.push σ.raft.lm.entries[a + n - 1] (a + n) := by
    simp only [Proposals.push, found]
  have pushing : (σ.push (a + n)).pushing = List.range' (a + (n + 1)) m := by
    have erased : (List.range' (a + n) (m + 1)).erase (a + n) = List.range' (a + n + 1) m := by
      rw [List.range'_succ, List.erase_cons_head]
    simp only [Proposals.push, pending, erased, Nat.add_assoc]
  refine ⟨ordered.indexed, ⟨a, n + 1, m, positive, ?_, pushing, ?_⟩, fun item member => ?_, fun batch worker => ?_⟩
  · rw [disk, List.range'_concat, ← queued, Nat.one_mul]
    exact List.map_append
  · have same : (σ.push (a + n)).raft = σ.raft := rfl
    rw [same]
    omega
  · rw [disk] at member
    rcases List.mem_append.mp member with old | new
    · exact ordered.own item old
    · rw [List.mem_singleton.mp new]
      dsimp only
      omega
  · rw [disk] at worker ⊢
    exact (ordered.collected batch worker).trans (List.prefix_append _ _)

theorem InOrder.collect (ordered : σ.InOrder) (collects : σ.disk.collect = some disk) :
    InOrder { σ with disk := disk } := by
  obtain ⟨_, batch, front, rfl⟩ := PersistQueue.of_collect collects
  refine ⟨ordered.indexed, ordered.consecutive, ordered.own, fun collected worker => ?_⟩
  cases worker
  exact front

theorem InOrder.write (ordered : σ.InOrder) (writes : σ.disk.write f = some disk) :
    InOrder { σ with disk := disk } := by
  obtain ⟨_, _, _, _, _, _, rfl⟩ := PersistQueue.of_write writes
  exact ⟨ordered.indexed, ordered.consecutive, ordered.own, fun _ worker => (nomatch worker)⟩

theorem InOrder.mark (ordered : σ.InOrder) (marks : σ.disk.mark = some disk) : InOrder { σ with disk := disk } := by
  obtain ⟨fromIdx, toIdx, _, rfl⟩ := PersistQueue.of_mark marks
  obtain ⟨a, n, m, positive, queued, pending, total⟩ := ordered.consecutive
  obtain ⟨gone, split⟩ : σ.disk.queue.dropWhile (fun item => decide (item.index ≤ toIdx)) <:+ σ.disk.queue :=
    List.dropWhile_suffix _
  have parts := queued
  rw [← split, List.map_append] at parts
  obtain ⟨k, short, -, rest⟩ := List.range'_eq_append_iff.mp parts.symm
  rw [Nat.mul_one] at rest
  refine ⟨ordered.indexed, ⟨a + k, n - k, m, by omega, rest, ?_, ?_⟩, fun item member => ?_,
    fun _ worker => (nomatch worker)⟩
  · rw [show a + k + (n - k) = a + n by omega]
    exact pending
  · dsimp only
    omega
  · exact ordered.own item ((List.dropWhile_sublist _).subset member)

theorem InOrder.step {l : Label} (ordered : σ.InOrder) (allowed : σ.pushesInOrder l) (steps : σ.step f l = some σ') :
    σ'.InOrder := by
  cases l with
  | propose command =>
    cases steps
    exact ordered.propose command
  | push index =>
    change (if index ∈ σ.pushing then some (σ.push index) else none) = some σ' at steps
    split at steps
    · rename_i waits
      cases steps
      exact ordered.push waits allowed
    · cases steps
  | collect =>
    obtain ⟨disk, collects, rfl⟩ := Option.map_eq_some_iff.mp steps
    exact ordered.collect collects
  | write =>
    obtain ⟨disk, writes, rfl⟩ := Option.map_eq_some_iff.mp steps
    exact ordered.write writes
  | mark =>
    obtain ⟨disk, marks, rfl⟩ := Option.map_eq_some_iff.mp steps
    exact ordered.mark marks

theorem InOrder.ascending (ordered : σ.InOrder) : σ.disk.queue.Pairwise fun a b => a.index < b.index := by
  obtain ⟨a, n, m, _, queued, _⟩ := ordered.consecutive
  have ascending := List.pairwise_lt_range' (s := a) (n := n)
  rw [← queued] at ascending
  exact List.pairwise_map.mp ascending

theorem InOrder.batch {first : PersistItem} {rest : List PersistItem} (ordered : σ.InOrder)
    (worker : σ.disk.worker = .collected (first :: rest)) :
    ((first :: rest).map fun item => item.entry.index) = List.range' first.index (rest.length + 1) := by
  obtain ⟨a, n, m, _, queued, _⟩ := ordered.consecutive
  have front := ordered.collected _ worker
  obtain ⟨later, split⟩ := front
  rw [← split, List.map_append] at queued
  obtain ⟨k, _, batch, _⟩ := List.range'_eq_append_iff.mp queued.symm
  have length := congrArg List.length batch
  rw [List.length_map, List.length_range'] at length
  have head := batch
  rw [← length, List.length_cons, List.range'_succ, List.map_cons] at head
  have own : ((first :: rest).map fun item => item.entry.index) = (first :: rest).map PersistItem.index := by
    refine List.map_congr_left fun item member => ordered.own item ?_
    rw [← split]
    exact List.mem_append_left _ member
  rw [own, batch, (List.cons.inj head).1, ← length, List.length_cons]

end InOrder

/-- The assertion of `PersistEntries` holds for consecutive entries. -/
theorem persistBatch_isSome {lo : Nat} {batch : List LogEntry} (st : FileStorage)
    (consecutive : batch.map LogEntry.index = List.range' lo batch.length) :
    (st.persistBatch f lo batch).isSome := by
  induction batch generalizing lo st with
  | nil => rfl
  | cons ent rest ih =>
    rw [List.map_cons, List.length_cons, List.range'_succ] at consecutive
    obtain ⟨head, tail⟩ := List.cons.inj consecutive
    unfold FileStorage.persistBatch
    rw [if_neg (by simp [head])]
    exact ih _ tail

theorem InOrder.write_isSome {σ : Proposals} {first : PersistItem} {rest : List PersistItem}
    (ordered : σ.InOrder) (worker : σ.disk.worker = .collected (first :: rest)) : (σ.disk.write f).isSome := by
  have alive : ∀ item ∈ first :: rest, item ∈ σ.disk.queue := (ordered.collected _ worker).subset
  have written : (σ.disk.file.persistBatch f first.index ((first :: rest).map PersistItem.entry)).isSome := by
    apply persistBatch_isSome
    rw [List.map_map, List.length_map]
    exact ordered.batch worker
  unfold PersistQueue.write
  rw [worker]
  dsimp only
  rw [if_pos alive, Option.isSome_map]
  unfold FileStorage.persistEntries
  split
  · rfl
  · rw [Option.isSome_map]
    exact written

/-- In every run in which the calls of `Propose` push in the order of their indices, the queue is in
ascending order and the worker collects consecutive entries, so that `PersistEntries` takes them. -/
theorem queue_ascending_batch_consecutive {f : StorageFormat} {s : RaftState} {file : FileStorage} {σ : Proposals}
    (indexed : s.lm.Indexed) (reach : Steps.Reach (step f) pushesInOrder (start s file) σ) :
    (σ.disk.queue.Pairwise fun a b => a.index < b.index) ∧
      ∀ first rest, σ.disk.worker = .collected (first :: rest) →
        ((first :: rest).map fun item => item.entry.index) = List.range' first.index (rest.length + 1) ∧
          (σ.disk.write f).isSome := by
  have ordered : σ.InOrder :=
    reach.holds (inOrder_start indexed file) fun _ _ _ ordered allowed steps => ordered.step allowed steps
  refine ⟨ordered.ascending, fun first rest worker => ⟨ordered.batch worker, ordered.write_isSome worker⟩⟩

/-- A leader of three servers with an empty log. -/
def threeServersLeader : RaftState :=
  ((Cluster.exec (fun _ _ => True) (Cluster.init (.threeServers 2) RaftState.Uninitialised.zero)
    electZero).get (by decide +kernel)).servers 0

/-- Three calls append their entries and push them in the given order; the worker collects what it finds. -/
def threeCalls (order : List Nat) : List Label :=
  [.propose ⟨0, [1]⟩, .propose ⟨0, [2]⟩, .propose ⟨0, [3]⟩] ++ order.map .push ++ [.collect]

def threeCallsCollected : Proposals :=
  (Steps.exec (step bareFormat) pushesInOrder (start threeServersLeader (.openNew bareFormat [0, 0, 0, 0]))
    (threeCalls [1, 2, 3])).get (by decide +kernel)

theorem queue_ascending_batch_consecutive_threeCalls :
    threeCallsCollected.disk.queue.map PersistItem.index = [1, 2, 3] ∧
      threeCallsCollected.disk.worker = .collected threeCallsCollected.disk.queue ∧
      (threeCallsCollected.disk.write bareFormat).isSome := by
  have worker : threeCallsCollected.disk.worker = .collected threeCallsCollected.disk.queue := by decide +kernel
  have queue : threeCallsCollected.disk.queue.map PersistItem.index = [1, 2, 3] := by decide +kernel
  have indexed : threeServersLeader.lm.Indexed := LogManager.indexed_nil
  obtain ⟨first, rest, items, -⟩ := List.map_eq_cons_iff.mp queue
  refine ⟨queue, worker, ?_⟩
  rw [items] at worker
  exact ((queue_ascending_batch_consecutive indexed (Steps.Reach.of_get _)).2 first rest worker).2

/-- The third call overtakes the second: the queue is out of order and `PersistEntries` fails its assertion. -/
theorem overtaking_push_fails_assertion : ∃ σ,
    Steps.Reach (step bareFormat) (fun _ _ => True) (start threeServersLeader (.openNew bareFormat [0, 0, 0, 0])) σ ∧
    σ.disk.queue.map PersistItem.index = [1, 3, 2] ∧ σ.disk.worker = .collected σ.disk.queue ∧
    (σ.disk.write bareFormat).isNone :=
  ⟨(Steps.exec (step bareFormat) (fun _ _ => True) (start threeServersLeader (.openNew bareFormat [0, 0, 0, 0]))
    (threeCalls [1, 3, 2])).get (by decide +kernel), .of_get _, by decide +kernel, by decide +kernel, by decide +kernel⟩

end Proposals

end FlexRaft
