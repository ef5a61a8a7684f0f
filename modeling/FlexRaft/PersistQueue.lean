import FlexRaft.StoredLog
import Mathlib.Data.List.TakeWhile

namespace FlexRaft

/-- An item of the queue. `address` tells apart items that were pushed with the same index and term. The flag
`persisted` is set only on an item that is about to be deleted, so no item of the queue has it. -/
structure PersistItem where
  address : Nat
  index : Nat
  term : Nat
  entry : LogEntry
  deriving DecidableEq, Repr

/-- Where `PersistWorkerLoop` is: before it collects, before it writes the batch, or before `MarkPersisted`. -/
inductive PersistWorker
  | idle
  | collected (batch : List PersistItem)
  | written (fromIdx toIdx : Nat)
  deriving DecidableEq, Repr

/-- The queue with its worker and the storage behind it. `nextAddress` is where the next item goes, and
`passed` holds the items that were handed to `PersistEntries`; the code reads neither. -/
structure PersistQueue where
  queue : List PersistItem
  worker : PersistWorker
  file : FileStorage
  nextAddress : Nat
  passed : List PersistItem

namespace PersistQueue

def kBatchSize : Nat := 32

/-- `NewRaftState` starts the queue with nothing in it. -/
def start (file : FileStorage) : PersistQueue :=
  { queue := [], worker := .idle, file := file, nextAddress := 0, passed := [] }

def push (q : PersistQueue) (entry : LogEntry) (index : Nat) : PersistQueue :=
  { q with
    queue := q.queue ++ [{ address := q.nextAddress, index := index, term := entry.term, entry := entry }]
    nextAddress := q.nextAddress + 1 }

/-- Takes items off the front only. -/
def truncateFrom (q : PersistQueue) (idx : Nat) : PersistQueue :=
  { q with queue := q.queue.dropWhile fun item => decide (idx ≤ item.index) }

/-- Whatever stands at the front with an index up to `to` goes. -/
def markPersisted (q : PersistQueue) (toIdx : Nat) : PersistQueue :=
  { q with queue := q.queue.dropWhile fun item => decide (item.index ≤ toIdx) }

/-- The loop of `IsUnpersisted`, which takes the queue to be ordered by index. -/
def isUnpersistedIn (idx : Nat) : List PersistItem → Bool
  | [] => false
  | item :: rest =>
    if item.index = idx then true
    else if idx < item.index then false
    else isUnpersistedIn idx rest

def isUnpersisted (q : PersistQueue) (idx : Nat) : Bool := isUnpersistedIn idx q.queue

/-- The worker collects a batch, if there is anything to collect. -/
def collect (q : PersistQueue) : Option PersistQueue :=
  match q.worker, q.queue.take kBatchSize with
  | .idle, first :: rest => some { q with worker := .collected (first :: rest) }
  | _, _ => none

/-- The worker copies the entries and writes them. `none` where an item has been deleted since it was
collected, so that its memory is gone, and where `PersistEntries` fails its assertion. -/
def write (f : StorageFormat) (q : PersistQueue) : Option PersistQueue :=
  match q.worker with
  | .collected (first :: rest) =>
    let batch := first :: rest
    let toIdx := (batch.getLastD first).index
    if ∀ item ∈ batch, item ∈ q.queue then
      (q.file.persistEntries f first.index toIdx (batch.map PersistItem.entry)).map fun file =>
        { q with file := file.sync, worker := .written first.index toIdx, passed := q.passed ++ batch }
    else none
  | _ => none

def mark (q : PersistQueue) : Option PersistQueue :=
  match q.worker with
  | .written _ toIdx => some { q.markPersisted toIdx with worker := .idle }
  | _ => none

/-- What happens to a running queue. -/
inductive Label
  | push (entry : LogEntry) (index : Nat)
  | truncateFrom (idx : Nat)
  | collect
  | write
  | mark
  deriving DecidableEq, Repr

def step (f : StorageFormat) (q : PersistQueue) : Label → Option PersistQueue
  | .push entry index => some (q.push entry index)
  | .truncateFrom idx => some (q.truncateFrom idx)
  | .collect => q.collect
  | .write => q.write f
  | .mark => q.mark

/-- Everything in the worker's hands is below the index. -/
def workerBelow (index : Nat) : PersistWorker → Prop
  | .idle => True
  | .collected batch => ∀ item ∈ batch, item.index < index
  | .written _ toIdx => toIdx < index

instance (index : Nat) : (worker : PersistWorker) → Decidable (workerBelow index worker)
  | .idle => inferInstanceAs (Decidable True)
  | .collected batch => inferInstanceAs (Decidable (∀ item ∈ batch, item.index < index))
  | .written _ toIdx => inferInstanceAs (Decidable (toIdx < index))

/-- Indices arrive in ascending order, above those of a batch in the worker's hands, and no item is
truncated between its collection and its writing. -/
def inTurn (q : PersistQueue) : Label → Prop
  | .push _ index => (∀ item ∈ q.queue, item.index < index) ∧ workerBelow index q.worker
  | .truncateFrom idx => q.worker matches .collected _ → ∀ item ∈ q.queue.head?, item.index < idx
  | _ => True

instance (q : PersistQueue) : (l : Label) → Decidable (q.inTurn l)
  | .push _ index => inferInstanceAs (Decidable ((∀ item ∈ q.queue, item.index < index) ∧ workerBelow index q.worker))
  | .truncateFrom idx =>
    inferInstanceAs (Decidable (q.worker matches .collected _ → ∀ item ∈ q.queue.head?, item.index < idx))
  | .collect | .write | .mark => inferInstanceAs (Decidable True)

section Worker

variable {f : StorageFormat} {q q' : PersistQueue}

theorem of_collect (collects : q.collect = some q') :
    q.worker = .idle ∧ ∃ batch, batch <+: q.queue ∧ q' = { q with worker := .collected batch } := by
  unfold collect at collects
  split at collects
  · rename_i first rest idle front
    cases collects
    refine ⟨idle, first :: rest, ?_, rfl⟩
    rw [← front]
    exact List.take_prefix _ _
  · cases collects

theorem of_write (writes : q.write f = some q') : ∃ first rest file,
    q.worker = .collected (first :: rest) ∧ (∀ item ∈ first :: rest, item ∈ q.queue) ∧
    q.file.persistEntries f first.index ((first :: rest).getLastD first).index ((first :: rest).map PersistItem.entry) =
      some file ∧
    q' = { q with
      file := file.sync
      worker := .written first.index ((first :: rest).getLastD first).index
      passed := q.passed ++ first :: rest } := by
  unfold write at writes
  split at writes
  · rename_i first rest worker
    dsimp only at writes
    split at writes
    · rename_i alive
      obtain ⟨file, persisted, rfl⟩ := Option.map_eq_some_iff.mp writes
      exact ⟨first, rest, file, worker, alive, persisted, rfl⟩
    · cases writes
  · cases writes

theorem of_mark (marks : q.mark = some q') : ∃ fromIdx toIdx,
    q.worker = .written fromIdx toIdx ∧ q' = { q.markPersisted toIdx with worker := .idle } := by
  unfold mark at marks
  split at marks
  · rename_i fromIdx toIdx worker
    cases marks
    exact ⟨fromIdx, toIdx, worker, rfl⟩
  · cases marks

end Worker

/-- The queue is ordered; a collected batch stands at its front; once a batch is written, only items that were
passed on have an index up to its last one. -/
structure Ordered (q : PersistQueue) : Prop where
  ascending : q.queue.Pairwise fun a b => a.index < b.index
  collected : ∀ batch, q.worker = .collected batch → batch <+: q.queue
  written : ∀ fromIdx toIdx, q.worker = .written fromIdx toIdx →
    ∀ item ∈ q.queue, item.index ≤ toIdx → item ∈ q.passed

section Ordered

variable {f : StorageFormat} {q q' : PersistQueue}

theorem Ordered.push {entry : LogEntry} {index : Nat} (ordered : q.Ordered) (turn : q.inTurn (.push entry index)) :
    (q.push entry index).Ordered := by
  obtain ⟨above, busy⟩ := turn
  refine ⟨?_, fun batch worker => ?_, fun fromIdx toIdx worker item member low => ?_⟩
  · refine List.pairwise_append.mpr ⟨ordered.ascending, List.pairwise_singleton _ _, fun a old b new => ?_⟩
    rw [List.mem_singleton.mp new]
    exact above a old
  · exact (ordered.collected batch worker).trans (List.prefix_append _ _)
  · have worker' : q.worker = .written fromIdx toIdx := worker
    rw [worker'] at busy
    rcases List.mem_append.mp member with old | new
    · exact ordered.written fromIdx toIdx worker' item old low
    · rw [List.mem_singleton.mp new] at low
      have late : toIdx < index := busy
      have early : index ≤ toIdx := low
      omega

theorem Ordered.truncateFrom {idx : Nat} (ordered : q.Ordered) (turn : q.inTurn (.truncateFrom idx)) :
    (q.truncateFrom idx).Ordered := by
  have rest : (q.truncateFrom idx).queue.Sublist q.queue := List.dropWhile_sublist _
  refine ⟨ordered.ascending.sublist rest, fun batch worker => ?_, fun fromIdx toIdx worker item member low => ?_⟩
  · have worker' : q.worker = .collected batch := worker
    have turn' : ∀ item ∈ q.queue.head?, item.index < idx := turn (by rw [worker'])
    -- nothing at the front is far enough to be truncated
    have same : (q.truncateFrom idx).queue = q.queue := by
      unfold PersistQueue.truncateFrom
      cases items : q.queue with
      | nil => rfl
      | cons first others =>
        have low := turn' first (by rw [items]; rfl)
        have stays : ¬ decide (idx ≤ first.index) = true := by
          rw [decide_eq_true_iff]
          omega
        exact List.dropWhile_cons_of_neg (p := fun item : PersistItem => decide (idx ≤ item.index)) stays
    rw [same]
    exact ordered.collected batch worker'
  · exact ordered.written fromIdx toIdx worker item (rest.subset member) low

theorem Ordered.collect (ordered : q.Ordered) (steps : q.collect = some q') : q'.Ordered := by
  obtain ⟨_, batch, front, rfl⟩ := of_collect steps
  refine ⟨ordered.ascending, fun collected worker => ?_, fun _ _ worker => nomatch worker⟩
  cases worker
  exact front

theorem Ordered.write (ordered : q.Ordered) (steps : q.write f = some q') : q'.Ordered := by
  obtain ⟨first, rest, file, worker, _, _, rfl⟩ := of_write steps
  refine ⟨ordered.ascending, fun _ idle => (nomatch idle), fun fromIdx toIdx written item member low => ?_⟩
  obtain ⟨later, split⟩ := ordered.collected _ worker
  have parts : item ∈ first :: rest ∨ item ∈ later := by
    rw [← List.mem_append, split]
    exact member
  rcases parts with inBatch | after
  · exact List.mem_append_right _ inBatch
  · -- behind the batch every index is above its last one
    have ascending := ordered.ascending
    rw [← split] at ascending
    have last : (first :: rest).getLastD first ∈ first :: rest := by
      rw [List.getLastD_eq_getLast?, List.getLast?_eq_getLast_of_ne_nil (List.cons_ne_nil _ _)]
      exact List.getLast_mem _
    have above := (List.pairwise_append.mp ascending).2.2 _ last _ after
    injection written with _ sameTo
    omega

theorem Ordered.mark (ordered : q.Ordered) (steps : q.mark = some q') : q'.Ordered := by
  obtain ⟨_, _, _, rfl⟩ := of_mark steps
  exact ⟨ordered.ascending.sublist (List.dropWhile_sublist _), fun _ idle => (nomatch idle),
    fun _ _ idle => (nomatch idle)⟩

theorem Ordered.step {l : Label} (ordered : q.Ordered) (turn : q.inTurn l) (steps : q.step f l = some q') :
    q'.Ordered := by
  cases l with
  | push entry index =>
    cases steps
    exact ordered.push turn
  | truncateFrom idx =>
    cases steps
    exact ordered.truncateFrom turn
  | collect => exact ordered.collect steps
  | write => exact ordered.write steps
  | mark => exact ordered.mark steps

theorem ordered_start (file : FileStorage) : (start file).Ordered :=
  ⟨List.Pairwise.nil, fun _ idle => (nomatch idle), fun _ _ idle => (nomatch idle)⟩

theorem of_dropped {α : Type} {p : α → Bool} {item : α} {items : List α} (member : item ∈ items)
    (gone : item ∉ items.dropWhile p) : p item = true := by
  have parts : item ∈ items.takeWhile p ∨ item ∈ items.dropWhile p := by
    rw [← List.mem_append, List.takeWhile_append_dropWhile]
    exact member
  exact List.mem_takeWhile_imp (parts.resolve_right gone)

end Ordered

/-- In every run whose steps are in turn, an item leaves the queue only by a truncation from its index or from
below, or after it was handed to `PersistEntries` itself. -/
theorem leaves_truncated_or_passed {f : StorageFormat} {file : FileStorage} {q q' : PersistQueue} {l : Label}
    {item : PersistItem} (reach : Steps.Reach (step f) inTurn (start file) q) (steps : q.step f l = some q')
    (member : item ∈ q.queue) (gone : item ∉ q'.queue) :
    (∃ idx, l = .truncateFrom idx ∧ idx ≤ item.index) ∨ item ∈ q.passed := by
  have ordered : q.Ordered :=
    reach.holds (ordered_start file) fun _ _ _ ordered turn steps => ordered.step turn steps
  cases l with
  | push entry index =>
    cases steps
    exact absurd (List.mem_append_left _ member) gone
  | truncateFrom idx =>
    cases steps
    have high := of_dropped (p := fun item : PersistItem => decide (idx ≤ item.index)) member gone
    exact .inl ⟨idx, rfl, of_decide_eq_true high⟩
  | collect =>
    obtain ⟨_, _, _, rfl⟩ := of_collect steps
    exact absurd member gone
  | write =>
    obtain ⟨_, _, _, _, _, _, rfl⟩ := of_write steps
    exact absurd member gone
  | mark =>
    obtain ⟨fromIdx, toIdx, written, rfl⟩ := of_mark steps
    have low := of_dropped (p := fun item : PersistItem => decide (item.index ≤ toIdx)) member gone
    exact .inr (ordered.written fromIdx toIdx written item member (of_decide_eq_true low))

/-- Two entries are pushed and truncated; what takes the place of the first is collected and written. -/
def rewrittenFirst : PersistQueue :=
  (Steps.exec (step bareFormat) inTurn (start (.openNew bareFormat [0, 0, 0, 0]))
    [.push (bareEntry 1 1) 1, .push (bareEntry 1 2) 2, .truncateFrom 1, .push (bareEntry 2 1) 1, .collect,
      .push (bareEntry 2 2) 2, .write]).get (by decide +kernel)

/-- What takes the place of the first entry. -/
def rewrittenItem : PersistItem := { address := 2, index := 1, term := 2, entry := bareEntry 2 1 }

theorem leaves_truncated_or_passed_rewrittenFirst :
    (∃ idx, Label.mark = .truncateFrom idx ∧ idx ≤ rewrittenItem.index) ∨ rewrittenItem ∈ rewrittenFirst.passed := by
  have marks : (rewrittenFirst.step bareFormat .mark).isSome := by decide +kernel
  have member : rewrittenItem ∈ rewrittenFirst.queue := by decide +kernel
  have gone : rewrittenItem ∉ ((rewrittenFirst.step bareFormat .mark).get (by decide +kernel)).queue := by
    decide +kernel
  exact leaves_truncated_or_passed (Steps.Reach.of_get _) (Option.some_get marks).symm member gone

/-- An entry is written, then truncated and replaced before the worker marks it. -/
def replacedBeforeMark : PersistQueue :=
  (Steps.exec (step bareFormat) (fun _ _ => True) (start (.openNew bareFormat [0, 0, 0, 0]))
    [.push (bareEntry 1 1) 1, .collect, .write, .truncateFrom 1, .push (bareEntry 2 1) 1]).get (by decide +kernel)

/-- `MarkPersisted` then takes the replacement, which nobody wrote. -/
theorem marked_item_not_passed : ∃ (q' : PersistQueue) (item : PersistItem),
    Steps.Reach (step bareFormat) (fun _ _ => True) (start (.openNew bareFormat [0, 0, 0, 0])) replacedBeforeMark ∧
    replacedBeforeMark.step bareFormat .mark = some q' ∧ item ∈ replacedBeforeMark.queue ∧ item ∉ q'.queue ∧
    ∀ other ∈ replacedBeforeMark.passed, ¬ (other.index = item.index ∧ other.term = item.term) :=
  ⟨(replacedBeforeMark.step bareFormat .mark).get (by decide +kernel),
    { address := 1, index := 1, term := 2, entry := bareEntry 2 1 }, Steps.Reach.of_get _, (Option.some_get _).symm,
    by decide +kernel, by decide +kernel, by decide +kernel⟩

section Truncation

variable {q : PersistQueue} {items : List PersistItem} {idx : Nat}

/-- In a queue ordered by index the loop finds exactly what the queue holds. -/
theorem isUnpersistedIn_iff (ascending : items.Pairwise fun a b => a.index < b.index) :
    isUnpersistedIn idx items = true ↔ ∃ item ∈ items, item.index = idx := by
  induction items with
  | nil => exact ⟨fun found => absurd found Bool.false_ne_true, fun ⟨_, member, _⟩ => (nomatch member)⟩
  | cons first rest ih =>
    obtain ⟨behind, ascending⟩ := List.pairwise_cons.mp ascending
    rw [isUnpersistedIn, List.exists_mem_cons_iff]
    split
    · rename_i here
      exact ⟨fun _ => .inl here, fun _ => rfl⟩
    · rename_i other
      split
      · rename_i past
        -- the loop stops early: everything behind is higher still
        refine ⟨fun found => absurd found Bool.false_ne_true, ?_⟩
        rintro (here | ⟨item, member, here⟩)
        · exact absurd here other
        · have := behind item member
          omega
      · rw [ih ascending]
        exact ⟨.inr, fun found => found.resolve_left other⟩

/-- A queue that begins at `idx` or above is emptied, and one that ends below stays. -/
theorem truncateFrom_queue (unmixed : (∀ item ∈ q.queue, idx ≤ item.index) ∨ ∀ item ∈ q.queue, item.index < idx) :
    (q.truncateFrom idx).queue = q.queue.filter fun item => decide (item.index < idx) := by
  rcases unmixed with high | low
  · have dropped : (q.truncateFrom idx).queue = [] :=
      List.dropWhile_eq_nil_iff.mpr fun item member => decide_eq_true (high item member)
    rw [dropped, eq_comm, List.filter_eq_nil_iff]
    intro item member
    have := high item member
    simp only [decide_eq_true_eq]
    omega
  · rw [List.filter_eq_self.mpr fun item member => decide_eq_true (low item member)]
    refine List.dropWhile_eq_self_iff.mpr fun nonempty => ?_
    have := low _ (List.getElem_mem nonempty)
    simp only [decide_eq_true_eq]
    omega

end Truncation

/-- `TruncateFrom` leaves exactly the items below the index, in their order, if and only if the queue does not
reach from below the index to the index or above. -/
theorem truncateFrom_exact_iff (q : PersistQueue) (idx : Nat)
    (ascending : q.queue.Pairwise fun a b => a.index < b.index) :
    ((q.truncateFrom idx).queue = (q.queue.filter fun item => decide (item.index < idx)) ∧
      (∀ j, idx ≤ j → (q.truncateFrom idx).isUnpersisted j = false) ∧
      ∀ j, j < idx → (q.truncateFrom idx).isUnpersisted j = q.isUnpersisted j) ↔
    (∀ item ∈ q.queue, idx ≤ item.index) ∨ ∀ item ∈ q.queue, item.index < idx := by
  have ordered : (q.truncateFrom idx).queue.Pairwise fun a b => a.index < b.index :=
    ascending.sublist (List.dropWhile_sublist _)
  constructor
  · rintro ⟨left, _⟩
    cases items : q.queue with
    | nil => exact .inl fun item member => (nomatch member)
    | cons first rest =>
      rw [items] at ascending
      by_cases high : idx ≤ first.index
      · refine .inl fun item member => ?_
        rcases List.mem_cons.mp member with rfl | later
        · exact high
        · have := (List.pairwise_cons.mp ascending).1 item later
          omega
      · -- the front stays, so nothing goes at all
        have kept : (q.truncateFrom idx).queue = first :: rest := by
          change q.queue.dropWhile (fun item => decide (idx ≤ item.index)) = _
          rw [items, List.dropWhile_cons_of_neg (by simpa using high)]
        rw [kept, items] at left
        exact .inr fun item member => of_decide_eq_true (List.filter_eq_self.mp left.symm item member)
  · intro unmixed
    have left := truncateFrom_queue unmixed
    refine ⟨left, fun j high => ?_, fun j low => ?_⟩
    · refine Bool.eq_false_iff.mpr fun found => ?_
      obtain ⟨item, member, index⟩ := (isUnpersistedIn_iff ordered).mp found
      rw [left, List.mem_filter, decide_eq_true_eq] at member
      omega
    · rw [Bool.eq_iff_iff]
      refine (isUnpersistedIn_iff ordered).trans (Iff.trans ?_ (isUnpersistedIn_iff ascending).symm)
      simp only [left, List.mem_filter, decide_eq_true_eq]
      constructor
      · rintro ⟨item, ⟨member, _⟩, index⟩
        exact ⟨item, member, index⟩
      · rintro ⟨item, member, index⟩
        exact ⟨item, ⟨member, by omega⟩, index⟩

/-- Two entries wait to be written. -/
def twoWaiting : PersistQueue :=
  ((start (.openNew bareFormat [0, 0, 0, 0])).push (bareEntry 1 1) 1).push (bareEntry 1 2) 2

theorem truncateFrom_exact_iff_twoWaiting :
    ((twoWaiting.truncateFrom 1).queue = (twoWaiting.queue.filter fun item => decide (item.index < 1)) ∧
      (∀ j, 1 ≤ j → (twoWaiting.truncateFrom 1).isUnpersisted j = false) ∧
      ∀ j, j < 1 → (twoWaiting.truncateFrom 1).isUnpersisted j = twoWaiting.isUnpersisted j) ↔
    (∀ item ∈ twoWaiting.queue, 1 ≤ item.index) ∨ ∀ item ∈ twoWaiting.queue, item.index < 1 :=
  truncateFrom_exact_iff twoWaiting 1 (by decide +kernel)

/-- Truncation from the second leaves both: the loop looks at the front, where the first entry stands. -/
theorem truncateFrom_keeps_both : (twoWaiting.queue.Pairwise fun a b => a.index < b.index) ∧
    (twoWaiting.truncateFrom 2).queue = twoWaiting.queue ∧
    (twoWaiting.queue.filter fun item => decide (item.index < 2)) ≠ twoWaiting.queue ∧
    (twoWaiting.truncateFrom 2).isUnpersisted 2 = true := by
  decide +kernel

end PersistQueue

end FlexRaft
