import FlexRaft.Lib.RingBuffer
import FlexRaft.Lib.Steps

namespace FlexRaft

/-- The thread that calls `Push` and the one that calls `Pop` or `TryPop`. -/
inductive Side
  | producer | consumer
  deriving DecidableEq

def Side.other : Side → Side
  | .producer => .consumer
  | .consumer => .producer

/-- The size at which the thread waits. -/
def Side.limit (capacity : Nat) : Side → Nat
  | .producer => capacity
  | .consumer => 0

/-- Where a thread is: before its own mutex, before the test of `size_`, before and in the wait, before the access to
`elems`, before the atomic addition, before the mutex of the other thread, before `notify_all`, and before its return. -/
inductive Pc
  | idle | locks | tests | parks | waits | accesses | counts | crosses | notifies | leaves
  deriving DecidableEq

/-- The thread holds its own mutex, `enq_mtx` of the producer and `deq_mtx` of the consumer. -/
def Pc.inside : Pc → Bool
  | .idle | .locks | .waits => false
  | _ => true

/-- A thread has moved its index and has not counted the element yet. -/
def Pc.uncounted : Pc → Nat
  | .counts => 1
  | _ => 0

/-- With the element of the `Push` call, whether the consumer's call is a `TryPop`, and what has been pushed and received.
A thread before `notify_all` holds both mutexes. -/
structure ConcurrentQueue (α : Type) where
  elems : RingBuffer α
  size : Nat := 0
  head : Nat := 0
  tail : Nat := 0
  pc : Side → Pc := fun _ => .idle
  ent : α
  tries : Bool := false
  pushed : List α := []
  received : List α := []

namespace ConcurrentQueue

variable {α : Type}

/-- The array is not initialised. -/
def create (capacity : Nat) (junk : Nat → α) : ConcurrentQueue α :=
  { elems := { capacity, array := junk }, ent := junk 0 }

def go (q : ConcurrentQueue α) (side : Side) (pc : Pc) : ConcurrentQueue α :=
  { q with pc := Function.update q.pc side pc }

@[simp] theorem go_self (q : ConcurrentQueue α) (side : Side) (pc : Pc) : (q.go side pc).pc side = pc :=
  Function.update_self ..

/-- `tail_ + 1` and `head_ + 1` are sums of `int`s. -/
def access (q : ConcurrentQueue α) : Side → Option (ConcurrentQueue α)
  | .producer =>
    if q.tail + 1 < 2 ^ 31 then
      some { q with elems := q.elems.write q.tail q.ent, tail := q.elems.next q.tail, pushed := q.pushed ++ [q.ent] }
    else none
  | .consumer =>
    if q.head + 1 < 2 ^ 31 then
      some { q with head := q.elems.next q.head, received := q.received ++ [q.elems.array q.head] }
    else none

/-- `fetch_add` or `fetch_sub`. -/
def count (q : ConcurrentQueue α) : Side → ConcurrentQueue α
  | .producer => { q with size := q.size + 1 }
  | .consumer => { q with size := q.size - 1 }

def wake (q : ConcurrentQueue α) (side : Side) : ConcurrentQueue α :=
  q.go side (if q.pc side = .waits then .locks else q.pc side)

/-- The next step of `Push`, `Pop` and `TryPop`, which is none while the thread has to wait. -/
def run (q : ConcurrentQueue α) (side : Side) : Option (ConcurrentQueue α) :=
  match q.pc side with
  | .idle | .waits => none
  | .locks => if q.pc side.other = .notifies then none else some (q.go side .tests)
  | .tests =>
    if q.size ≠ side.limit q.elems.capacity then some (q.go side .accesses)
    else some (q.go side (if side = .consumer ∧ q.tries then .leaves else .parks))
  | .parks => some (q.go side .waits)
  | .accesses => (q.access side).map (·.go side .counts)
  | .counts => some ((q.count side).go side (if q.size = side.other.limit q.elems.capacity then .crosses else .leaves))
  | .crosses => if (q.pc side.other).inside then none else some (q.go side .notifies)
  | .notifies => some ((q.wake side.other).go side .leaves)
  | .leaves => some (q.go side .idle)

/-- `wake`: a condition variable may wake a thread that nobody has notified. -/
inductive Label (α : Type)
  | push (ent : α)
  | pop (tries : Bool)
  | run (side : Side)
  | wake (side : Side)

def step (q : ConcurrentQueue α) : Label α → Option (ConcurrentQueue α)
  | .push ent => if q.pc .producer = .idle then some ({ q with ent }.go .producer .locks) else none
  | .pop tries => if q.pc .consumer = .idle then some ({ q with tries }.go .consumer .locks) else none
  | .run side => q.run side
  | .wake side => some (q.wake side)

def Blocked (q : ConcurrentQueue α) (side : Side) : Prop :=
  q.pc side = .waits ∨ q.pc side = .locks ∧ q.pc side.other = .notifies ∨
    q.pc side = .crosses ∧ (q.pc side.other).inside = true

/-- What has been received has been pushed, in the same order, and what is left is in the queue. No sum overflows, some
thread can go on, and if one of them is between its calls, the other waits for it only at its limit. -/
structure Sound (q : ConcurrentQueue α) : Prop where
  fifo : ∃ left, q.pushed = q.received ++ left ∧ ((∀ side, q.pc side = .idle) → left.length = q.size)
  defined : ∀ side, q.pc side = .accesses → (q.access side).isSome
  live : ∃ side, ¬ q.Blocked side
  woken : ∀ side, q.pc side.other = .idle → q.Blocked side → q.size = side.limit q.elems.capacity

section Control

variable {side : Side} {pc : Pc} {capacity size : Nat} {pcs : Side → Pc}

/-- What the place of a thread says about the size and the place of the other one. -/
def Fits (capacity size : Nat) (side : Side) (mine theirs : Pc) : Prop :=
  match mine with
  | .accesses | .counts => size ≠ side.limit capacity
  | .parks | .waits => size = side.limit capacity ∨ theirs = .crosses ∨ theirs = .notifies
  | .crosses => theirs ≠ .crosses ∧ size ≤ side.other.limit capacity + 1 ∧ side.other.limit capacity ≤ size + 1
  | .notifies => theirs.inside = false
  | _ => True

/-- No two threads wait for the mutexes of each other, and a thread that waits at another size is about to be notified. -/
structure Control (capacity size : Nat) (pcs : Side → Pc) : Prop where
  enough : 2 ≤ capacity
  bound : size ≤ capacity
  fits : ∀ side, Fits capacity size side (pcs side) (pcs side.other)

theorem other_other (side : Side) : side.other.other = side := by
  cases side <;> rfl

theorem Control.fits_other (control : Control capacity size pcs) (side : Side) :
    Fits capacity size side.other (pcs side.other) (pcs side) := by
  have fits := control.fits side.other
  rwa [other_other] at fits

theorem Control.update (enough : 2 ≤ capacity) (bound : size ≤ capacity) (mine : Fits capacity size side pc (pcs side.other))
    (theirs : Fits capacity size side.other (pcs side.other) pc) : Control capacity size (Function.update pcs side pc) := by
  refine ⟨enough, bound, ?_⟩
  cases side <;> rintro (_ | _) <;> assumption

/-- Where a thread goes before its atomic addition and behind `notify_all` does not matter to the other one. -/
theorem Control.quiet (control : Control capacity size pcs) (quiet : pcs side ≠ .crosses ∧ pcs side ≠ .notifies)
    (silent : pc ≠ .crosses) (outside : pcs side.other = .notifies → (pcs side).inside = false → pc.inside = false)
    (mine : Fits capacity size side pc (pcs side.other)) : Control capacity size (Function.update pcs side pc) := by
  refine .update control.enough control.bound mine ?_
  have fits := control.fits_other side
  cases at_other : pcs side.other <;> simp_all [Fits]

/-- The addition that moves the size off the limit of the other thread leads to its mutex. With two slots the other
thread is not on its way to the mutex of this one then. -/
theorem Control.count (control : Control capacity size pcs) (counts : pcs side = .counts) {size' : Nat}
    (counted : side = .producer ∧ size' = size + 1 ∨ side = .consumer ∧ size' = size - 1) :
    Control capacity size' (Function.update pcs side (if size = side.other.limit capacity then .crosses else .leaves)) := by
  have enough := control.enough
  have bound := control.bound
  have mine := control.fits side
  have theirs := control.fits_other side
  rw [counts] at mine theirs
  cases at_other : pcs side.other <;> rw [at_other] at theirs <;> rcases counted with ⟨rfl, rfl⟩ | ⟨rfl, rfl⟩
  all_goals
    refine .update enough ?_ ?_ ?_ <;> grind [Fits, Side.limit, Side.other, Pc.inside]

end Control

section Invariant

variable {q q' : ConcurrentQueue α} {side : Side} {pc : Pc} {left : List α}

/-- The ring holds what has been pushed and not received. -/
structure Inv (q : ConcurrentQueue α) (left : List α) : Prop where
  control : Control q.elems.capacity q.size q.pc
  small : q.elems.capacity < 2 ^ 31
  start : q.head < q.elems.capacity
  order : q.pushed = q.received ++ left
  holds : q.elems.Holds q.head left
  tail : q.tail = q.elems.slot q.head left.length
  counted : left.length + (q.pc .consumer).uncounted = q.size + (q.pc .producer).uncounted

theorem Inv.go (inv : q.Inv left) (control : Control q.elems.capacity q.size (Function.update q.pc side pc))
    (same : pc.uncounted = (q.pc side).uncounted) : (q.go side pc).Inv left := by
  refine { inv with control, counted := ?_ }
  have counted := inv.counted
  cases side <;> simp_all [ConcurrentQueue.go]

theorem Inv.quiet {old : Pc} (inv : q.Inv left) (at_side : q.pc side = old)
    (outside : q.pc side.other = .notifies → old.inside = false → pc.inside = false)
    (mine : Fits q.elems.capacity q.size side pc (q.pc side.other))
    (plain : old ≠ .crosses ∧ old ≠ .notifies ∧ pc ≠ .crosses ∧ pc.uncounted = old.uncounted := by decide) :
    (q.go side pc).Inv left := by
  subst at_side
  obtain ⟨notCrosses, notNotifies, silent, same⟩ := plain
  exact inv.go (inv.control.quiet ⟨notCrosses, notNotifies⟩ silent outside mine) same

theorem Inv.wake (inv : q.Inv left) (side : Side) : (q.wake side).Inv left := by
  unfold ConcurrentQueue.wake
  split
  · exact inv.quiet ‹_› (fun _ _ => rfl) trivial
  · exact inv.go (by rw [Function.update_eq_self]; exact inv.control) rfl

theorem Inv.access (inv : q.Inv left) (accesses : q.pc side = .accesses) :
    ∃ q' left', q.access side = some q' ∧ (q'.go side .counts).Inv left' := by
  have room := inv.control.fits side
  have counted := inv.counted
  have start := inv.start
  have small := inv.small
  rw [accesses] at room
  have control : Control q.elems.capacity q.size (Function.update q.pc side .counts) :=
    inv.control.quiet (by simp [accesses]) nofun (by simp [accesses, Pc.inside]) room
  cases side with
  | producer =>
    rw [accesses] at counted
    have bound := inv.control.bound
    change q.size ≠ q.elems.capacity at room
    change _ = q.size + 0 at counted
    have below : q.tail < q.elems.capacity := by
      rw [inv.tail]
      exact Nat.mod_lt _ (Nat.zero_lt_of_lt start)
    refine ⟨_, left ++ [q.ent], if_pos (by omega), control, small, start, ?_, ?_, ?_, ?_⟩
    · exact (congrArg (· ++ [q.ent]) inv.order).trans (List.append_assoc _ _ _)
    · have pushed := inv.holds.push (by omega) q.ent
      rwa [← inv.tail] at pushed
    · rw [List.length_append]
      exact (congrArg q.elems.next inv.tail).trans (q.elems.next_slot _ _)
    · change (left ++ [q.ent]).length + (q.pc .consumer).uncounted = q.size + 1
      rw [List.length_append, Nat.add_right_comm, counted]
      rfl
  | consumer =>
    rw [accesses] at counted
    change q.size ≠ 0 at room
    cases left with
    | nil => exact absurd counted (by simp [Pc.uncounted]; omega)
    | cons a rest =>
      obtain ⟨first, holds⟩ := inv.holds.pop start
      refine ⟨_, rest, if_pos (by omega), control, small, Nat.mod_lt _ (by omega), ?_, holds, ?_, counted⟩
      · change _ = q.received ++ [q.elems.array q.head] ++ rest
        rw [first, List.append_assoc]
        exact inv.order
      · exact inv.tail.trans (q.elems.slot_next _ _).symm

theorem Inv.count (inv : q.Inv left) (counts : q.pc side = .counts) :
    ((q.count side).go side (if q.size = side.other.limit q.elems.capacity then .crosses else .leaves)).Inv left := by
  have room := inv.control.fits side
  have counted := inv.counted
  have none (p : Prop) [Decidable p] : (if p then Pc.crosses else .leaves).uncounted = 0 := by split <;> rfl
  rw [counts] at room
  cases side <;> rw [counts] at counted
  all_goals
    refine { inv with control := inv.control.count counts (by simp [ConcurrentQueue.count, ConcurrentQueue.go])
                      counted := ?_ }
    simp only [Fits, Side.limit] at room
    simp only [show Pc.counts.uncounted = 1 from rfl] at counted
    simp [ConcurrentQueue.count, ConcurrentQueue.go, none]
    omega

theorem Inv.notify (inv : q.Inv left) (notifies : q.pc side = .notifies) : ((q.wake side.other).go side .leaves).Inv left := by
  have woken := inv.wake side.other
  have kept : (q.wake side.other).pc side = .notifies :=
    (Function.update_of_ne (by cases side <;> decide) _ _).trans notifies
  have awake : (q.wake side.other).pc side.other ≠ .waits := by
    rw [ConcurrentQueue.wake, go_self]
    split
    · nofun
    · exact ‹_›
  have outside := woken.control.fits side
  rw [kept] at outside
  refine woken.go (.update woken.control.enough woken.control.bound trivial ?_) (by rw [kept]; rfl)
  cases at_other : (q.wake side.other).pc side.other <;> simp_all [Fits, Pc.inside]

theorem Inv.run (inv : q.Inv left) (runs : q.run side = some q') : ∃ left', q'.Inv left' := by
  have mine := inv.control.fits side
  have theirs := inv.control.fits_other side
  unfold ConcurrentQueue.run at runs
  split at runs
  case h_1 | h_2 => cases runs
  case h_3 locks =>
    obtain ⟨free, same⟩ := Option.ite_none_left_eq_some.mp runs
    cases same
    exact ⟨left, inv.quiet locks (fun notifies => absurd notifies free) trivial⟩
  case h_4 tests =>
    split at runs
    · cases runs
      exact ⟨left, inv.quiet tests (fun _ => nofun) ‹_›⟩
    · rename_i full
      cases runs
      split
      · exact ⟨left, inv.quiet tests (fun _ => nofun) trivial⟩
      · exact ⟨left, inv.quiet tests (fun _ => nofun) (Or.inl (not_not.mp full))⟩
  case h_5 parks =>
    cases runs
    rw [parks] at mine
    exact ⟨left, inv.quiet parks (fun _ _ => rfl) mine⟩
  case h_6 accesses =>
    obtain ⟨mid, left', done, moved⟩ := inv.access accesses
    rw [done] at runs
    cases runs
    exact ⟨left', moved⟩
  case h_7 counts =>
    cases runs
    exact ⟨left, inv.count counts⟩
  case h_8 crosses =>
    obtain ⟨free, same⟩ := Option.ite_none_left_eq_some.mp runs
    cases same
    rw [crosses] at theirs
    refine ⟨left, inv.go (.update inv.control.enough inv.control.bound (Bool.eq_false_of_not_eq_true free) ?_)
      (by rw [crosses]; rfl)⟩
    cases at_other : q.pc side.other <;> simp_all [Fits, Pc.inside]
  case h_9 notifies =>
    cases runs
    exact ⟨left, inv.notify notifies⟩
  case h_10 leaves =>
    cases runs
    exact ⟨left, inv.quiet leaves (fun _ _ => rfl) trivial⟩

theorem Inv.step {l : Label α} (inv : q.Inv left) (steps : q.step l = some q') : ∃ left', q'.Inv left' := by
  cases l with
  | push | pop =>
    obtain ⟨idle, same⟩ := Option.ite_none_right_eq_some.mp steps
    cases same
    exact ⟨left, Inv.quiet { inv with } idle (fun _ _ => rfl) trivial⟩
  | run => exact inv.run steps
  | wake side =>
    cases steps
    exact ⟨left, inv.wake side⟩

theorem Inv.sound (inv : q.Inv left) : q.Sound where
  fifo := by
    refine ⟨left, inv.order, fun idle => ?_⟩
    have counted := inv.counted
    rwa [idle, idle] at counted
  defined := by
    intro side accesses
    obtain ⟨q', left', done, -⟩ := inv.access accesses
    rw [done]
    rfl
  live := by
    have enough := inv.control.enough
    have producer := inv.control.fits .producer
    have consumer := inv.control.fits .consumer
    by_contra! blocked
    rcases blocked .producer with p | p | p <;> rcases blocked .consumer with c | c | c <;>
      simp_all [Fits, Side.other, Side.limit, Pc.inside]
  woken := by
    intro side idle blocked
    have fits := inv.control.fits side
    rcases blocked with waits | locks | crosses
    · rw [waits, idle] at fits
      simpa [Fits] using fits
    · simp [idle] at locks
    · simp [idle, Pc.inside] at crosses

theorem inv_create {capacity : Nat} (enough : 2 ≤ capacity) (small : capacity < 2 ^ 31) (junk : Nat → α) :
    (create capacity junk).Inv [] where
  control := ⟨enough, Nat.zero_le _, fun _ => trivial⟩
  small := small
  start := Nat.zero_lt_of_lt enough
  order := rfl
  holds := .nil _ _
  tail := (Nat.zero_mod _).symm
  counted := rfl

end Invariant

/-- In every interleaving. -/
def Reach : ConcurrentQueue α → ConcurrentQueue α → Prop := Steps.Reach step fun _ _ => True

/-- One slot: both threads change the size between empty and full and go for the mutexes of each other. -/
def crossedRun (junk : Nat → α) : Option (ConcurrentQueue α) :=
  Steps.exec step (fun _ _ => True) (create 1 junk) ([.push (junk 0)] ++ List.replicate 4 (.run .producer) ++
    [.pop false] ++ List.replicate 4 (.run .consumer))

/-- The queue is a deadlock-free FIFO in every interleaving exactly if it has more than one slot. -/
theorem sound_iff {capacity : Nat} (positive : 0 < capacity) (small : capacity < 2 ^ 31) (junk : Nat → α) :
    (∀ q, Reach (create capacity junk) q → q.Sound) ↔ 2 ≤ capacity := by
  refine ⟨fun sound => ?_, fun enough q reach => ?_⟩
  · by_contra one
    obtain rfl : capacity = 1 := by omega
    obtain ⟨side, free⟩ := (sound _ (.of_get (rfl : (crossedRun junk).isSome))).live
    cases side <;> exact free (Or.inr (Or.inr ⟨rfl, rfl⟩))
  · obtain ⟨left, inv⟩ := reach.holds (P := fun q => ∃ left, q.Inv left) ⟨[], inv_create enough small junk⟩
      fun _ _ _ ⟨_, inv⟩ _ steps => inv.step steps
    exact inv.sound

theorem sound_iff_two : (create 2 fun i => i).size = 0 ∧ ∀ q, Reach (create 2 fun i => i) q → q.Sound :=
  ⟨rfl, (sound_iff (by decide) (by decide) _).mpr le_rfl⟩

end ConcurrentQueue

end FlexRaft
