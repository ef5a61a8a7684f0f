import Mathlib.Logic.Function.Basic
import FlexRaft.Lib.Steps

namespace FlexRaft

/-- A thread is in no `push`, about to look at the queue under `mu_`, or waits for room. -/
inductive Producer (α : Type)
  | idle
  | looks (m : α)
  | waits (m : α)

/-- Any number of threads push. What is done under `mu_` is one step. `pushed` and `drained` are not in the code. -/
structure Mailbox (α : Type) where
  maxCapacity : Nat
  q : List α := []
  producers : Nat → Producer α := fun _ => .idle
  pushed : List α := []
  drained : List α := []

namespace Mailbox

variable {α : Type} {b b' : Mailbox α} {i : Nat}

def Waits (b : Mailbox α) (i : Nat) : Prop := ∃ m, b.producers i = .waits m

def set (b : Mailbox α) (i : Nat) (p : Producer α) : Mailbox α := { b with producers := Function.update b.producers i p }

def wake (b : Mailbox α) (i : Nat) : Mailbox α :=
  match b.producers i with
  | .waits m => b.set i (.looks m)
  | _ => b

/-- `notify_one` wakes some thread that waits, and a thread may wake up by itself. -/
inductive Label (α : Type)
  | push (i : Nat) (m : α)
  | look (i : Nat)
  | drain (maxBatch : Nat) (woken : Option Nat)
  | wake (i : Nat)

def step (b : Mailbox α) : Label α → Option (Mailbox α)
  | .push i m => match b.producers i with
    | .idle => some (b.set i (.looks m))
    | _ => none
  | .look i => match b.producers i with
    | .looks m =>
      if 0 < b.maxCapacity ∧ b.maxCapacity ≤ b.q.length then some (b.set i (.waits m))
      else some ({ b with q := b.q ++ [m], pushed := b.pushed ++ [m] }.set i .idle)
    | _ => none
  | .drain maxBatch woken =>
    let rest := { b with q := b.q.drop maxBatch, drained := b.drained ++ b.q.take maxBatch }
    if 0 < b.maxCapacity ∧ 0 < (b.q.take maxBatch).length then some (woken.elim rest rest.wake) else some rest
  | .wake i => some (b.wake i)

/-- One of the threads that wait is notified, if there are any. -/
def notifiesOne (b : Mailbox α) : Label α → Prop
  | .drain _ (some i) => b.Waits i
  | .drain _ none => ∀ i, ¬ b.Waits i
  | _ => True

/-- Messages come out in the order in which they went in, and none is lost. A thread waits only while there is something
to drain, or another one is about to look. -/
structure Sound (b : Mailbox α) : Prop where
  bounded : 0 < b.maxCapacity
  bound : b.q.length ≤ b.maxCapacity
  order : b.pushed = b.drained ++ b.q
  live : ∀ i, b.Waits i → b.q ≠ [] ∨ ∃ j m, b.producers j = .looks m

theorem Sound.set_looks (sound : b.Sound) (i : Nat) (m : α) : (b.set i (.looks m)).Sound :=
  { sound with live := fun _ _ => Or.inr ⟨i, m, Function.update_self ..⟩ }

theorem Sound.wake (sound : b.Sound) (i : Nat) : (b.wake i).Sound := by
  unfold Mailbox.wake
  split
  · exact sound.set_looks i _
  · exact sound

theorem Sound.look (sound : b.Sound) (steps : b.step (.look i) = some b') : b'.Sound := by
  simp only [Mailbox.step] at steps
  split at steps
  · split at steps <;> cases steps
    · rename_i full
      have some : b.q ≠ [] := List.ne_nil_of_length_pos (by omega)
      exact { sound with live := fun _ _ => Or.inl some }
    · rename_i m _ room
      have bounded := sound.bounded
      have bound : (b.q ++ [m]).length ≤ b.maxCapacity := by
        rw [List.length_append, List.length_singleton]
        omega
      refine ⟨bounded, bound, ?_, fun _ _ => Or.inl (List.append_ne_nil_of_right_ne_nil _ (List.cons_ne_nil _ _))⟩
      exact (congrArg (· ++ [m]) sound.order).trans (List.append_assoc _ _ _)
  · cases steps

theorem Sound.drain {k : Nat} {woken : Option Nat} (sound : b.Sound) (one : b.notifiesOne (.drain k woken))
    (steps : b.step (.drain k woken) = some b') : b'.Sound := by
  have order : b.pushed = b.drained ++ b.q.take k ++ b.q.drop k := by
    rw [List.append_assoc, List.take_append_drop]
    exact sound.order
  have bound : (b.q.drop k).length ≤ b.maxCapacity := by
    have before := sound.bound
    rw [List.length_drop]
    omega
  simp only [Mailbox.step] at steps
  split at steps <;> cases steps
  · cases woken with
    | none => exact ⟨sound.bounded, bound, order, fun j waits => absurd waits (one j)⟩
    | some i =>
      obtain ⟨m, at_i⟩ := one
      simp only [Option.elim, Mailbox.wake, at_i]
      exact ⟨sound.bounded, bound, order, fun _ _ => Or.inr ⟨i, m, Function.update_self ..⟩⟩
  · rename_i nothing
    have same : b.q.drop k = b.q := by
      have none : (b.q.take k).length = 0 := by
        have bounded := sound.bounded
        omega
      have parts := List.take_append_drop k b.q
      rwa [List.length_eq_zero_iff.mp none] at parts
    refine ⟨sound.bounded, bound, order, fun j waits => ?_⟩
    rw [same]
    exact sound.live j waits

/-- In every interleaving of any number of producers and consumers. -/
theorem fifo_without_stall {capacity : Nat} (bounded : 0 < capacity)
    (reach : Steps.Reach step notifiesOne { maxCapacity := capacity } b) : b.Sound := by
  refine reach.holds (P := Sound) ⟨bounded, Nat.zero_le _, rfl, fun i waits => by cases waits.choose_spec⟩ ?_
  intro b l b' sound one steps
  cases l with
  | push i m =>
    simp only [step] at steps
    split at steps <;> cases steps
    exact sound.set_looks i m
  | look => exact sound.look steps
  | drain => exact sound.drain one steps
  | wake i =>
    cases steps
    exact sound.wake i

theorem fifo_without_stall_first : ∃ b : Mailbox Nat, b.q = [7] ∧ b.Sound :=
  ⟨_, rfl, fifo_without_stall Nat.one_pos
    (.next (.next .refl (l := .push 0 7) trivial rfl) (l := .look 0) trivial rfl)⟩

end Mailbox

end FlexRaft
