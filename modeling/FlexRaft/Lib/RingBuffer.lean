import Mathlib.Data.Int.ModEq
import Mathlib.Data.List.Basic

/-- An array of `capacity` slots that is used as a ring. -/
structure RingBuffer (α : Type) where
  capacity : Nat
  array : Nat → α

namespace RingBuffer

variable {α : Type}

/-- The slot that lies `j` slots behind `front`. -/
def slot (b : RingBuffer α) (front j : Nat) : Nat := (front + j) % b.capacity

def next (b : RingBuffer α) (i : Nat) : Nat := (i + 1) % b.capacity

/-- The slot before. The capacity is added first, so that nothing gets negative. -/
def previous (b : RingBuffer α) (i : Nat) : Nat := (i + b.capacity - 1) % b.capacity

def write (b : RingBuffer α) (i : Nat) (a : α) : RingBuffer α := { b with array := Function.update b.array i a }

/-- Reads `n` slots from slot `i` on. -/
def fetch (b : RingBuffer α) : Nat → Nat → List α
  | 0, _ => []
  | n + 1, i => b.array i :: b.fetch n (b.next i)

/-- Copies `n` slots from slot `i` on into the slots of `target` from slot `j` on. The second component is the
slot of `target` behind the last one written. -/
def copyTo (b : RingBuffer α) : Nat → Nat → RingBuffer α → Nat → RingBuffer α × Nat
  | 0, _, target, j => (target, j)
  | n + 1, i, target, j => b.copyTo n (b.next i) (target.write j (b.array i)) (target.next j)

/-- Applies `f` to `n` slots from slot `i` on. The second component is the slot behind the last one. -/
def modify (b : RingBuffer α) (f : α → α) : Nat → Nat → RingBuffer α × Nat
  | 0, i => (b, i)
  | n + 1, i => (b.write i (f (b.array i))).modify f n (b.next i)

/-- From `front` on the slots hold `items`. -/
structure Holds (b : RingBuffer α) (front : Nat) (items : List α) : Prop where
  fits : items.length ≤ b.capacity
  read : ∀ j a, items[j]? = some a → b.array (b.slot front j) = a

section Slots

variable (b : RingBuffer α) (front : Nat) {i j : Nat}

theorem slot_ne (below : i < j) (bound : j < b.capacity) : b.slot front i ≠ b.slot front j := by
  intro same
  have cancelled := Nat.ModEq.add_left_cancel' front same
  rw [Nat.ModEq, Nat.mod_eq_of_lt (below.trans bound), Nat.mod_eq_of_lt bound] at cancelled
  omega

theorem next_slot (j : Nat) : b.next (b.slot front j) = b.slot front (j + 1) := by
  unfold next slot
  rw [Nat.mod_add_mod, Nat.add_assoc]

theorem slot_next (j : Nat) : b.slot (b.next front) j = b.slot front (j + 1) := by
  unfold slot next
  rw [Nat.mod_add_mod, Nat.add_assoc, Nat.add_comm 1 j]

theorem previous_slot (j : Nat) (positive : 0 < b.capacity) : b.previous (b.slot front (j + 1)) = b.slot front j := by
  unfold previous slot
  rw [Nat.add_sub_assoc positive, Nat.mod_add_mod]
  have around : front + (j + 1) + (b.capacity - 1) = front + j + b.capacity := by omega
  rw [around, Nat.add_mod_right]

theorem next_previous (bound : i < b.capacity) : b.next (b.previous i) = i := by
  unfold next previous
  have around : i + b.capacity - 1 + 1 = i + b.capacity := by omega
  rw [Nat.mod_add_mod, around, Nat.add_mod_right, Nat.mod_eq_of_lt bound]

theorem slot_slot (n j : Nat) : b.slot (b.slot front n) j = b.slot front (n + j) := by
  unfold slot
  rw [Nat.mod_add_mod, Nat.add_assoc]

theorem previous_eq_slot (positive : 0 < b.capacity) : b.previous front = b.slot front (b.capacity - 1) := by
  unfold previous slot
  rw [Nat.add_sub_assoc positive]

theorem slot_ne_of_ne (different : i ≠ j) (left : i < b.capacity) (right : j < b.capacity) :
    b.slot front i ≠ b.slot front j := by
  rcases Nat.lt_or_gt_of_ne different with below | above
  · exact b.slot_ne front below right
  · exact (b.slot_ne front above left).symm

end Slots

section Modify

variable (b : RingBuffer α) (front : Nat) (f : α → α)

theorem modify_capacity (n i : Nat) : (b.modify f n i).1.capacity = b.capacity := by
  induction n generalizing b i with
  | zero => rfl
  | succ n ih => exact ih _ _

theorem modify_behind (n i : Nat) : (b.modify f n (b.slot front i)).2 = b.slot front (i + n) := by
  induction n generalizing b i with
  | zero => rfl
  | succ n ih =>
    rw [modify, next_slot, ← Nat.add_assoc, Nat.add_right_comm]
    exact ih (b.write _ _) (i + 1)

theorem modify_array (n i j : Nat) (inside : i + n ≤ b.capacity) (bound : j < b.capacity) :
    (b.modify f n (b.slot front i)).1.array (b.slot front j) =
      if i ≤ j ∧ j < i + n then f (b.array (b.slot front j)) else b.array (b.slot front j) := by
  induction n generalizing b i with
  | zero => exact (if_neg (by omega)).symm
  | succ n ih =>
    have later := ih (b.write (b.slot front i) (f (b.array (b.slot front i)))) (i + 1)
      (show i + 1 + n ≤ b.capacity by omega) bound
    rw [modify, next_slot]
    refine later.trans ?_
    change (if i + 1 ≤ j ∧ j < i + 1 + n then f (Function.update b.array _ _ (b.slot front j))
      else Function.update b.array _ _ (b.slot front j)) = _
    by_cases here : j = i
    · subst here
      rw [if_neg (by omega), if_pos (by omega), Function.update_self]
    · rw [Function.update_of_ne (b.slot_ne_of_ne front here bound (by omega))]
      split
      · rw [if_pos (by omega)]
      · rw [if_neg (by omega)]

end Modify

section Holds

variable {b : RingBuffer α} {front : Nat} {items : List α} {i : Nat}

theorem Holds.nil (b : RingBuffer α) (front : Nat) : b.Holds front [] where
  fits := Nat.zero_le _
  read j a at_j := by simp at at_j

theorem Holds.push (holds : b.Holds front items) (room : items.length < b.capacity) (a : α) :
    (b.write (b.slot front items.length) a).Holds front (items ++ [a]) where
  fits := by
    rw [List.length_append]
    exact room
  read j c at_j := by
    change Function.update b.array (b.slot front items.length) a (b.slot front j) = c
    rw [List.getElem?_append] at at_j
    split at at_j
    · rename_i old
      rw [Function.update_of_ne (b.slot_ne front old room)]
      exact holds.read j c at_j
    · rename_i new
      obtain ⟨bound, value⟩ := List.getElem?_eq_some_iff.mp at_j
      rw [List.length_singleton] at bound
      obtain rfl : j = items.length := by omega
      rw [Function.update_self]
      simpa using value

theorem Holds.pop {a : α} (holds : b.Holds front (a :: items)) (start : front < b.capacity) :
    b.array front = a ∧ b.Holds (b.next front) items := by
  have first : b.slot front 0 = front := Nat.mod_eq_of_lt start
  refine ⟨?_, (Nat.le_succ _).trans holds.fits, fun j c at_j => ?_⟩
  · have read := holds.read 0 a rfl
    rwa [first] at read
  · rw [slot_next]
    exact holds.read (j + 1) c at_j

theorem Holds.set (holds : b.Holds front items) (bound : i < items.length) (a : α) :
    (b.write (b.slot front i) a).Holds front (items.set i a) where
  fits := by
    rw [List.length_set]
    exact holds.fits
  read j c at_j := by
    change Function.update b.array (b.slot front i) a (b.slot front j) = c
    have inside := (List.getElem?_eq_some_iff.mp at_j).1
    rw [List.length_set] at inside
    rw [List.getElem?_set] at at_j
    rcases Nat.lt_trichotomy i j with below | rfl | above
    · rw [if_neg (by omega)] at at_j
      rw [Function.update_of_ne (b.slot_ne front below (inside.trans_le holds.fits)).symm]
      exact holds.read j c at_j
    · rw [if_pos rfl, if_pos bound] at at_j
      rw [Function.update_self]
      exact Option.some.inj at_j
    · rw [if_neg (by omega)] at at_j
      rw [Function.update_of_ne (b.slot_ne front above (bound.trans_le holds.fits))]
      exact holds.read j c at_j

theorem Holds.take (holds : b.Holds front items) (n : Nat) : b.Holds front (items.take n) where
  fits := (List.length_take_le' n items).trans holds.fits
  read j a at_j := by
    rw [List.getElem?_take] at at_j
    split at at_j
    · exact holds.read j a at_j
    · cases at_j

theorem Holds.write_behind (holds : b.Holds front items) (behind : items.length ≤ i) (bound : i < b.capacity)
    (a : α) : (b.write (b.slot front i) a).Holds front items where
  fits := holds.fits
  read j c at_j := by
    have inside := (List.getElem?_eq_some_iff.mp at_j).1
    change Function.update b.array (b.slot front i) a (b.slot front j) = c
    rw [Function.update_of_ne (b.slot_ne front (inside.trans_le behind) bound)]
    exact holds.read j c at_j

/-- After the first `n` items were modified, the others stand from the slot behind them on. -/
theorem Holds.modify (holds : b.Holds front items) (f : α → α) {n : Nat} (inside : n ≤ items.length) (start : front < b.capacity) :
    (b.modify f n front).1.Holds (b.slot front n) (items.drop n) := by
  have fits := holds.fits
  have first : b.slot front 0 = front := Nat.mod_eq_of_lt start
  refine ⟨?_, ?_⟩
  · rw [b.modify_capacity, List.length_drop]
    omega
  · intro j a at_j
    rw [List.getElem?_drop] at at_j
    have bound := (List.getElem?_eq_some_iff.mp at_j).1
    have place : (b.modify f n front).1.slot (b.slot front n) j = b.slot front (n + j) := by
      unfold slot
      rw [b.modify_capacity, Nat.mod_add_mod, Nat.add_assoc]
    have kept := b.modify_array front f n 0 (n + j) (by omega) (by omega)
    rw [first, if_neg (by omega), holds.read _ _ at_j] at kept
    rw [place, kept]

theorem Holds.fetch (holds : b.Holds front items) (n j : Nat) (bound : j + n ≤ items.length) :
    b.fetch n (b.slot front j) = (items.drop j).take n := by
  induction n generalizing j with
  | zero => simp [RingBuffer.fetch]
  | succ n ih =>
    have inside : j < items.length := by omega
    have first := holds.read j items[j] (List.getElem?_eq_getElem inside)
    rw [RingBuffer.fetch, first, next_slot, ih (j + 1) (by omega), List.drop_eq_getElem_cons inside, List.take_succ_cons]

/-- After `done` items have been copied, the rest of the loop copies the others. -/
theorem Holds.copyTo (holds : b.Holds front items) {target : RingBuffer α} (room : items.length < target.capacity)
    (n j : Nat) (rest : j + n = items.length) (done : target.Holds 0 (items.take j)) :
    ∃ copy, b.copyTo n (b.slot front j) target j = (copy, items.length) ∧ copy.capacity = target.capacity ∧ copy.Holds 0 items := by
  induction n generalizing j target with
  | zero =>
    obtain rfl : j = items.length := by omega
    rw [List.take_length] at done
    exact ⟨target, rfl, rfl, done⟩
  | succ n ih =>
    have inside : j < items.length := by omega
    have read := holds.read j items[j] (List.getElem?_eq_getElem inside)
    have length : (items.take j).length = j := List.length_take_of_le (by omega)
    have place : target.slot 0 j = j := by
      unfold slot
      rw [Nat.zero_add, Nat.mod_eq_of_lt (by omega)]
    have after : target.next j = j + 1 := Nat.mod_eq_of_lt (by omega)
    have pushed := done.push (by omega) items[j]
    rw [length, place, List.take_append_getElem] at pushed
    rw [RingBuffer.copyTo, next_slot, read, after]
    exact ih (by exact room) (j + 1) (by omega) pushed

end Holds

end RingBuffer
