import Mathlib.Data.List.GetD
import Mathlib.Data.List.Nodup

namespace RoundRobin

variable {α : Type}

/-- Who gets item number `turn`. -/
def turn (hands : List α) (fallback : α) (turn : Nat) : α := hands.getD (turn % hands.length) fallback

/-- Who gets the first `count` items. -/
def deal (hands : List α) (fallback : α) (count : Nat) : List α := (List.range count).map (turn hands fallback)

section

variable {hands : List α} {fallback : α} {count : Nat}

theorem deal_succ : deal hands fallback (count + 1) = deal hands fallback count ++ [turn hands fallback count] := by
  rw [deal, List.range_succ, List.map_append, List.map_singleton, ← deal]

theorem turn_mem (nonempty : hands ≠ []) (count : Nat) : turn hands fallback count ∈ hands := by
  have bound : count % hands.length < hands.length := Nat.mod_lt _ (List.length_pos_iff.mpr nonempty)
  rw [turn, List.getD_eq_getElem _ _ bound]
  exact List.getElem_mem bound

/-- In the first round everyone gets at most one item. -/
theorem deal_eq_take (first : count ≤ hands.length) : deal hands fallback count = hands.take count := by
  induction count with
  | zero => rfl
  | succ count ih =>
    have bound : count < hands.length := first
    rw [deal_succ, ih (by omega), turn, Nat.mod_eq_of_lt bound, List.getD_eq_getElem _ _ bound,
      List.take_succ_eq_append_getElem bound]

theorem deal_nodup (distinct : hands.Nodup) (first : count ≤ hands.length) : (deal hands fallback count).Nodup := by
  rw [deal_eq_take first]
  exact distinct.sublist (List.take_sublist _ _)

theorem deal_length_add (count : Nat) : deal hands fallback (hands.length + count) = hands ++ deal hands fallback count := by
  have round : deal hands fallback hands.length = hands := by rw [deal_eq_take (Nat.le_refl _), List.take_length]
  rw [deal, List.range_add, List.map_append, ← deal, round, List.map_map]
  congr 1
  refine List.map_congr_left fun i _ => ?_
  rw [Function.comp_apply, turn, turn, Nat.add_mod_left]

/-- After whole rounds everyone has an item of each. -/
theorem count_deal [DecidableEq α] (distinct : hands.Nodup) {hand : α} (member : hand ∈ hands) (rounds : Nat) :
    (deal hands fallback (rounds * hands.length)).count hand = rounds := by
  induction rounds with
  | zero => rw [Nat.zero_mul]; rfl
  | succ rounds ih =>
    rw [Nat.succ_mul, Nat.add_comm, deal_length_add, List.count_append, ih, List.count_eq_one_of_mem distinct member,
      Nat.add_comm]

end

end RoundRobin
