import Mathlib.Data.Finset.Card
import Mathlib.Data.Finset.Range
import Mathlib.Data.Finset.Filter

/-- A set of small numbers as the bits of a word. -/
def BitMask.members {w : Nat} (x : BitVec w) : Finset Nat := (Finset.range w).filter fun i => x.getLsbD i = true

namespace BitMask

variable {w : Nat} {x : BitVec w} {i : Nat}

theorem mem_members : i ∈ members x ↔ x.getLsbD i = true := by
  unfold members
  rw [Finset.mem_filter, Finset.mem_range, and_iff_right_iff_imp]
  exact BitVec.lt_of_getLsbD

@[simp] theorem members_zero : members 0#w = ∅ := by
  ext i
  simp [mem_members]

theorem cpopNatRec_eq_card (x : BitVec w) (n : Nat) :
    x.cpopNatRec n 0 = ((Finset.range n).filter fun i => x.getLsbD i = true).card := by
  induction n with
  | zero => rw [BitVec.cpopNatRec_zero_self, Finset.range_zero, Finset.filter_empty, Finset.card_empty]
  | succ n ih =>
    rw [BitVec.cpopNatRec_succ, BitVec.cpopNatRec_eq, ih, Finset.range_add_one, Finset.filter_insert]
    cases bit : x.getLsbD n with
    | false => simp
    | true =>
      have new : n ∉ (Finset.range n).filter fun i => x.getLsbD i = true := by simp
      rw [if_pos rfl, Finset.card_insert_of_notMem new]
      simp

theorem toNat_cpop_eq_card (x : BitVec w) : x.cpop.toNat = (members x).card := by
  rw [BitVec.toNat_cpop]
  exact cpopNatRec_eq_card x w

theorem getLsbD_bit (below : i < w) (j : Nat) : (1#w <<< i).getLsbD j = decide (j = i) := by
  rw [BitVec.getLsbD_shiftLeft]
  by_cases same : j = i
  · subst same
    simp [below]
    omega
  · simp [BitVec.getLsbD_one, same]
    omega

theorem members_or_bit (below : i < w) : members (x ||| 1#w <<< i) = insert i (members x) := by
  ext j
  rw [Finset.mem_insert, mem_members, mem_members, BitVec.getLsbD_or, getLsbD_bit below, Bool.or_eq_true, decide_eq_true_eq]
  exact or_comm

theorem and_bit_eq_zero_iff (below : i < w) : x &&& 1#w <<< i = 0#w ↔ i ∉ members x := by
  rw [mem_members]
  constructor
  · intro zero bit
    have clear := congrArg (fun y => y.getLsbD i) zero
    rw [BitVec.getLsbD_and, getLsbD_bit below, bit, BitVec.getLsbD_zero] at clear
    simp at clear
  · intro clear
    refine BitVec.eq_of_getLsbD_eq fun j _ => ?_
    rw [BitVec.getLsbD_and, getLsbD_bit below, BitVec.getLsbD_zero]
    by_cases same : j = i
    · subst same
      simp [clear]
    · simp [same]

end BitMask
