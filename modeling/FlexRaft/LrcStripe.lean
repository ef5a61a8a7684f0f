import FlexRaft.RaftState

namespace FlexRaft

namespace Encoder

variable {length : Nat}

def kMaxK : Nat := 16

def kMaxM : Nat := 32

/-- The size of each fragment. -/
def fragmentSize (slice : Slice) (k : Nat) : Nat := (slice.length + k - 1) / k

def padded (slice : Slice) (k : Nat) : Slice :=
  slice ++ List.replicate (fragmentSize slice k * k - slice.length) 0

section DataFragments

variable {slice : Slice} {k i : Nat}

theorem dataFragment_eq (slice : Slice) (k i : Nat) :
    dataFragment slice k i = ((padded slice k).drop (i * fragmentSize slice k)).take (fragmentSize slice k) := rfl

theorem length_le_fragments (slice : Slice) (positive : 0 < k) : slice.length ≤ fragmentSize slice k * k := by
  have division := Nat.div_add_mod (slice.length + k - 1) k
  have small := Nat.mod_lt (slice.length + k - 1) positive
  rw [fragmentSize, Nat.mul_comm]
  omega

theorem fragments_lt (slice : Slice) (positive : 0 < k) : fragmentSize slice k * k < slice.length + k := by
  have division := Nat.div_mul_le_self (slice.length + k - 1) k
  rw [fragmentSize]
  omega

theorem length_padded (slice : Slice) (positive : 0 < k) : (padded slice k).length = fragmentSize slice k * k := by
  have bound := length_le_fragments slice positive
  simp only [padded, List.length_append, List.length_replicate]
  omega

theorem length_dataFragment (bound : i < k) : (dataFragment slice k i).length = fragmentSize slice k := by
  have whole := length_padded slice (Nat.zero_lt_of_lt bound)
  have room : (i + 1) * fragmentSize slice k ≤ k * fragmentSize slice k := Nat.mul_le_mul_right _ bound
  rw [dataFragment_eq, List.length_take, List.length_drop, whole, Nat.mul_comm (fragmentSize slice k) k]
  rw [Nat.add_mul, Nat.one_mul] at room
  omega

theorem fragmentSize_le : fragmentSize slice k ≤ slice.length := by
  rcases Nat.eq_zero_or_pos k with rfl | positive
  · simp [fragmentSize]
  · rcases Nat.eq_zero_or_pos slice.length with empty | nonempty
    · rw [fragmentSize, empty, Nat.zero_add, Nat.div_eq_of_lt (by omega)]
    · have room : slice.length - 1 ≤ k * (slice.length - 1) := Nat.le_mul_of_pos_left _ positive
      have whole : k * slice.length = k * (slice.length - 1) + k := by
        rw [← Nat.mul_succ, Nat.succ_eq_add_one, Nat.sub_add_cancel nonempty]
      exact Nat.div_le_of_le_mul (by omega)

theorem fragmentSize_pos (nonempty : slice ≠ []) (positive : 0 < k) : 0 < fragmentSize slice k := by
  have bytes : 0 < slice.length := List.length_pos_iff.mpr nonempty
  exact Nat.div_pos (by omega) positive

theorem flatten_dataFragments (slice : Slice) (k n : Nat) :
    ((List.range n).map (dataFragment slice k)).flatten = (padded slice k).take (n * fragmentSize slice k) := by
  induction n with
  | zero => simp
  | succ n ih =>
    rw [List.range_succ, List.map_append, List.flatten_append, ih, List.map_singleton, List.flatten_singleton,
      dataFragment_eq, ← List.take_add, Nat.add_mul, Nat.one_mul]

/-- All data fragments together give the payload back. -/
theorem take_flatten_dataFragments (positive : 0 < k) :
    (((List.range k).map (dataFragment slice k)).flatten).take slice.length = slice := by
  have whole : (padded slice k).length ≤ k * fragmentSize slice k := by
    rw [length_padded slice positive, Nat.mul_comm]
  rw [flatten_dataFragments, List.take_of_length_le whole, padded, List.take_left]

theorem encodeFragment_of_lt {isal : Isal} {m : Nat} (bound : i < k) :
    encodeFragment isal slice k m i = dataFragment slice k i := by
  unfold encodeFragment
  split
  · rename_i one
    subst one
    have first : i = 0 := by omega
    have size : fragmentSize slice 1 = slice.length := by simp [fragmentSize]
    rw [dataFragment_eq, padded, first, size]
    simp
  · rfl

theorem decodeSliceHelper_data (isal : Isal) (positive : 0 < k) (n : Nat) :
    decodeSliceHelper isal ((List.range k).map fun i => (i, dataFragment slice k i)) k n =
      .decoded ((List.range k).map (dataFragment slice k)).flatten := by
  have first : ((List.range k).map fun i => (i, dataFragment slice k i)).head? = some (0, dataFragment slice k 0) := by
    rw [List.head?_map, List.head?_range, if_neg (by omega)]
    rfl
  have sizes : ((List.range k).map fun i => (i, dataFragment slice k i)).any (fun p => decide (p.1 < k) &&
      decide (p.2.length ≠ fragmentSize slice k)) = false := by
    simp only [List.any_map, List.any_eq_false, List.mem_range, Function.comp]
    intro i bound
    simp [bound, length_dataFragment bound]
  have rows : (List.range k).map (decodedRow isal ((List.range k).map fun i => (i, dataFragment slice k i)) k n) =
      (List.range k).map (dataFragment slice k) := by
    refine List.map_congr_left fun i inside => ?_
    rw [decodedRow, OrdMap.find_map_range (dataFragment slice k) (List.mem_range.mp inside)]
  unfold decodeSliceHelper
  rw [if_neg (by omega), if_neg (by simp), first]
  dsimp only [Option.map_some, Option.getD_some]
  rw [length_dataFragment positive, sizes, rows]
  simp

end DataFragments

/-- `DecodeSlice`, which leaves a single fragment as it is. -/
def decodeSlice (isal : Isal) (fragments : OrdMap Slice) (k m : Nat) : DecodeResult :=
  if k = 1 then .decoded ((fragments.head?.map Prod.snd).getD []) else decodeSliceHelper isal fragments k (k + m)

/-- The size of the slice that `DecodeSlice` returns. `DecodeSliceHelper` hands it over as an `int`, which is extended
with its sign when it becomes a `size_t` again. -/
def decodedSize (k length : Nat) : Nat :=
  if k = 1 then length
  else if length % UInt32.size < UInt32.size / 2 then length % UInt32.size
  else UInt64.size - UInt32.size + length % UInt32.size

theorem le_decodedSize (k : Nat) (bound : length < UInt32.size) : length ≤ decodedSize k length := by
  unfold decodedSize
  rw [Nat.mod_eq_of_lt bound]
  split
  · exact Nat.le_refl _
  · split
    · exact Nat.le_refl _
    · exact Nat.le_add_left _ _

theorem decodedSize_eq_iff {k : Nat} (addressable : length < UInt64.size / 2) :
    decodedSize k length = length ↔ k = 1 ∨ length < UInt32.size / 2 := by
  unfold decodedSize
  simp only [UInt64.size, UInt32.size] at *
  split
  · simp_all
  · split <;> omega

/-- The slice that `DecodeSlice` sets for `k` data fragments: its buffer has these bytes, and its size is their
number. -/
def Returns (result : DecodeResult) (k : Nat) (slice : Slice) : Prop :=
  result = .decoded slice ∧ decodedSize k slice.length = slice.length

/-- The decoded bytes are cut to the payload, as long as their number fits in 32 bits. -/
theorem take_decodedSize {slice : Slice} {k : Nat} (positive : 0 < k) (small : fragmentSize slice k * k < UInt32.size) :
    (((List.range k).map (dataFragment slice k)).flatten).take (min (decodedSize k
      ((List.range k).map (dataFragment slice k)).flatten.length) slice.length) = slice := by
  have length : ((List.range k).map (dataFragment slice k)).flatten.length = fragmentSize slice k * k := by
    rw [flatten_dataFragments, List.length_take, length_padded slice positive, Nat.mul_comm k, Nat.min_self]
  have enough := (length_le_fragments slice positive).trans (le_decodedSize k small)
  rw [length, Nat.min_eq_right enough, take_flatten_dataFragments positive]

end Encoder

/-- The output buffers of `ec_encode_data` have the size of its input buffers. -/
def Isal.Sized (isal : Isal) : Prop :=
  ∀ k m (data : List Slice) j size, data ≠ [] → (∀ slice ∈ data, slice.length = size) →
    (isal.parity k m data j).length = size

structure LrcParams where
  k : Nat
  l : Nat
  r : Nat
  deriving DecidableEq, Repr

namespace LrcParams

def localK (p : LrcParams) : Nat := p.k / p.l

def totalShards (p : LrcParams) : Nat := p.k + p.l + p.r

/-- Two fragments for each of `n` nodes; `none` where the code throws. -/
def fromCapacity (n l : Nat) : Option LrcParams :=
  let k := n / 2 + 1
  if n < 5 ∨ l < 1 ∨ k % l ≠ 0 ∨ 2 * n < k + l then none else some { k := k, l := l, r := 2 * n - k - l }

theorem fromCapacity_eq_some {n l : Nat} {p : LrcParams} (derived : fromCapacity n l = some p) :
    5 ≤ n ∧ 0 < l ∧ p.l = l ∧ p.k = n / 2 + 1 ∧ p.k = l * p.localK ∧ p.totalShards = 2 * n := by
  unfold fromCapacity at derived
  dsimp only at derived
  split at derived
  · cases derived
  · rename_i fits
    cases derived
    simp only [not_or, Nat.not_lt, Decidable.not_not] at fits
    obtain ⟨nodes, groups, divides, room⟩ := fits
    refine ⟨nodes, groups, rfl, rfl, (Nat.mul_div_cancel' (Nat.dvd_of_mod_eq_zero divides)).symm, ?_⟩
    simp only [totalShards]
    omega

end LrcParams

namespace LrcEncoder

open Encoder

/-- `GlobalEncode`'s data fragments of group `g`, side by side. -/
def groupData (data : Slice) (p : LrcParams) (g : Nat) : Slice :=
  ((List.range p.localK).map fun i => dataFragment data p.k (g * p.localK + i)).flatten

/-- The fragments in the order of their ids: data, local parities and global parities. -/
def encodeStripe (isal : Isal) (p : LrcParams) (data : Slice) : List Slice :=
  (List.range p.k).map (encodeFragment isal data p.k p.r) ++
    ((List.range p.l).map fun g => encodeFragment isal (groupData data p g) p.localK 1 p.localK) ++
    (List.range p.r).map fun i => encodeFragment isal data p.k p.r (p.k + i)

section

variable {isal : Isal} {p : LrcParams} {data : Slice} {i g : Nat}

theorem length_encodeStripe : (encodeStripe isal p data).length = p.totalShards := by
  simp [encodeStripe, LrcParams.totalShards, Nat.add_assoc]

theorem encodeStripe_getElem? (bound : i < p.k) : (encodeStripe isal p data)[i]? = some (dataFragment data p.k i) := by
  rw [encodeStripe, List.append_assoc, List.getElem?_append_left (by simpa using bound), List.getElem?_map,
    List.getElem?_range bound, Option.map_some, encodeFragment_of_lt bound]

theorem encodeStripe_local (below : g < p.l) : (encodeStripe isal p data)[p.k + g]? =
    some (encodeFragment isal (groupData data p g) p.localK 1 p.localK) := by
  rw [encodeStripe, List.getElem?_append_left (by simpa using below), List.getElem?_append_right (by simp),
    List.length_map, List.length_range, Nat.add_sub_cancel_left, List.getElem?_map, List.getElem?_range below,
    Option.map_some]

theorem length_encodeFragment (sized : isal.Sized) {k m : Nat} (positive : 0 < k) :
    (encodeFragment isal data k m i).length = fragmentSize data k := by
  unfold encodeFragment
  split
  · rename_i one
    simp [fragmentSize, one]
  · split
    · exact length_dataFragment ‹_›
    · refine sized k m _ _ _ (by simpa using Nat.ne_of_gt positive) fun slice inside => ?_
      obtain ⟨i, bound, rfl⟩ := List.mem_map.mp inside
      exact length_dataFragment (List.mem_range.mp bound)

theorem length_groupData (below : g < p.l) : (groupData data p g).length = p.localK * fragmentSize data p.k := by
  have sizes : ∀ i < p.localK, (dataFragment data p.k (g * p.localK + i)).length = fragmentSize data p.k := by
    intro i bound
    refine length_dataFragment ?_
    calc g * p.localK + i < (g + 1) * p.localK := by rw [Nat.add_mul, Nat.one_mul]; omega
      _ ≤ p.l * p.localK := Nat.mul_le_mul_right _ below
      _ ≤ p.k := Nat.mul_div_le p.k p.l
  rw [groupData, List.length_flatten, List.map_map, List.map_congr_left (g := fun _ => fragmentSize data p.k)]
  · simp
  · exact fun i inside => sizes i (List.mem_range.mp inside)

theorem flatten_drop_take {pieces : List Slice} {size : Nat} (sizes : ∀ piece ∈ pieces, piece.length = size)
    (bound : i < pieces.length) : (pieces.flatten.drop (i * size)).take size = pieces[i] := by
  induction pieces generalizing i with
  | nil => exact absurd bound (Nat.not_lt_zero i)
  | cons piece rest ih =>
    have here := sizes piece List.mem_cons_self
    cases i with
    | zero => rw [Nat.zero_mul, List.drop_zero, List.flatten_cons, List.take_left' here, List.getElem_cons_zero]
    | succ i =>
      have later : (i + 1) * size = piece.length + i * size := by rw [Nat.add_mul, Nat.one_mul, here, Nat.add_comm]
      rw [later, List.flatten_cons, ← List.drop_drop, List.drop_left, ih (fun p inside => sizes p (List.mem_cons_of_mem _ inside))
        (Nat.lt_of_succ_lt_succ bound), List.getElem_cons_succ]

theorem fragmentSize_groupData (below : g < p.l) (positive : 0 < p.localK) :
    fragmentSize (groupData data p g) p.localK = fragmentSize data p.k := by
  rw [fragmentSize, length_groupData below]
  refine Nat.div_eq_of_lt_le ?_ ?_
  · rw [Nat.mul_comm]
    omega
  · rw [Nat.add_mul, Nat.one_mul, Nat.mul_comm]
    omega

theorem padded_groupData (below : g < p.l) (positive : 0 < p.localK) :
    padded (groupData data p g) p.localK = groupData data p g := by
  rw [padded, fragmentSize_groupData below positive, length_groupData below, Nat.mul_comm, Nat.sub_self,
    List.replicate_zero, List.append_nil]

theorem dataFragment_groupData (below : g < p.l) (divides : p.k = p.l * p.localK) (bound : i < p.localK) :
    dataFragment (groupData data p g) p.localK i = dataFragment data p.k (g * p.localK + i) := by
  have positive : 0 < p.localK := Nat.zero_lt_of_lt bound
  have size : fragmentSize (groupData data p g) p.localK = fragmentSize data p.k := fragmentSize_groupData below positive
  rw [dataFragment_eq, padded_groupData below positive, size, groupData, flatten_drop_take _ (by simpa using bound), List.getElem_map,
    List.getElem_range]
  intro piece member
  obtain ⟨i, inside, rfl⟩ := List.mem_map.mp member
  refine length_dataFragment ?_
  calc g * p.localK + i < (g + 1) * p.localK := by
        rw [Nat.add_mul, Nat.one_mul]
        exact Nat.add_lt_add_left (List.mem_range.mp inside) _
    _ ≤ p.l * p.localK := Nat.mul_le_mul_right _ below
    _ = p.k := divides.symm

theorem length_of_mem_encodeStripe (sized : isal.Sized) (positive : 0 < p.k) (divides : p.k = p.l * p.localK)
    {frag : Slice} (member : frag ∈ encodeStripe isal p data) : frag.length = fragmentSize data p.k := by
  simp only [encodeStripe, List.mem_append, List.mem_map, List.mem_range] at member
  rcases member with (⟨i, _, rfl⟩ | ⟨g, below, rfl⟩) | ⟨i, _, rfl⟩
  · exact length_encodeFragment sized positive
  · have share : 0 < p.localK := Nat.pos_of_ne_zero fun zero => by simp [zero] at divides; omega
    rw [length_encodeFragment sized share, fragmentSize_groupData below share]
  · exact length_encodeFragment sized positive

end

end LrcEncoder

end FlexRaft
