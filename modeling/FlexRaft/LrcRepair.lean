import FlexRaft.NodeLosses

namespace FlexRaft

namespace LrcEncoder

open Encoder Isal

/-- `LocalRepair` of one group. -/
def localRepair (isal : Isal) (p : LrcParams) (availableFrags : OrdMap Slice) : DecodeResult :=
  decodeSlice isal availableFrags p.localK 1

/-- `GlobalRepair` across the groups. -/
def globalRepair (isal : Isal) (p : LrcParams) (availableFrags : OrdMap Slice) : DecodeResult :=
  decodeSlice isal availableFrags p.k p.r

/-- The data fragments of group `g` of a stripe and its parity, under their places in the group. -/
def groupFrags (p : LrcParams) (stripe : List Slice) (g : Nat) : OrdMap Slice :=
  ((List.range p.localK).map fun i => (i, stripe.getD (g * p.localK + i) [])) ++
    [(p.localK, stripe.getD (p.k + g) [])]

/-- The data fragments and the global parities of a stripe. -/
def globalFrags (p : LrcParams) (stripe : List Slice) : OrdMap Slice :=
  ((List.range p.k).map fun i => (i, stripe.getD i [])) ++
    (List.range p.r).map fun i => (p.k + i, stripe.getD (p.k + p.l + i) [])

section

variable {p : LrcParams} {data : Slice} {g : Nat}

/-- A group of a stripe is the code of RS(k/l, 1) over the group's data. -/
theorem groupFrags_encodeStripe (below : g < p.l) (divides : p.k = p.l * p.localK) :
    groupFrags p (encodeStripe gf256 p data) g = encodeSlice gf256 (groupData data p g) p.localK 1 := by
  have rows : ∀ i ∈ List.range p.localK, (i, (encodeStripe gf256 p data).getD (g * p.localK + i) []) =
      (i, encodeFragment gf256 (groupData data p g) p.localK 1 i) := by
    intro i member
    have bound := List.mem_range.mp member
    have inside : g * p.localK + i < p.k := by
      calc g * p.localK + i < (g + 1) * p.localK := by rw [Nat.add_mul, Nat.one_mul]; omega
        _ ≤ p.l * p.localK := Nat.mul_le_mul_right _ below
        _ = p.k := divides.symm
    rw [List.getD_eq_getElem?_getD, encodeStripe_getElem? inside, encodeFragment_of_lt bound,
      dataFragment_groupData below divides bound, Option.getD_some]
  rw [groupFrags, List.map_congr_left rows, List.getD_eq_getElem?_getD, encodeStripe_local below, Option.getD_some,
    encodeSlice, List.range_succ, List.map_append, List.map_singleton]

/-- Without the local parities a stripe is the code of RS(k, r) over the payload. -/
theorem globalFrags_encodeStripe : globalFrags p (encodeStripe gf256 p data) = encodeSlice gf256 data p.k p.r := by
  have first : ∀ i ∈ List.range p.k, (i, (encodeStripe gf256 p data).getD i []) =
      (i, encodeFragment gf256 data p.k p.r i) := by
    intro i member
    have bound := List.mem_range.mp member
    rw [List.getD_eq_getElem?_getD, encodeStripe_getElem? bound, encodeFragment_of_lt bound, Option.getD_some]
  have last : ∀ i ∈ List.range p.r, (p.k + i, (encodeStripe gf256 p data).getD (p.k + p.l + i) []) =
      (p.k + i, encodeFragment gf256 data p.k p.r (p.k + i)) := by
    intro i member
    have bound : p.k + p.l + i < p.totalShards := Nat.add_lt_add_left (List.mem_range.mp member) _
    have row : p.globalRow (p.k + p.l + i) = p.k + i := by
      rw [LrcParams.globalRow, if_neg (by omega)]
      omega
    rw [List.getD_eq_getElem?_getD, encodeStripe_global (Or.inr (Nat.le_add_right _ i)) bound, Option.getD_some, row]
  rw [globalFrags, List.map_congr_left first, List.map_congr_left last, encodeSlice, List.range_add, List.map_append,
    List.map_map]
  rfl

end

/-- What the fragments of a stripe are for: their number and size, the repair of a group from all but one of its
fragments, and the repair of the payload from as many data fragments and global parities as it has data fragments. -/
structure Repairable (p : LrcParams) (data : Slice) : Prop where
  count : (encodeStripe gf256 p data).length = p.k + p.l + p.r
  size : ∀ frag ∈ encodeStripe gf256 p data, frag.length = fragmentSize data p.k
  group : ∀ g < p.l, ∀ available, available.Sublist (groupFrags p (encodeStripe gf256 p data) g) →
    p.localK ≤ available.length → Returns (localRepair gf256 p available) p.localK (groupData data p g)
  payload : ∀ available, available.Sublist (globalFrags p (encodeStripe gf256 p data)) →
    p.k ≤ available.length → Returns (globalRepair gf256 p available) p.k (padded data p.k)

/-- Repair inverts the encoding of a stripe if and only if the padded payload fits in an `int`, or is not split. -/
theorem repairable_iff (p : LrcParams) (data : Slice) (positive : 0 < p.k) (groups : p.l ∣ p.k) (dataLimit : p.k ≤ kMaxK)
    (parityLimit : p.r ≤ kMaxM) (addressable : fragmentSize data p.k * p.k < UInt64.size / 2) :
    Repairable p data ↔ p.k = 1 ∨ fragmentSize data p.k * p.k < UInt32.size / 2 := by
  unfold kMaxK at dataLimit
  unfold kMaxM at parityLimit
  have divides : p.k = p.l * p.localK := (Nat.mul_div_cancel' groups).symm
  have share : 0 < p.localK := Nat.pos_of_ne_zero fun zero => by rw [zero, Nat.mul_zero] at divides; omega
  have few : p.localK ≤ p.k := Nat.div_le_self _ _
  have part : fragmentSize data p.k * p.localK ≤ fragmentSize data p.k * p.k := Nat.mul_le_mul_left _ few
  have whole : ∀ available, available.Sublist (globalFrags p (encodeStripe gf256 p data)) → p.k ≤ available.length →
      (Returns (globalRepair gf256 p available) p.k (padded data p.k) ↔
        p.k = 1 ∨ fragmentSize data p.k * p.k < UInt32.size / 2) := by
    intro available sub enough
    rw [globalFrags_encodeStripe] at sub
    exact (fragmentsOf_sublist sub).returns_iff positive (by omega) enough addressable
  constructor
  · intro repairs
    refine (whole _ (List.Sublist.refl _) ?_).mp (repairs.payload _ (List.Sublist.refl _) ?_) <;> simp [globalFrags]
  · intro fits
    refine ⟨length_encodeStripe, fun frag => length_of_mem_encodeStripe gf256_sized positive divides, ?_,
      fun available sub enough => (whole available sub enough).mpr fits⟩
    intro g below available sub enough
    rw [groupFrags_encodeStripe below divides] at sub
    have size : fragmentSize (groupData data p g) p.localK = fragmentSize data p.k := fragmentSize_groupData below share
    have returns := (fragmentsOf_sublist sub).returns_iff share (by omega) enough (by rw [size]; omega)
    rw [padded_groupData below share, size] at returns
    exact returns.mpr (by omega)

/-- Five bytes in two groups of two fragments. -/
theorem repairable_iff_fiveBytes : Repairable { k := 4, l := 2, r := 6 } [1, 2, 3, 4, 5] :=
  (repairable_iff { k := 4, l := 2, r := 6 } [1, 2, 3, 4, 5] (by decide) (by decide) (by decide) (by decide)
    (by decide)).mpr (Or.inr (by decide))

/-- A payload of 2 GiB is not given back: its repair has a negative size. -/
theorem not_repairable_twoGigabytes : ¬ Repairable { k := 4, l := 2, r := 6 } (List.replicate (UInt32.size / 2) 0) := by
  intro repairs
  have size := (repairs.payload _ (List.Sublist.refl _) (by simp [globalFrags])).2
  rw [length_padded _ (by decide), fragmentSize, List.length_replicate] at size
  exact absurd size (by decide)

end LrcEncoder

end FlexRaft
