import FlexRaft.LrcStripe
import FlexRaft.Lib.GF256
import FlexRaft.Lib.CauchyCode
import Mathlib.Data.List.GetD

namespace FlexRaft

namespace Isal

open GF256 CauchyCode

/-- One output buffer of `ec_encode_data`: the bytes at one place of the `k` input buffers, weighted and summed up. -/
def ecEncodeData (k : Nat) (weights : Fin k → GF256) (buffers : List Slice) : Slice :=
  (List.range ((buffers.head?.map List.length).getD 0)).map fun place =>
    toByte (∑ j : Fin k, weights j * ofByte ((buffers.getD j []).getD place 0))

/-- ISA-L over GF(256). `gf_gen_cauchy1_matrix` has the identity in its first `k` rows and the inverse of
`i ^ j` in row `i` and column `j` under it; `gf_invert_matrix` inverts the rows that are there. -/
def gf256 : Isal where
  parity k _ data j := ecEncodeData k (row ofIndex k (k + j)) data
  recover k _ rows input r :=
    if bound : r < k then ecEncodeData k (inverse (rowMatrix ofIndex k fun i => rows.getD i 0) ⟨r, bound⟩) input else []

section EcEncodeData

variable {k : Nat} {weights : Fin k → GF256} {buffers : List Slice} {size : Nat}

theorem length_ecEncodeData (nonempty : buffers ≠ []) (sizes : ∀ slice ∈ buffers, slice.length = size) :
    (ecEncodeData k weights buffers).length = size := by
  cases buffers with
  | nil => exact absurd rfl nonempty
  | cons first rest => simp [ecEncodeData, sizes first List.mem_cons_self]

theorem ecEncodeData_getD {place : Nat} (nonempty : buffers ≠ []) (sizes : ∀ slice ∈ buffers, slice.length = size)
    (bound : place < size) :
    ofByte ((ecEncodeData k weights buffers).getD place 0) =
      ∑ j : Fin k, weights j * ofByte ((buffers.getD j []).getD place 0) := by
  have inside : place < (ecEncodeData k weights buffers).length := by
    rwa [length_ecEncodeData nonempty sizes]
  rw [List.getD_eq_getElem _ _ inside]
  simp only [ecEncodeData, List.getElem_map, List.getElem_range, ofByte_toByte]

theorem slice_ext {a b : Slice} (size : a.length = b.length)
    (bytes : ∀ place < b.length, ofByte (a.getD place 0) = ofByte (b.getD place 0)) : a = b := by
  refine List.ext_getElem size fun place inside inside' => ?_
  have same := congrArg toByte (bytes place inside')
  rwa [toByte_ofByte, toByte_ofByte, List.getD_eq_getElem _ _ inside, List.getD_eq_getElem _ _ inside'] at same

theorem gf256_sized : gf256.Sized := fun _ _ _ _ _ nonempty sizes => length_ecEncodeData nonempty sizes

end EcEncodeData

end Isal

namespace Encoder

open GF256 CauchyCode Isal

/-- The bytes of the data fragments at one place. -/
def column (slice : Slice) (k place : Nat) (j : Fin k) : GF256 := ofByte ((dataFragment slice k j).getD place 0)

section

variable {slice : Slice} {k m i place : Nat}

/-- At each place the fragments are the symbols of one word of the Cauchy code. -/
theorem encodeFragment_getD (several : 1 < k) (bound : place < fragmentSize slice k) :
    ofByte ((encodeFragment gf256 slice k m i).getD place 0) = symbol ofIndex k (column slice k place) i := by
  by_cases data : i < k
  · rw [encodeFragment_of_lt data, symbol_of_lt data, column]
  · have nonempty : (List.range k).map (dataFragment slice k) ≠ [] := by
      simp only [ne_eq, List.map_eq_nil_iff, List.range_eq_nil]
      omega
    have sizes : ∀ frag ∈ (List.range k).map (dataFragment slice k), frag.length = fragmentSize slice k := by
      intro frag member
      obtain ⟨j, inside, rfl⟩ := List.mem_map.mp member
      exact length_dataFragment (List.mem_range.mp inside)
    have parity : encodeFragment gf256 slice k m i =
        ecEncodeData k (row ofIndex k i) ((List.range k).map (dataFragment slice k)) := by
      rw [encodeFragment, if_neg (by omega), if_neg data]
      simp only [gf256, Nat.add_sub_cancel' (Nat.not_lt.mp data)]
    rw [parity, ecEncodeData_getD nonempty sizes bound, symbol]
    refine Finset.sum_congr rfl fun j _ => ?_
    rw [column, List.getD_eq_getElem _ [] (by simp), List.getElem_map, List.getElem_range]

theorem ofIndex_distinct {n : Nat} (room : n ≤ 256) : ∀ i < n, ∀ j < n, ofIndex i = ofIndex j → i = j :=
  fun _ below _ below' same => ofIndex_injective (below.trans_le room) (below'.trans_le room) same

/-- Fragments of `slice` under their row numbers. -/
structure FragmentsOf (slice : Slice) (k m : Nat) (fragments : OrdMap Slice) : Prop where
  nodup : fragments.keys.Nodup
  value : ∀ p ∈ fragments, p.1 < k + m ∧ p.2 = encodeFragment gf256 slice k m p.1

namespace FragmentsOf

variable {fragments : OrdMap Slice} {j r : Nat}

theorem length_of_mem (held : FragmentsOf slice k m fragments) (positive : 0 < k) {p : Nat × Slice}
    (member : p ∈ fragments) : p.2.length = fragmentSize slice k := by
  rw [(held.value p member).2]
  exact LrcEncoder.length_encodeFragment gf256_sized positive

/-- The fragment that stands in row `j` of the matrix to invert. -/
def nth (fragments : OrdMap Slice) (j : Nat) : Nat × Slice := fragments.getD j (0, [])

theorem nth_mem (bound : j < fragments.length) : nth fragments j ∈ fragments := by
  rw [nth, List.getD_eq_getElem _ _ bound]
  exact List.getElem_mem bound

theorem take_getD {α : Type} {f : Nat × Slice → α} (bound : j < k) :
    ((fragments.map f).take k).getD j (f (0, [])) = f (nth fragments j) := by
  rw [nth, ← List.getD_map (f := f), List.getD_eq_getElem?_getD, List.getElem?_take_of_lt bound,
    ← List.getD_eq_getElem?_getD]

theorem nth_injective (held : FragmentsOf slice k m fragments) (enough : k ≤ fragments.length) :
    Function.Injective fun j : Fin k => (nth fragments j).1 := by
  intro i j same
  have place : ∀ j : Fin k, j.val < fragments.keys.length := fun j => by
    rw [OrdMap.keys, List.length_map]
    exact j.isLt.trans_le enough
  have key : ∀ j : Fin k, (nth fragments j).1 = fragments.keys.getD j 0 := fun j =>
    (List.getD_map fragments (0, []) Prod.fst).symm
  simp only [key, List.getD_eq_getElem _ _ (place _)] at same
  exact Fin.ext ((held.nodup.getElem_inj_iff).mp same)

/-- The inverse of the rows that are there gives back a data fragment that is not. -/
theorem recover_eq (held : FragmentsOf slice k m fragments) (several : 1 < k) (room : k + m ≤ 256)
    (enough : k ≤ fragments.length) (bound : r < k) :
    gf256.recover k (k + m) (fragments.keys.take k) ((fragments.map Prod.snd).take k) r = dataFragment slice k r := by
  have positive : 0 < k := Nat.zero_lt_of_lt several
  have member : ∀ j : Fin k, nth fragments j ∈ fragments := fun j => nth_mem (j.isLt.trans_le enough)
  have nonempty : (fragments.map Prod.snd).take k ≠ [] := by
    intro empty
    have none := congrArg List.length empty
    rw [List.length_take, List.length_map, List.length_nil] at none
    omega
  have sizes : ∀ frag ∈ (fragments.map Prod.snd).take k, frag.length = fragmentSize slice k := by
    intro frag inside
    obtain ⟨p, there, rfl⟩ := List.mem_map.mp (List.mem_of_mem_take inside)
    exact held.length_of_mem positive there
  have rows : (fun j : Fin k => (fragments.keys.take k).getD j 0) = fun j : Fin k => (nth fragments j).1 :=
    funext fun j : Fin k => take_getD (f := Prod.fst) j.isLt
  have regular : (rowMatrix ofIndex k fun j => (nth fragments j).1).det ≠ 0 :=
    det_rowMatrix_ne_zero (ofIndex_distinct room) (Nat.le_add_right k m) (fun j => (held.value _ (member j)).1)
      (held.nth_injective enough)
  simp only [gf256, bound, dif_pos, rows]
  refine slice_ext ?_ fun place inside => ?_
  · rw [length_ecEncodeData nonempty sizes, length_dataFragment bound]
  · rw [length_dataFragment bound] at inside
    rw [ecEncodeData_getD nonempty sizes inside]
    refine Eq.trans (Finset.sum_congr rfl fun j _ => ?_) (inverse_symbols regular (column slice k place) ⟨r, bound⟩)
    rw [take_getD (f := Prod.snd) j.isLt, (held.value _ (member j)).2, encodeFragment_getD several inside]

theorem find_eq (held : FragmentsOf slice k m fragments) {frag : Slice} (found : fragments.find r = some frag) :
    frag = encodeFragment gf256 slice k m r := by
  obtain ⟨p, first, rfl⟩ := Option.map_eq_some_iff.mp found
  have key : p.1 = r := by simpa using List.find?_some first
  rw [← key]
  exact (held.value p (List.mem_of_find?_eq_some first)).2

/-- Any `k` fragments give all data fragments back. -/
theorem decodeSliceHelper_eq (held : FragmentsOf slice k m fragments) (several : 1 < k) (room : k + m ≤ 256)
    (enough : k ≤ fragments.length) :
    decodeSliceHelper gf256 fragments k (k + m) = .decoded (padded slice k) := by
  have positive : 0 < k := Nat.zero_lt_of_lt several
  have first : (fragments.head?.map fun p => p.2.length).getD 0 = fragmentSize slice k := by
    cases fragments with
    | nil => exact absurd enough (by simpa using Nat.ne_of_gt positive)
    | cons p rest => simpa using held.length_of_mem positive List.mem_cons_self
  have sizes : (fragments.any fun p => decide (p.1 < k) && decide (p.2.length ≠ fragmentSize slice k)) = false := by
    simp only [List.any_eq_false]
    intro p member
    simp [held.length_of_mem positive member]
  have rows : (List.range k).map (decodedRow gf256 fragments k (k + m)) = (List.range k).map (dataFragment slice k) := by
    refine List.map_congr_left fun r inside => ?_
    have bound := List.mem_range.mp inside
    unfold decodedRow
    cases found : fragments.find r with
    | some frag => exact (held.find_eq found).trans (encodeFragment_of_lt bound)
    | none => exact held.recover_eq several room enough bound
  have whole : (padded slice k).length ≤ k * fragmentSize slice k := by
    rw [length_padded slice positive, Nat.mul_comm]
  unfold decodeSliceHelper
  rw [if_neg (Nat.ne_of_gt positive), if_neg (Nat.not_lt.mpr enough)]
  dsimp only
  rw [first, sizes, rows, flatten_dataFragments, List.take_of_length_le whole]
  rfl

theorem decodeSlice_eq (held : FragmentsOf slice k m fragments) (positive : 0 < k) (room : k + m ≤ 256)
    (enough : k ≤ fragments.length) : decodeSlice gf256 fragments k m = .decoded (padded slice k) := by
  unfold decodeSlice
  split
  · rename_i one
    subst one
    cases fragments with
    | nil => exact absurd enough (by simp)
    | cons p rest =>
      have value := (held.value p List.mem_cons_self).2
      simp [value, encodeFragment, padded, fragmentSize]
  · exact held.decodeSliceHelper_eq (by omega) room enough

/-- Whichever `k` or more fragments are there, the payload and its padding come back unless they are too long for an
`int`. No buffer takes more than half of the address space. -/
theorem returns_iff (held : FragmentsOf slice k m fragments) (positive : 0 < k) (room : k + m ≤ 256)
    (enough : k ≤ fragments.length) (addressable : fragmentSize slice k * k < UInt64.size / 2) :
    Returns (decodeSlice gf256 fragments k m) k (padded slice k) ↔
      k = 1 ∨ fragmentSize slice k * k < UInt32.size / 2 := by
  rw [Returns, length_padded slice positive, decodedSize_eq_iff addressable]
  exact and_iff_right (held.decodeSlice_eq positive room enough)

end FragmentsOf

theorem fragmentsOf_sublist {fragments : OrdMap Slice} (part : fragments.Sublist (encodeSlice gf256 slice k m)) :
    FragmentsOf slice k m fragments := by
  have keys : (encodeSlice gf256 slice k m).keys = List.range (k + m) := by
    simp only [OrdMap.keys, encodeSlice, List.map_map, Function.comp_def, List.map_id']
  have ids : fragments.keys.Sublist (List.range (k + m)) := keys ▸ (part.map Prod.fst : fragments.keys.Sublist _)
  refine ⟨ids.nodup List.nodup_range, fun p member => ?_⟩
  obtain ⟨i, inside, rfl⟩ := List.mem_map.mp (part.subset member)
  exact ⟨List.mem_range.mp inside, rfl⟩

end

/-- What `EncodeSlice` has made is decoded to the payload and zeros behind it, as long as their number fits in an `int`. -/
theorem returns_encodeSlice_iff (slice : Slice) (k m : Nat) (positive : 1 ≤ k) (data : k ≤ 16) (parities : m ≤ 32)
    (addressable : k * ((slice.length + k - 1) / k) < UInt64.size / 2) (fragments : OrdMap Slice)
    (part : fragments.Sublist (encodeSlice gf256 slice k m)) (enough : k ≤ fragments.length) :
    Returns (decodeSlice gf256 fragments k m) k
        (slice ++ List.replicate (k * ((slice.length + k - 1) / k) - slice.length) 0) ↔
      k = 1 ∨ k * ((slice.length + k - 1) / k) < UInt32.size / 2 := by
  rw [Nat.mul_comm] at addressable ⊢
  exact (fragmentsOf_sublist part).returns_iff positive (by omega) enough addressable

/-- The second half and the parity of three bytes give back the first half too. -/
theorem returns_encodeSlice_iff_threeBytes :
    Returns (decodeSlice gf256 ((encodeSlice gf256 [7, 8, 9] 2 1).drop 1) 2 1) 2 [7, 8, 9, 0] :=
  (returns_encodeSlice_iff [7, 8, 9] 2 1 (by decide) (by decide) (by decide) (by decide) _ (List.drop_sublist 1 _)
    (by decide)).mpr (Or.inr (by decide))

/-- Of 2 GiB in two halves a slice with a negative size is made. -/
theorem returns_resized : ¬ Returns (decodeSlice gf256 (encodeSlice gf256 (List.replicate (UInt32.size / 2) 0) 2 0) 2 0) 2
    (List.replicate (UInt32.size / 2) 0) := by
  rintro ⟨_, size⟩
  rw [List.length_replicate] at size
  exact absurd size (by decide)

end Encoder

end FlexRaft
