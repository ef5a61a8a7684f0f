import FlexRaft.NodeLosses
import FlexRaft.AppendEntries
import Mathlib.LinearAlgebra.Matrix.Rank

namespace FlexRaft

open GF256 CauchyCode

namespace LrcParams

/-- The coefficients with which fragment `fragId` is made of the data fragments: the identity for a data fragment,
a row of RS(k/l, 1) on the columns of its group for a local parity, and a row of RS(k, r) for a global one. -/
def fragmentRow (p : LrcParams) (fragId j : Nat) : GF256 :=
  if fragId < p.k then if fragId = j then 1 else 0
  else if fragId < p.k + p.l then
    let first := (fragId - p.k) * p.localK
    if first ≤ j ∧ j < first + p.localK then (ofIndex p.localK - ofIndex (j - first))⁻¹ else 0
  else (ofIndex (fragId - p.l) - ofIndex j)⁻¹

/-- The rows of some fragments. -/
def rowsOf (p : LrcParams) (held : List Nat) : Matrix (Fin held.length) (Fin p.k) GF256 := fun i j =>
  p.fragmentRow held[i] j

/-- What fragment `fragId` has at one place, given what the data fragments have there. -/
def combined (p : LrcParams) (fragId : Nat) (v : Fin p.k → GF256) : GF256 := ∑ j : Fin p.k, p.fragmentRow fragId j * v j

section Rows

variable {p : LrcParams} {fragId : Nat} {v : Fin p.k → GF256} {g i : Nat} {held : List Nat}

theorem combined_global (isGlobal : p.IsGlobal fragId) :
    p.combined fragId v = symbol ofIndex p.k v (p.globalRow fragId) := by
  unfold combined symbol
  refine Finset.sum_congr rfl fun j _ => congrArg (· * v j) ?_
  rcases isGlobal with data | parity
  · have atRow : p.globalRow fragId = fragId := if_pos data
    rw [fragmentRow, row, atRow, if_pos data, if_pos data]
  · have atRow : p.globalRow fragId = fragId - p.l := if_neg (by omega)
    rw [fragmentRow, row, atRow, if_neg (by omega), if_neg (by omega), if_neg (by omega)]

theorem combined_local (below : g < p.l) (divides : p.k = p.l * p.localK) (f : Nat → GF256) :
    p.combined (p.k + g) (fun j => f j) =
      ∑ i : Fin p.localK, (ofIndex p.localK - ofIndex i)⁻¹ * f (g * p.localK + i) := by
  have inside : g * p.localK + p.localK ≤ p.k := by
    rw [divides, ← Nat.succ_mul]
    exact Nat.mul_le_mul_right _ below
  have outside : ∀ j ∈ Finset.range p.k, j ∉ Finset.Ico (g * p.localK) (g * p.localK + p.localK) →
      p.fragmentRow (p.k + g) j * f j = 0 := by
    intro j _ other
    rw [Finset.mem_Ico] at other
    unfold fragmentRow
    rw [if_neg (by omega), if_pos (by omega), Nat.add_sub_cancel_left, if_neg other, zero_mul]
  have part : Finset.Ico (g * p.localK) (g * p.localK + p.localK) ⊆ Finset.range p.k := fun j member =>
    Finset.mem_range.mpr ((Finset.mem_Ico.mp member).2.trans_le inside)
  unfold combined
  rw [Fin.sum_univ_eq_sum_range (fun j => p.fragmentRow (p.k + g) j * f j) p.k, ← Finset.sum_subset part outside,
    Finset.sum_Ico_eq_sum_range, Nat.add_sub_cancel_left,
    Fin.sum_univ_eq_sum_range (fun i => (ofIndex p.localK - ofIndex i)⁻¹ * f (g * p.localK + i)) p.localK]
  refine Finset.sum_congr rfl fun i member => congrArg (· * f (g * p.localK + i)) ?_
  have bound := Finset.mem_range.mp member
  unfold fragmentRow
  rw [if_neg (by omega), if_pos (by omega), Nat.add_sub_cancel_left, if_pos (by omega), Nat.add_sub_cancel_left]

theorem combined_eq_zero_of_mulVec (zero : (p.rowsOf held).mulVec v = 0) (member : fragId ∈ held) :
    p.combined fragId v = 0 := by
  obtain ⟨i, bound, rfl⟩ := List.getElem_of_mem member
  exact congrFun zero ⟨i, bound⟩

theorem rank_rowsOf (trivial : ∀ v, (∀ fragId ∈ held, p.combined fragId v = 0) → v = 0) :
    (p.rowsOf held).rank = p.k := by
  have injective : Function.Injective (p.rowsOf held).mulVecLin := by
    refine (injective_iff_map_eq_zero _).mpr fun v zero => ?_
    exact trivial v fun _ member => combined_eq_zero_of_mulVec zero member
  rw [Matrix.rank, LinearMap.finrank_range_of_inj injective, Module.finrank_fin_fun]

theorem rank_rowsOf_lt (nonzero : v ≠ 0) (zero : ∀ fragId ∈ held, p.combined fragId v = 0) :
    (p.rowsOf held).rank < p.k := by
  have kernel : v ∈ LinearMap.ker (p.rowsOf held).mulVecLin := by
    rw [LinearMap.mem_ker]
    exact funext fun i => zero held[i] (List.getElem_mem i.isLt)
  have dimension : 1 ≤ Module.finrank GF256 (LinearMap.ker (p.rowsOf held).mulVecLin) := by
    rw [Submodule.one_le_finrank_iff]
    exact fun bottom => nonzero ((Submodule.mem_bot GF256).mp (bottom ▸ kernel))
  have total := LinearMap.finrank_range_add_finrank_ker (p.rowsOf held).mulVecLin
  rw [Module.finrank_fin_fun] at total
  unfold Matrix.rank
  omega

theorem IsGlobal.globalRow_injective {other : Nat} (isGlobal : p.IsGlobal fragId) (isGlobal' : p.IsGlobal other)
    (same : p.globalRow fragId = p.globalRow other) : fragId = other := by
  unfold IsGlobal at isGlobal isGlobal'
  unfold globalRow at same
  split at same <;> split at same <;> omega

/-- All data fragments of group `g` but one are there. -/
def OneMissing (p : LrcParams) (held : List Nat) (g : Nat) : Prop :=
  ∃ i < p.localK, g * p.localK + i ∉ held ∧ ∀ j < p.localK, j ≠ i → g * p.localK + j ∈ held

instance (p : LrcParams) (held : List Nat) (g : Nat) : Decidable (p.OneMissing held g) := by
  unfold OneMissing
  infer_instance

theorem eq_zero_of_data {j : Nat} (bound : j < p.k) (zero : p.combined j v = 0) : v ⟨j, bound⟩ = 0 := by
  have atRow : p.globalRow j = j := if_pos bound
  rwa [combined_global (Or.inl bound), atRow, symbol_of_lt bound] at zero

theorem eq_zero_of_local (room : p.k + p.r < 256) (divides : p.k = p.l * p.localK) (below : g < p.l)
    (inside : i < p.localK) (bound : g * p.localK + i < p.k) (zero : p.combined (p.k + g) v = 0)
    (others : ∀ j < p.localK, j ≠ i → ∀ b : g * p.localK + j < p.k, v ⟨g * p.localK + j, b⟩ = 0) :
    v ⟨g * p.localK + i, bound⟩ = 0 := by
  let f : Nat → GF256 := fun j => if b : j < p.k then v ⟨j, b⟩ else 0
  have same : (fun j : Fin p.k => f j) = v := funext fun j => dif_pos j.isLt
  have small : p.localK ≤ p.k := Nat.div_le_self _ _
  have sum := combined_local below divides f
  rw [same, zero, Finset.sum_eq_single ⟨i, inside⟩] at sum
  · have factor : (ofIndex p.localK - ofIndex i)⁻¹ ≠ 0 := by
      refine inv_ne_zero (sub_ne_zero.mpr fun equal => ?_)
      exact Nat.ne_of_gt inside (ofIndex_injective (by omega) (by omega) equal)
    have value := (mul_eq_zero.mp sum.symm).resolve_left factor
    rwa [show f (g * p.localK + i) = v ⟨g * p.localK + i, bound⟩ from dif_pos bound] at value
  · intro j _ other
    have apart : j.val ≠ i := fun equal => other (Fin.ext equal)
    refine mul_eq_zero_of_right _ ?_
    by_cases b : g * p.localK + j < p.k
    · rw [show f (g * p.localK + j) = v ⟨g * p.localK + j, b⟩ from dif_pos b]
      exact others j j.isLt apart b
    · exact dif_neg b
  · exact fun missing => absurd (Finset.mem_univ _) missing

theorem group_unique {g' i' : Nat} (inside : i < p.localK) (inside' : i' < p.localK)
    (same : g * p.localK + i = g' * p.localK + i') : g = g' := by
  have quotient : ∀ g i, i < p.localK → (g * p.localK + i) / p.localK = g := by
    intro g i bound
    rw [Nat.add_comm, Nat.add_mul_div_right _ _ (Nat.zero_lt_of_lt bound), Nat.div_eq_of_lt bound, Nat.zero_add]
  rw [← quotient g i inside, same, quotient g' i' inside']

/-- `k` fragments determine the data if each local parity among them stands for one missing data fragment. -/
theorem eq_zero_of_held (room : p.k + p.r < 256) (divides : p.k = p.l * p.localK)
    (distinct : held.Nodup) (enough : held.length = p.k) (below : ∀ fragId ∈ held, fragId < p.totalShards)
    (alone : ∀ g < p.l, p.k + g ∈ held → p.OneMissing held g)
    (zero : ∀ fragId ∈ held, p.combined fragId v = 0) : v = 0 := by
  choose! missing inside absent others using alone
  -- A local parity stands in the row of the data fragment that it replaces.
  let standsIn : Nat → Nat := fun fragId =>
    if p.IsGlobal fragId then p.globalRow fragId else (fragId - p.k) * p.localK + missing (fragId - p.k)
  have localOf : ∀ fragId, ¬ p.IsGlobal fragId → ∃ g < p.l, fragId = p.k + g ∧
      standsIn fragId = g * p.localK + missing g := by
    intro fragId notGlobal
    have place : standsIn fragId = (fragId - p.k) * p.localK + missing (fragId - p.k) := if_neg notGlobal
    simp only [IsGlobal, not_or, Nat.not_lt, Nat.not_le] at notGlobal
    exact ⟨fragId - p.k, by omega, by omega, place⟩
  have data : ∀ g < p.l, ∀ i < p.localK, g * p.localK + i < p.k := by
    intro g groupBound i bound
    calc g * p.localK + i < (g + 1) * p.localK := by rw [Nat.add_mul, Nat.one_mul]; omega
      _ ≤ p.l * p.localK := Nat.mul_le_mul_right _ groupBound
      _ = p.k := divides.symm
  have apart : ∀ a ∈ held, p.IsGlobal a → ∀ g < p.l, p.k + g ∈ held → p.globalRow a ≠ g * p.localK + missing g := by
    intro a member isGlobal g groupBound parity same
    have bound := data g groupBound _ (inside g groupBound parity)
    have first : a < p.k := by
      unfold IsGlobal at isGlobal
      unfold globalRow at same
      split at same <;> omega
    have atRow : p.globalRow a = a := if_pos first
    exact absent g groupBound parity (same ▸ atRow.symm ▸ member)
  have injective : Set.InjOn standsIn held.toFinset := by
    intro a inA b inB same
    rw [List.coe_toFinset] at inA inB
    by_cases globalA : p.IsGlobal a <;> by_cases globalB : p.IsGlobal b
    · simp only [standsIn, if_pos globalA, if_pos globalB] at same
      exact globalA.globalRow_injective globalB same
    · obtain ⟨g, bound, rfl, place⟩ := localOf b globalB
      rw [place] at same
      exact absurd ((if_pos globalA).symm.trans same) (apart a inA globalA g bound inB)
    · obtain ⟨g, bound, rfl, place⟩ := localOf a globalA
      rw [place] at same
      exact absurd ((if_pos globalB).symm.trans same.symm) (apart b inB globalB g bound inA)
    · obtain ⟨g, bound, rfl, place⟩ := localOf a globalA
      obtain ⟨g', bound', rfl, place'⟩ := localOf b globalB
      rw [place, place'] at same
      rw [group_unique (inside g bound inA) (inside g' bound' inB) same]
  have known : ∀ fragId ∈ held, standsIn fragId < p.k + p.r ∧ symbol ofIndex p.k v (standsIn fragId) = 0 := by
    intro fragId member
    by_cases isGlobal : p.IsGlobal fragId
    · have place : standsIn fragId = p.globalRow fragId := if_pos isGlobal
      rw [place, ← combined_global isGlobal]
      exact ⟨isGlobal.globalRow_lt (below fragId member), zero fragId member⟩
    · obtain ⟨g, groupBound, rfl, place⟩ := localOf fragId isGlobal
      have bound := data g groupBound _ (inside g groupBound member)
      rw [place, symbol_of_lt bound]
      refine ⟨Nat.lt_add_right _ bound, eq_zero_of_local room divides groupBound (inside g groupBound member) bound
        (zero _ member) fun j within other b => ?_⟩
      exact eq_zero_of_data b (zero _ (others g groupBound member j within other))
  have count : p.k ≤ (held.toFinset.image standsIn).card := by
    rw [Finset.card_image_of_injOn injective, List.toFinset_card_of_nodup distinct, enough]
  refine eq_zero_of_symbols (Encoder.ofIndex_distinct room.le) (Nat.le_add_right _ _) ?_ count ?_
  all_goals
    intro r member
    obtain ⟨fragId, inHeld, rfl⟩ := Finset.mem_image.mp member
  · exact (known fragId (List.mem_toFinset.mp inHeld)).1
  · exact (known fragId (List.mem_toFinset.mp inHeld)).2

end Rows

end LrcParams

namespace LrcEncoder

open Encoder Isal

section Stripe

variable {p : LrcParams} {data : Slice} {place : Nat}

/-- At each place the fragments of a stripe are made of the data fragments with the coefficients of their rows. -/
theorem encodeStripe_getD {fragId : Nat} {frag : Slice} (several : 1 < p.localK) (divides : p.k = p.l * p.localK)
    (found : (encodeStripe gf256 p data)[fragId]? = some frag) (bound : place < fragmentSize data p.k) :
    ofByte (frag.getD place 0) = p.combined fragId (column data p.k place) := by
  have inside : fragId < p.totalShards := by
    have index := (List.getElem?_eq_some_iff.mp found).1
    rwa [length_encodeStripe] at index
  by_cases isGlobal : p.IsGlobal fragId
  · rw [encodeStripe_global isGlobal inside, Option.some.injEq] at found
    rw [← found, encodeFragment_getD (several.trans_le (Nat.div_le_self _ _)) bound, LrcParams.combined_global isGlobal]
  · simp only [LrcParams.IsGlobal, not_or, Nat.not_lt, Nat.not_le] at isGlobal
    obtain ⟨g, rfl⟩ := Nat.exists_eq_add_of_le isGlobal.1
    have below : g < p.l := by omega
    have size : fragmentSize (groupData data p g) p.localK = fragmentSize data p.k :=
      fragmentSize_groupData below (Nat.zero_lt_of_lt several)
    have parity : frag = encodeFragment gf256 (groupData data p g) p.localK 1 p.localK :=
      (Option.some.inj ((encodeStripe_local below).symm.trans found)).symm
    refine Eq.trans ?_ (LrcParams.combined_local below divides fun j => ofByte ((dataFragment data p.k j).getD place 0)).symm
    rw [parity, encodeFragment_getD several (size ▸ bound), symbol]
    refine Finset.sum_congr rfl fun i _ => ?_
    rw [row, if_neg (Nat.lt_irrefl _), column, dataFragment_groupData below divides i.isLt]

/-- Fragments whose rows have a trivial kernel are those of one value only. -/
theorem value_unique {held : List Nat} {value value' : Slice} (several : 1 < p.localK) (divides : p.k = p.l * p.localK)
    (trivial : ∀ v, (∀ fragId ∈ held, p.combined fragId v = 0) → v = 0) (below : ∀ fragId ∈ held, fragId < p.totalShards)
    (size : value.length = value'.length)
    (same : ∀ fragId ∈ held, (encodeStripe gf256 p value)[fragId]? = (encodeStripe gf256 p value')[fragId]?) :
    value = value' := by
  have positive : 0 < p.k := (Nat.zero_lt_of_lt several).trans_le (Nat.div_le_self _ _)
  have sizes : fragmentSize value p.k = fragmentSize value' p.k := by rw [fragmentSize, fragmentSize, size]
  have columns : ∀ place < fragmentSize value' p.k, column value p.k place = column value' p.k place := by
    intro place bound
    refine sub_eq_zero.mp (trivial _ fun fragId member => ?_)
    have inside : fragId < (encodeStripe gf256 p value').length := by
      rw [length_encodeStripe]
      exact below fragId member
    have found := List.getElem?_eq_getElem inside
    have sum := encodeStripe_getD several divides found bound
    have sum' := encodeStripe_getD several divides ((same fragId member).trans found) (sizes ▸ bound)
    simp only [LrcParams.combined, Pi.sub_apply, mul_sub, Finset.sum_sub_distrib] at sum sum' ⊢
    rw [← sum, ← sum', sub_self]
  have fragments : ∀ i ∈ List.range p.k, dataFragment value p.k i = dataFragment value' p.k i := by
    intro i member
    have bound := List.mem_range.mp member
    refine slice_ext ?_ fun place inside => ?_
    · rw [length_dataFragment bound, length_dataFragment bound, sizes]
    · rw [length_dataFragment bound] at inside
      exact congrFun (columns place inside) ⟨i, bound⟩
  have whole : ∀ slice : Slice, (((List.range p.k).map (dataFragment slice p.k)).flatten).take slice.length = slice :=
    fun _ => take_flatten_dataFragments positive
  rw [← whole value, ← whole value', List.map_congr_left fragments, size]

end Stripe

end LrcEncoder

namespace LrcLayout

open Encoder Isal

/-- `F + ceil(k/2)` nodes, the leader among them. -/
def commitThreshold (layout : LrcLayout) : Nat := (layout.n - 1) / 2 + (layout.params.k + 1) / 2

/-- This is what the leader of a group of `n` nodes asks for at an index whose entry has this `k`. -/
theorem commitThreshold_eq (layout : LrcLayout) {s : RaftState} {index : Nat} (nodes : s.getClusterServerNumber = layout.n)
    (required : s.commitRequireK index = layout.params.k) : s.commitThreshold index = layout.commitThreshold := by
  unfold RaftState.getClusterServerNumber at nodes
  rw [RaftState.commitThreshold, RaftState.livenessLevel, required, commitThreshold]
  omega

/-- The nodes that have the entry and are not lost. -/
def holdersLeft (layout : LrcLayout) (holding lost : Finset Nat) : List Nat :=
  (List.range layout.n).filter fun node => node ∈ holding \ lost

theorem length_holdersLeft (layout : LrcLayout) {holding lost : Finset Nat} (members : holding ⊆ Finset.range layout.n)
    (part : lost ⊆ holding) : (layout.holdersLeft holding lost).length = holding.card - lost.card := by
  rw [← Finset.card_sdiff_of_subset part]
  have whole : (Finset.range layout.n).filter (fun node => node ∈ holding \ lost) = holding \ lost := by
    rw [Finset.filter_mem_eq_inter, Finset.inter_eq_right]
    exact Finset.sdiff_subset.trans members
  conv_rhs => rw [← whole]
  rfl

end LrcLayout

end FlexRaft
