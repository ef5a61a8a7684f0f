import FlexRaft.FragmentMapping
import FlexRaft.ErasureCode

namespace FlexRaft

namespace LrcParams

/-- Fragments of the code over the whole value: data and global parities. -/
def IsGlobal (p : LrcParams) (fragId : Nat) : Prop := fragId < p.k ∨ p.k + p.l ≤ fragId

instance (p : LrcParams) (fragId : Nat) : Decidable (p.IsGlobal fragId) := by
  unfold IsGlobal
  infer_instance

/-- The row of such a fragment: data fragment `i` stands in row `i`, global parity `j` in row `k + j`. -/
def globalRow (p : LrcParams) (fragId : Nat) : Nat := if fragId < p.k then fragId else fragId - p.l

theorem IsGlobal.globalRow_lt {p : LrcParams} {fragId : Nat} (isGlobal : p.IsGlobal fragId)
    (bound : fragId < p.totalShards) : p.globalRow fragId < p.k + p.r := by
  unfold IsGlobal at isGlobal
  unfold totalShards at bound
  unfold globalRow
  split <;> omega

end LrcParams

namespace LrcEncoder

open Encoder

theorem encodeStripe_global {isal : Isal} {p : LrcParams} {data : Slice} {fragId : Nat} (isGlobal : p.IsGlobal fragId)
    (bound : fragId < p.totalShards) :
    (encodeStripe isal p data)[fragId]? = some (encodeFragment isal data p.k p.r (p.globalRow fragId)) := by
  unfold LrcParams.totalShards at bound
  rcases isGlobal with first | last
  · rw [encodeStripe, List.append_assoc, List.getElem?_append_left (by simpa using first), List.getElem?_map,
      List.getElem?_range first, Option.map_some, LrcParams.globalRow, if_pos first]
  · have row : p.k + (fragId - (p.k + p.l)) = fragId - p.l := by omega
    rw [encodeStripe, List.getElem?_append_right (by simpa using last), List.getElem?_map]
    simp only [List.length_append, List.length_map, List.length_range]
    rw [List.getElem?_range (by omega), Option.map_some, LrcParams.globalRow, if_neg (by omega), row]

end LrcEncoder

namespace Assignments

/-- The fragments that these nodes hold. -/
def fragmentsOn (given : Assignments) (nodes : List Nat) : List Nat := nodes.flatMap given.fragsOf

end Assignments

namespace LrcLayout

open Encoder Isal

section FragmentsOn

variable (layout : LrcLayout) {nodes : List Nat}

theorem nodup_fragmentsOn (distinct : nodes.Nodup) : (Assignments.fragmentsOn layout.holders.zipIdx nodes).Nodup := by
  rw [Assignments.fragmentsOn, List.nodup_flatMap]
  refine ⟨fun node _ => Assignments.nodup_fragsOf_zipIdx node, distinct.imp fun {a b} apart fragId inA inB => ?_⟩
  exact apart (Option.some.inj ((Assignments.mem_fragsOf_zipIdx.mp inA).symm.trans (Assignments.mem_fragsOf_zipIdx.mp inB)))

theorem length_fragmentsOn (inside : ∀ node ∈ nodes, node < layout.n) :
    (Assignments.fragmentsOn layout.holders.zipIdx nodes).length = 2 * nodes.length := by
  have two : ∀ node ∈ nodes, (Assignments.fragsOf layout.holders.zipIdx node).length = 2 := by
    intro node member
    rw [Assignments.length_fragsOf_zipIdx, layout.count_holders (inside node member)]
  rw [Assignments.fragmentsOn, List.length_flatMap, List.map_congr_left two, List.map_const', List.sum_replicate,
    smul_eq_mul, Nat.mul_comm]

theorem lt_of_mem_fragmentsOn {fragId : Nat} (member : fragId ∈ Assignments.fragmentsOn layout.holders.zipIdx nodes) :
    fragId < layout.params.totalShards := by
  obtain ⟨_, _, _, _, _, total⟩ := LrcParams.fromCapacity_eq_some layout.derived
  obtain ⟨node, _, held⟩ := List.mem_flatMap.mp member
  rw [total, ← layout.length_holders]
  exact (List.getElem?_eq_some_iff.mp (Assignments.mem_fragsOf_zipIdx.mp held)).1

/-- Among the fragments of some nodes, at most two are local parities. -/
theorem length_isGlobal (distinct : nodes.Nodup) (inside : ∀ node ∈ nodes, node < layout.n) : 2 * nodes.length ≤
      ((Assignments.fragmentsOn layout.holders.zipIdx nodes).filter layout.params.IsGlobal).length + 2 := by
  have parts := List.length_eq_length_filter_add (l := Assignments.fragmentsOn layout.holders.zipIdx nodes)
    fun fragId => layout.params.IsGlobal fragId
  rw [layout.length_fragmentsOn inside] at parts
  have parities : ((Assignments.fragmentsOn layout.holders.zipIdx nodes).filter fun fragId =>
      !decide (layout.params.IsGlobal fragId)) ⊆ [layout.params.k, layout.params.k + 1] := by
    intro fragId member
    obtain ⟨_, _, _, two, _⟩ := layout.twoGroups
    have neither : ¬ layout.params.IsGlobal fragId := by simpa using (List.mem_filter.mp member).2
    unfold LrcParams.IsGlobal at neither
    simp only [List.mem_cons, List.not_mem_nil, or_false]
    omega
  have few := (((layout.nodup_fragmentsOn distinct).filter _).subperm parities).length_le
  rw [List.length_cons, List.length_singleton] at few
  omega

end FragmentsOn

/-- The nodes without those that are lost. -/
def nodesLeft (layout : LrcLayout) (lost : Finset Nat) : List Nat := (List.range layout.n).filter fun node => node ∉ lost

theorem length_nodesLeft (layout : LrcLayout) {lost : Finset Nat} (members : lost ⊆ Finset.range layout.n) :
    (layout.nodesLeft lost).length = layout.n - lost.card := by
  have whole := Finset.card_sdiff_of_subset members
  rw [Finset.card_range] at whole
  rw [← whole, nodesLeft, Finset.sdiff_eq_filter]
  rfl

/-- Fragments of one value that nodes of the group hold, under their rows of the code over the whole value. -/
def GlobalFragments (layout : LrcLayout) (payload : Slice) (held : List Nat) (fragments : OrdMap Slice) : Prop :=
  fragments.Ascending ∧ ∀ p ∈ fragments, ∃ fragId ∈ held, p.1 = layout.params.globalRow fragId ∧
    (LrcEncoder.encodeStripe gf256 layout.params payload)[fragId]? = some p.2

def sixNodes : LrcLayout where
  n := 6
  params := { k := 4, l := 2, r := 6 }
  derived := by decide
  groups := [[0, 1, 2], [3, 4, 5]]
  count := rfl
  covers := by decide
  balanced := by decide

end LrcLayout

end FlexRaft
