import FlexRaft.LrcStripe

namespace FlexRaft

/-- Which node holds which fragment, in the order in which `BuildNodeToFragmentsMapping` hands them out. -/
abbrev Assignments := List (Nat × Nat)

namespace Assignments

/-- `node_to_frags_` of one node. -/
def fragsOf (given : Assignments) (node : Nat) : List Nat :=
  given.filterMap fun p => if p.1 = node then some p.2 else none

theorem mem_fragsOf {given : Assignments} {node fragId : Nat} : fragId ∈ given.fragsOf node ↔ (node, fragId) ∈ given := by
  simp only [fragsOf, List.mem_filterMap]
  constructor
  · rintro ⟨p, member, found⟩
    split at found
    · rename_i same
      cases found
      exact same ▸ member
    · cases found
  · exact fun member => ⟨_, member, if_pos rfl⟩

end Assignments

/-- What `LrcComplementaryGrouper` has after the clustering: the members of its two groups, which `VerifyGroups` finds
to be disjoint, to cover all nodes and to differ in size by at most one. -/
structure LrcLayout where
  n : Nat
  params : LrcParams
  derived : LrcParams.fromCapacity n 2 = some params
  groups : List (List Nat)
  count : groups.length = params.l
  covers : groups.flatten.Perm (List.range n)
  balanced : ∀ group ∈ groups, ∀ other ∈ groups, group.length ≤ other.length + 1

namespace LrcLayout

/-- The node of data fragment `i` of a group; the last member is left to the local parity. -/
def dataNode (nodes : List Nat) (i : Nat) : Nat := (nodes[i % (nodes.length - 1)]?).getD 0

def parityNode (nodes : List Nat) : Nat := nodes.getLast?.getD 0

def dataAssignments (layout : LrcLayout) : Assignments :=
  layout.groups.zipIdx.flatMap fun (nodes, g) =>
    (List.range layout.params.localK).map fun i => (dataNode nodes i, g * layout.params.localK + i)

def parityAssignments (layout : LrcLayout) : Assignments :=
  layout.groups.zipIdx.map fun (nodes, g) => (parityNode nodes, layout.params.k + g)

/-- The next global parity goes to a node that holds less than two fragments. -/
def giveGlobal (state : Assignments × Nat) (node : Nat) : Assignments × Nat :=
  if (state.1.fragsOf node).length < 2 then (state.1 ++ [(node, state.2)], state.2 + 1) else state

/-- One round over all nodes, as long as there are global parities left. -/
def giveRound (layout : LrcLayout) (state : Assignments × Nat) : Assignments × Nat :=
  (List.range layout.n).foldl
    (fun state node => if state.2 < layout.params.totalShards then giveGlobal state node else state) state

/-- The `while` loop. A round in which no node has room is repeated for ever. -/
def giveRounds (layout : LrcLayout) : Nat → Assignments × Nat → Option Assignments
  | 0, state => if layout.params.totalShards ≤ state.2 then some state.1 else none
  | fuel + 1, state =>
    if layout.params.totalShards ≤ state.2 then some state.1 else layout.giveRounds fuel (layout.giveRound state)

/-- `none` if the loop does not end. -/
def buildNodeToFragmentsMapping (layout : LrcLayout) : Option Assignments :=
  let first := layout.groups.flatten.foldl giveGlobal
    (layout.dataAssignments ++ layout.parityAssignments, layout.params.k + layout.params.l)
  layout.giveRounds layout.params.r first

def dataPlacements (layout : LrcLayout) : List FragmentPlacement :=
  layout.groups.zipIdx.flatMap fun (nodes, g) =>
    (List.range layout.params.localK).map fun i =>
      { fragId := g * layout.params.localK + i, localGroup := g, nodeId := dataNode nodes i, kind := .kData }

def parityPlacements (layout : LrcLayout) : List FragmentPlacement :=
  layout.groups.zipIdx.map fun (nodes, g) =>
    { fragId := layout.params.k + g, localGroup := g, nodeId := parityNode nodes, kind := .kLocalParity }

def globalPlacements (layout : LrcLayout) (given : Assignments) : List FragmentPlacement :=
  (List.range layout.n).flatMap fun node =>
    ((given.fragsOf node).filter fun fragId => layout.params.k + layout.params.l ≤ fragId).map fun fragId =>
      { fragId := fragId, localGroup := -1, nodeId := node, kind := .kGlobalParity }

def nodePlacementsVector (layout : LrcLayout) (given : Assignments) : List FragmentPlacement :=
  layout.dataPlacements ++ layout.parityPlacements ++ layout.globalPlacements given

/-- The group of a node: that of its first data fragment, else that of its local parity, else the one it is in. -/
def lrcGroupIdForNode (layout : LrcLayout) (given : Assignments) (node : Nat) : Int :=
  let p := layout.params
  let frags := given.fragsOf node
  if layout.n ≤ node then -1
  else match frags.find? (fun fragId => fragId < p.k) with
    | some fragId => (fragId / p.localK : Nat)
    | none => match frags.find? (fun fragId => fragId < p.k + p.l) with
      | some fragId => (fragId - p.k : Nat)
      | none => match layout.groups.findIdx? (fun nodes => nodes.contains node) with
        | some g => (g : Nat)
        | none => -1

theorem k_pos (layout : LrcLayout) : 0 < layout.params.k := by
  obtain ⟨_, _, _, k, _⟩ := LrcParams.fromCapacity_eq_some layout.derived
  omega

/-- The grouper of these groups, with the encoder it is used with. -/
def grouper (layout : LrcLayout) (isal : Isal) : Option LrcGrouper :=
  layout.buildNodeToFragmentsMapping.map fun given =>
    { n := layout.n
      k := layout.params.k
      l := layout.params.l
      r := layout.params.r
      k_pos := layout.k_pos
      fragmentsForNode := fun node => if layout.n ≤ node then [] else given.fragsOf node
      nodePlacementsVector := layout.nodePlacementsVector given
      lrcGroupIdForNode := layout.lrcGroupIdForNode given
      encodeStripe := fun data => some (LrcEncoder.encodeStripe isal layout.params data) }

section Placement

variable (layout : LrcLayout) {node : Nat}

theorem twoGroups : ∃ a b, layout.groups = [a, b] ∧ layout.params.l = 2 ∧
    layout.params.k = layout.params.localK + layout.params.localK := by
  obtain ⟨_, _, two, _, split, _⟩ := LrcParams.fromCapacity_eq_some layout.derived
  obtain ⟨a, b, groups⟩ := List.length_eq_two.mp (layout.count.trans two)
  exact ⟨a, b, groups, two, by omega⟩

theorem map_fragId_dataPlacements :
    layout.dataPlacements.map FragmentPlacement.fragId = List.range layout.params.k := by
  obtain ⟨a, b, groups, _, k⟩ := layout.twoGroups
  rw [dataPlacements, groups, k, List.range_add]
  simp [List.map_map, Function.comp_def]

theorem kind_of_mem_dataPlacements {fp : FragmentPlacement} (member : fp ∈ layout.dataPlacements) :
    fp.kind = .kData := by
  simp only [dataPlacements, List.mem_flatMap, List.mem_map] at member
  obtain ⟨_, _, _, _, rfl⟩ := member
  rfl

theorem takeWhile_nodePlacementsVector (given : Assignments) :
    (layout.nodePlacementsVector given).takeWhile (fun fp => fp.kind = .kData) = layout.dataPlacements := by
  obtain ⟨a, b, groups, _⟩ := layout.twoGroups
  rw [nodePlacementsVector, List.append_assoc, List.takeWhile_append_of_pos]
  · simp [parityPlacements, groups]
  · exact fun fp member => by simpa using layout.kind_of_mem_dataPlacements member

theorem lt_of_mem_groups {nodes : List Nat} (group : nodes ∈ layout.groups) (member : node ∈ nodes) :
    node < layout.n :=
  List.mem_range.mp (layout.covers.subset (List.mem_flatten.mpr ⟨nodes, group, member⟩))

theorem lrcGroupIdForNode_nonneg (given : Assignments) (bound : node < layout.n) :
    0 ≤ layout.lrcGroupIdForNode given node := by
  obtain ⟨nodes, group, member⟩ := List.mem_flatten.mp (layout.covers.symm.subset (List.mem_range.mpr bound))
  unfold lrcGroupIdForNode
  dsimp only
  rw [if_neg (Nat.not_le.mpr bound)]
  split
  · exact Int.natCast_nonneg _
  · split
    · exact Int.natCast_nonneg _
    · split
      · exact Int.natCast_nonneg _
      · rename_i nowhere
        rw [List.findIdx?_eq_none_iff] at nowhere
        have missing := nowhere nodes group
        simp [member] at missing

end Placement

/-- As many fragments are given away as ids are used up. -/
structure Counted (state : Assignments × Nat) : Prop where
  length : state.1.length = state.2
  ids : ∀ p ∈ state.1, p.2 < state.2

section Counted

variable {state : Assignments × Nat} {bound : Nat}

theorem Counted.giveGlobal (counted : Counted state) (node : Nat) :
    Counted (LrcLayout.giveGlobal state node) ∧ (LrcLayout.giveGlobal state node).2 ≤ state.2 + 1 := by
  unfold LrcLayout.giveGlobal
  split
  · refine ⟨⟨by simp [counted.length], fun p member => ?_⟩, le_rfl⟩
    rcases List.mem_append.mp member with old | new
    · exact Nat.lt_succ_of_lt (counted.ids p old)
    · rw [List.mem_singleton.mp new]
      exact Nat.lt_succ_self _
  · exact ⟨counted, Nat.le_succ _⟩

theorem Counted.giveAll (counted : Counted state) (nodes : List Nat) :
    Counted (nodes.foldl LrcLayout.giveGlobal state) ∧
      (nodes.foldl LrcLayout.giveGlobal state).2 ≤ state.2 + nodes.length := by
  induction nodes generalizing state with
  | nil => exact ⟨counted, le_rfl⟩
  | cons node rest ih =>
    obtain ⟨here, bound⟩ := counted.giveGlobal node
    obtain ⟨later, total⟩ := ih here
    refine ⟨later, ?_⟩
    rw [List.foldl_cons, List.length_cons]
    omega

theorem Counted.giveRound (counted : Counted state) (layout : LrcLayout)
    (total : layout.params.totalShards ≤ bound) (below : state.2 ≤ bound) :
    Counted (layout.giveRound state) ∧ (layout.giveRound state).2 ≤ bound := by
  unfold LrcLayout.giveRound
  induction List.range layout.n generalizing state with
  | nil => exact ⟨counted, below⟩
  | cons node rest ih =>
    rw [List.foldl_cons]
    split
    · obtain ⟨here, next⟩ := counted.giveGlobal node
      exact ih here (by omega)
    · exact ih counted below

theorem Counted.giveRounds (counted : Counted state) (layout : LrcLayout) {fuel : Nat} {given : Assignments}
    (total : layout.params.totalShards ≤ bound) (below : state.2 ≤ bound)
    (done : layout.giveRounds fuel state = some given) : given.length ≤ bound ∧ ∀ p ∈ given, p.2 < bound := by
  induction fuel generalizing state with
  | zero =>
    unfold LrcLayout.giveRounds at done
    split at done <;> cases done
    exact ⟨counted.length.trans_le below, fun p member => (counted.ids p member).trans_le below⟩
  | succ fuel ih =>
    unfold LrcLayout.giveRounds at done
    split at done
    · cases done
      exact ⟨counted.length.trans_le below, fun p member => (counted.ids p member).trans_le below⟩
    · obtain ⟨here, next⟩ := counted.giveRound layout total below
      exact ih here next done

end Counted

section Bounds

variable (layout : LrcLayout) {given : Assignments}

theorem counted_start : Counted (layout.dataAssignments ++ layout.parityAssignments,
    layout.params.k + layout.params.l) := by
  obtain ⟨a, b, groups, two, k⟩ := layout.twoGroups
  refine ⟨?_, fun p member => ?_⟩
  · simp [dataAssignments, parityAssignments, groups, k, two, Nat.add_assoc]
  · simp only [dataAssignments, parityAssignments, groups, List.mem_append, List.mem_flatMap, List.mem_map,
      List.mem_range, List.zipIdx_cons, List.zipIdx_nil, List.mem_cons, List.not_mem_nil, or_false] at member
    dsimp only
    rcases member with ⟨_, rfl | rfl, i, bound, rfl⟩ | ⟨_, rfl | rfl, rfl⟩ <;> dsimp only <;> omega

theorem buildNodeToFragmentsMapping_bound (built : layout.buildNodeToFragmentsMapping = some given) :
    given.length ≤ 3 * layout.n ∧ ∀ p ∈ given, p.2 < 3 * layout.n := by
  obtain ⟨_, _, _, _, _, total⟩ := LrcParams.fromCapacity_eq_some layout.derived
  obtain ⟨counted, bound⟩ := layout.counted_start.giveAll layout.groups.flatten
  rw [layout.covers.length_eq, List.length_range] at bound
  have room : layout.params.k + layout.params.l ≤ layout.params.totalShards := Nat.le_add_right _ _
  exact counted.giveRounds layout (by omega) (bound.trans (by dsimp only; omega)) built

theorem n_pos : 0 < layout.n := by
  obtain ⟨nodes, _⟩ := LrcParams.fromCapacity_eq_some layout.derived
  omega

theorem dataNode_lt {nodes : List Nat} (group : nodes ∈ layout.groups) (i : Nat) : dataNode nodes i < layout.n := by
  unfold dataNode
  cases found : nodes[i % (nodes.length - 1)]? with
  | none => exact layout.n_pos
  | some node => exact layout.lt_of_mem_groups group (List.mem_of_getElem? found)

theorem parityNode_lt {nodes : List Nat} (group : nodes ∈ layout.groups) : parityNode nodes < layout.n := by
  unfold parityNode
  cases last : nodes.getLast? with
  | none => exact layout.n_pos
  | some node => exact layout.lt_of_mem_groups group (List.mem_of_getLast? last)

theorem mem_nodePlacementsVector_lt (built : layout.buildNodeToFragmentsMapping = some given) {fp : FragmentPlacement}
    (member : fp ∈ layout.nodePlacementsVector given) : fp.fragId < 3 * layout.n ∧ fp.nodeId < layout.n := by
  obtain ⟨_, ids⟩ := layout.buildNodeToFragmentsMapping_bound built
  obtain ⟨_, _, _, k, _, total⟩ := LrcParams.fromCapacity_eq_some layout.derived
  obtain ⟨a, b, groups, two, split⟩ := layout.twoGroups
  have inA : a ∈ layout.groups := by simp [groups]
  have inB : b ∈ layout.groups := by simp [groups]
  simp only [nodePlacementsVector, dataPlacements, parityPlacements, globalPlacements, groups, List.zipIdx_cons,
    List.zipIdx_nil, List.mem_append, List.mem_flatMap, List.mem_map, List.mem_filter, List.mem_range, List.mem_cons,
    List.not_mem_nil, or_false] at member
  unfold LrcParams.totalShards at total
  rcases member with (⟨_, rfl | rfl, i, below, rfl⟩ | ⟨_, rfl | rfl, rfl⟩) | ⟨node, below, fragId, ⟨held, _⟩, rfl⟩
  · exact ⟨by dsimp only; omega, layout.dataNode_lt inA i⟩
  · exact ⟨by dsimp only; omega, layout.dataNode_lt inB i⟩
  · exact ⟨by dsimp only; omega, layout.parityNode_lt inA⟩
  · exact ⟨by dsimp only; omega, layout.parityNode_lt inB⟩
  · exact ⟨ids _ (Assignments.mem_fragsOf.mp held), below⟩

theorem length_flatMap_le {α β : Type} {f : α → List β} {bound : Nat} {items : List α}
    (each : ∀ a ∈ items, (f a).length ≤ bound) : (items.flatMap f).length ≤ items.length * bound := by
  induction items with
  | nil => exact Nat.zero_le _
  | cons a rest ih =>
    have here := each a List.mem_cons_self
    have later := ih fun b inside => each b (List.mem_cons_of_mem a inside)
    rw [List.flatMap_cons, List.length_append, List.length_cons, Nat.add_mul, Nat.one_mul]
    omega

theorem length_nodePlacementsVector_le (built : layout.buildNodeToFragmentsMapping = some given) :
    (layout.nodePlacementsVector given).length ≤ 2 * layout.n + layout.n * (3 * layout.n) := by
  obtain ⟨count, _⟩ := layout.buildNodeToFragmentsMapping_bound built
  obtain ⟨_, _, _, _, _, total⟩ := LrcParams.fromCapacity_eq_some layout.derived
  have data : layout.dataPlacements.length = layout.params.k := by
    rw [← List.length_map FragmentPlacement.fragId, layout.map_fragId_dataPlacements, List.length_range]
  have parity : layout.parityPlacements.length = layout.params.l := by
    simp [parityPlacements, layout.count]
  have globals : (layout.globalPlacements given).length ≤ layout.n * (3 * layout.n) := by
    have each : ∀ node, ((given.fragsOf node).filter fun fragId => layout.params.k + layout.params.l ≤ fragId).length ≤
        3 * layout.n :=
      fun node => ((List.length_filter_le _ _).trans (List.length_filterMap_le _ _)).trans count
    refine (length_flatMap_le fun node _ => ?_).trans (by rw [List.length_range])
    rw [List.length_map]
    exact each node
  rw [nodePlacementsVector, List.length_append, List.length_append, data, parity]
  unfold LrcParams.totalShards at total
  omega

theorem length_nodePlacementsVector_lt (built : layout.buildNodeToFragmentsMapping = some given) (size : layout.n ≤ 32) :
    (layout.nodePlacementsVector given).length < UInt32.size := by
  have bound := layout.length_nodePlacementsVector_le built
  have square : layout.n * (3 * layout.n) ≤ 32 * (3 * 32) := Nat.mul_le_mul size (Nat.mul_le_mul_left 3 size)
  simp only [UInt32.size]
  omega

end Bounds

end LrcLayout

end FlexRaft
