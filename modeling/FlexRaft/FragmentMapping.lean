import FlexRaft.LrcGrouping

namespace FlexRaft

namespace Assignments

variable {holders : List Nat}

theorem length_fragsOf (given : Assignments) (node : Nat) :
    (given.fragsOf node).length = (given.map Prod.fst).count node := by
  induction given with
  | nil => rfl
  | cons p rest ih =>
    by_cases same : p.1 = node
    · simp only [fragsOf, List.filterMap_cons, same, if_true, List.length_cons, List.map_cons, List.count_cons_self] at ih ⊢
      rw [ih]
    · simp only [fragsOf, List.filterMap_cons, same, if_false, List.map_cons, ne_eq, not_false_eq_true,
        List.count_cons_of_ne] at ih ⊢
      exact ih

theorem mem_fragsOf_zipIdx {node fragId : Nat} :
    fragId ∈ fragsOf holders.zipIdx node ↔ holders[fragId]? = some node := by
  rw [mem_fragsOf, List.mem_zipIdx_iff_getElem?]

theorem length_fragsOf_zipIdx (node : Nat) : (fragsOf holders.zipIdx node).length = holders.count node := by
  rw [length_fragsOf, List.zipIdx_map_fst]

theorem fragsOf_sublist (given : Assignments) (node : Nat) : (given.fragsOf node).Sublist (given.map Prod.snd) := by
  induction given with
  | nil => exact List.Sublist.refl _
  | cons p rest ih =>
    simp only [fragsOf, List.filterMap_cons, List.map_cons] at ih ⊢
    split
    · exact ih.cons _
    · rename_i fragId found
      split at found <;> cases found
      exact ih.cons_cons _

theorem nodup_fragsOf_zipIdx (node : Nat) : (fragsOf holders.zipIdx node).Nodup := by
  refine (fragsOf_sublist holders.zipIdx node).nodup ?_
  rw [List.zipIdx_map_snd]
  exact List.nodup_range'

end Assignments

namespace LrcLayout

/-- The next fragments go to these nodes, in this order. -/
def handOut (state : Assignments × Nat) (nodes : List Nat) : Assignments × Nat :=
  (state.1 ++ nodes.zipIdx state.2, state.2 + nodes.length)

section HandOut

variable {state : Assignments × Nat}

theorem handOut_nil : handOut state [] = state := by
  simp [handOut]

theorem handOut_handOut (nodes later : List Nat) : handOut (handOut state nodes) later = handOut state (nodes ++ later) := by
  simp only [handOut, List.zipIdx_append, List.append_assoc, List.length_append, Nat.add_assoc]

theorem giveGlobal_eq (node : Nat) :
    giveGlobal state node = handOut state (if (state.1.map Prod.fst).count node < 2 then [node] else []) := by
  rw [giveGlobal, Assignments.length_fragsOf]
  split
  · rfl
  · exact handOut_nil.symm

theorem count_handOut (nodes : List Nat) (node : Nat) :
    ((handOut state nodes).1.map Prod.fst).count node = (state.1.map Prod.fst).count node + nodes.count node := by
  rw [handOut, List.map_append, List.count_append, List.zipIdx_map_fst]

theorem giveAll_eq {nodes : List Nat} (distinct : nodes.Nodup)
    (room : ∀ node ∈ nodes, (state.1.map Prod.fst).count node < 2) : nodes.foldl giveGlobal state = handOut state nodes := by
  induction nodes generalizing state with
  | nil => exact handOut_nil.symm
  | cons node rest ih =>
    obtain ⟨fresh, later⟩ := List.nodup_cons.mp distinct
    have here := room node List.mem_cons_self
    rw [List.foldl_cons, giveGlobal_eq, if_pos here, ih later, handOut_handOut, List.singleton_append]
    intro other member
    have apart : other ≠ node := fun same => fresh (same ▸ member)
    rw [count_handOut, List.count_singleton, if_neg (by simpa using apart.symm)]
    exact room other (List.mem_cons_of_mem node member)

theorem giveRound_eq (layout : LrcLayout) : layout.giveRound state = handOut state
    (((List.range layout.n).filter fun node => (state.1.map Prod.fst).count node < 2).take
      (layout.params.totalShards - state.2)) := by
  unfold giveRound
  generalize List.range layout.n = nodes, (List.nodup_range : (List.range layout.n).Nodup) = distinct
  induction nodes generalizing state with
  | nil => simp [handOut_nil]
  | cons node rest ih =>
    obtain ⟨fresh, later⟩ := List.nodup_cons.mp distinct
    rw [List.foldl_cons]
    by_cases left : state.2 < layout.params.totalShards
    · rw [if_pos left, giveGlobal_eq]
      by_cases room : (state.1.map Prod.fst).count node < 2
      · -- The others have what they had before.
        have others : rest.filter (fun other => ((handOut state [node]).1.map Prod.fst).count other < 2) =
            rest.filter fun other => (state.1.map Prod.fst).count other < 2 := by
          refine List.filter_congr fun other member => ?_
          have apart : other ≠ node := fun same => fresh (same ▸ member)
          rw [count_handOut, List.count_singleton, if_neg (by simpa using apart.symm), Nat.add_zero]
        have count : layout.params.totalShards - state.2 = layout.params.totalShards - (handOut state [node]).2 + 1 := by
          simp only [handOut, List.length_singleton]
          omega
        rw [if_pos room, ih later, others, handOut_handOut, List.filter_cons_of_pos (by simpa using room), count,
          List.take_succ_cons, List.singleton_append]
      · rw [if_neg room, handOut_nil, ih later, List.filter_cons_of_neg (by simpa using room)]
    · have none : layout.params.totalShards - state.2 = 0 := by omega
      rw [if_neg left, ih later, none, List.take_zero, List.take_zero]

end HandOut

section Holders

variable (layout : LrcLayout) {node : Nat}

/-- The nodes of the data fragments and of the local parities. -/
def firstHolders : List Nat :=
  layout.groups.flatMap (List.take layout.params.localK) ++ layout.groups.map parityNode

/-- The nodes of all fragments, in the order of the fragment ids. -/
def holders : List Nat :=
  layout.firstHolders ++ layout.groups.flatten ++ (List.range layout.n).filter fun node => node ∉ layout.firstHolders

theorem nodup_flatten : layout.groups.flatten.Nodup := layout.covers.nodup_iff.mpr List.nodup_range

/-- The groups are large enough for a node of its own for each of their data fragments and their parity. -/
theorem localK_lt {nodes : List Nat} (group : nodes ∈ layout.groups) : layout.params.localK < nodes.length := by
  obtain ⟨many, _, _, k, _, _⟩ := LrcParams.fromCapacity_eq_some layout.derived
  obtain ⟨a, b, groups, _, split⟩ := layout.twoGroups
  have total := layout.covers.length_eq
  rw [groups, List.flatten_cons, List.flatten_cons, List.flatten_nil, List.append_nil, List.length_append,
    List.length_range] at total
  have inA : a ∈ layout.groups := by simp [groups]
  have inB : b ∈ layout.groups := by simp [groups]
  have less := layout.balanced a inA b inB
  have more := layout.balanced b inB a inA
  rw [groups, List.mem_cons, List.mem_singleton] at group
  rcases group with rfl | rfl <;> omega

theorem parityNode_eq {nodes : List Nat} (nonempty : nodes ≠ []) : parityNode nodes = nodes.getLast nonempty := by
  rw [parityNode, List.getLast?_eq_some_getLast nonempty, Option.getD_some]

theorem dataNode_eq {nodes : List Nat} {i : Nat} (bound : i + 1 < nodes.length) :
    nodes[i]? = some (dataNode nodes i) := by
  rw [dataNode, Nat.mod_eq_of_lt (by omega), List.getElem?_eq_getElem (by omega), Option.getD_some]

theorem groupHolders_sublist {nodes : List Nat} (group : nodes ∈ layout.groups) :
    (nodes.take layout.params.localK ++ [parityNode nodes]).Sublist nodes := by
  have large := layout.localK_lt group
  have nonempty : nodes ≠ [] := List.ne_nil_of_length_pos (Nat.zero_lt_of_lt large)
  have last : nodes.dropLast ++ [parityNode nodes] = nodes := by
    rw [parityNode_eq nonempty, List.dropLast_append_getLast]
  have first : (nodes.take layout.params.localK).Sublist nodes.dropLast := by
    rw [List.dropLast_eq_take]
    exact (List.take_prefix_take_left (by omega)).sublist
  conv_rhs => rw [← last]
  exact first.append_right _

theorem firstHolders_subperm : layout.firstHolders.Subperm layout.groups.flatten := by
  obtain ⟨a, b, groups, _, _⟩ := layout.twoGroups
  have inA : a ∈ layout.groups := by simp [groups]
  have inB : b ∈ layout.groups := by simp [groups]
  have reorder : layout.firstHolders.Perm
      ((a.take layout.params.localK ++ [parityNode a]) ++ (b.take layout.params.localK ++ [parityNode b])) := by
    simp only [firstHolders, groups, List.flatMap_cons, List.flatMap_nil, List.map_cons, List.map_nil, List.append_nil]
    rw [List.append_assoc, List.append_assoc]
    refine List.Perm.append_left _ ?_
    exact List.perm_middle
  refine ⟨_, reorder.symm, ?_⟩
  rw [groups, List.flatten_cons, List.flatten_cons, List.flatten_nil, List.append_nil]
  exact (layout.groupHolders_sublist inA).append (layout.groupHolders_sublist inB)

theorem take_zipIdx {nodes : List Nat} (group : nodes ∈ layout.groups) (start : Nat) :
    (nodes.take layout.params.localK).zipIdx start =
      (List.range layout.params.localK).map fun i => (dataNode nodes i, start + i) := by
  have large := layout.localK_lt group
  refine List.ext_getElem (by simpa using large.le) fun i inside _ => ?_
  have bound : i < layout.params.localK := by simpa [large.le] using inside
  have node : nodes[i] = dataNode nodes i := Option.some.inj
    ((List.getElem?_eq_getElem (by omega)).symm.trans (dataNode_eq (by omega)))
  simp only [List.getElem_zipIdx, List.getElem_take, List.getElem_map, List.getElem_range, node]

theorem firstHolders_zipIdx : layout.firstHolders.zipIdx = layout.dataAssignments ++ layout.parityAssignments := by
  obtain ⟨a, b, groups, _, split⟩ := layout.twoGroups
  have inA : a ∈ layout.groups := by simp [groups]
  have inB : b ∈ layout.groups := by simp [groups]
  have largeA := layout.localK_lt inA
  have largeB := layout.localK_lt inB
  simp only [firstHolders, dataAssignments, parityAssignments, groups, List.flatMap_cons, List.flatMap_nil, List.map_cons,
    List.map_nil, List.append_nil, List.zipIdx_append, layout.take_zipIdx inA, layout.take_zipIdx inB,
    List.zipIdx_cons, List.zipIdx_nil, List.length_append, List.length_take, Nat.min_eq_left largeA.le,
    Nat.min_eq_left largeB.le, split]
  simp only [Nat.zero_mul, Nat.zero_add, Nat.one_mul, Nat.add_zero]

theorem length_firstHolders : layout.firstHolders.length = layout.params.k + layout.params.l := by
  have count := layout.counted_start.length
  rwa [← layout.firstHolders_zipIdx, List.length_zipIdx] at count

theorem nodup_firstHolders : layout.firstHolders.Nodup := by
  obtain ⟨_, same, part⟩ := layout.firstHolders_subperm
  exact same.nodup_iff.mp (part.nodup layout.nodup_flatten)

theorem mem_flatten_of_lt (bound : node < layout.n) : node ∈ layout.groups.flatten :=
  layout.covers.symm.subset (List.mem_range.mpr bound)

theorem count_holders (bound : node < layout.n) : layout.holders.count node = 2 := by
  have once := List.count_eq_one_of_mem layout.nodup_flatten (layout.mem_flatten_of_lt bound)
  rw [holders, List.count_append, List.count_append, once]
  by_cases first : node ∈ layout.firstHolders
  · have later : node ∉ (List.range layout.n).filter fun node => node ∉ layout.firstHolders := by
      simp [first]
    rw [List.count_eq_one_of_mem layout.nodup_firstHolders first, List.count_eq_zero_of_not_mem later]
  · have later : node ∈ (List.range layout.n).filter fun node => node ∉ layout.firstHolders := by
      simp [first, bound]
    rw [List.count_eq_zero_of_not_mem first, List.count_eq_one_of_mem (List.nodup_range.filter _) later]

theorem mem_holders (member : node ∈ layout.holders) : node < layout.n := by
  have inside : ∀ node ∈ layout.groups.flatten, node < layout.n := fun node member =>
    List.mem_range.mp (layout.covers.subset member)
  rcases List.mem_append.mp member with early | rest
  · rcases List.mem_append.mp early with first | second
    · exact inside node (layout.firstHolders_subperm.subset first)
    · exact inside node second
  · exact List.mem_range.mp (List.mem_filter.mp rest).1

theorem firstHolders_lt (member : node ∈ layout.firstHolders) : node < layout.n :=
  layout.mem_holders (List.mem_append_left _ (List.mem_append_left _ member))

theorem length_rest : ((List.range layout.n).filter fun node => node ∉ layout.firstHolders).length +
    (layout.params.k + layout.params.l) = layout.n := by
  have first : ((List.range layout.n).filter fun node => node ∈ layout.firstHolders).Perm layout.firstHolders := by
    rw [List.perm_ext_iff_of_nodup (List.nodup_range.filter _) layout.nodup_firstHolders]
    intro node
    simp only [List.mem_filter, List.mem_range, decide_eq_true_eq]
    exact ⟨And.right, fun member => ⟨layout.firstHolders_lt member, member⟩⟩
  have parts := List.length_eq_length_filter_add (l := List.range layout.n) fun node => node ∈ layout.firstHolders
  rw [List.length_range, first.length_eq, layout.length_firstHolders] at parts
  simp only [decide_not]
  omega

theorem length_holders : layout.holders.length = 2 * layout.n := by
  obtain ⟨_, _, _, _, _, total⟩ := LrcParams.fromCapacity_eq_some layout.derived
  have rest := layout.length_rest
  rw [holders, List.length_append, List.length_append, layout.length_firstHolders, layout.covers.length_eq,
    List.length_range]
  omega

theorem giveRounds_of_round {state : Assignments × Nat} {fuel : Nat} (positive : 0 < fuel)
    (done : layout.params.totalShards ≤ (layout.giveRound state).2) :
    layout.giveRounds fuel state = some (layout.giveRound state).1 := by
  obtain ⟨fuel, rfl⟩ := Nat.exists_eq_succ_of_ne_zero (Nat.ne_of_gt positive)
  unfold giveRounds
  by_cases full : layout.params.totalShards ≤ state.2
  · rw [if_pos full, giveRound_eq, Nat.sub_eq_zero_of_le full, List.take_zero, handOut_nil]
  · rw [if_neg full]
    cases fuel <;> rw [giveRounds, if_pos done]

theorem buildNodeToFragmentsMapping_eq : layout.buildNodeToFragmentsMapping = some layout.holders.zipIdx := by
  obtain ⟨many, _, two, k, _, total⟩ := LrcParams.fromCapacity_eq_some layout.derived
  have start : (layout.dataAssignments ++ layout.parityAssignments, layout.params.k + layout.params.l) =
      handOut ([], 0) layout.firstHolders := by
    rw [handOut, List.nil_append, layout.firstHolders_zipIdx, layout.length_firstHolders, Nat.zero_add]
  have once : ∀ node, layout.firstHolders.count node ≤ 1 := List.nodup_iff_count_le_one.mp layout.nodup_firstHolders
  have first : layout.groups.flatten.foldl giveGlobal (handOut ([], 0) layout.firstHolders) =
      handOut ([], 0) (layout.firstHolders ++ layout.groups.flatten) := by
    rw [giveAll_eq layout.nodup_flatten, handOut_handOut]
    intro node _
    rw [count_handOut]
    exact Nat.lt_of_le_of_lt (by simpa using once node) Nat.one_lt_two
  -- In the second round there are as many fragments left as there are nodes with a single one.
  have room : ((List.range layout.n).filter fun node =>
      ((handOut ([], 0) (layout.firstHolders ++ layout.groups.flatten)).1.map Prod.fst).count node < 2) =
      (List.range layout.n).filter fun node => node ∉ layout.firstHolders := by
    refine List.filter_congr fun node inside => ?_
    have member := List.count_eq_one_of_mem layout.nodup_flatten (layout.mem_flatten_of_lt (List.mem_range.mp inside))
    refine decide_eq_decide.mpr ?_
    rw [count_handOut, List.count_append, member, ← List.count_pos_iff, List.map_nil, List.count_nil]
    omega
  have rest := layout.length_rest
  have count : (handOut ([], 0) (layout.firstHolders ++ layout.groups.flatten)).2 =
      layout.params.k + layout.params.l + layout.n := by
    rw [handOut, List.length_append, layout.length_firstHolders, layout.covers.length_eq, List.length_range, Nat.zero_add]
  have round : layout.giveRound (handOut ([], 0) (layout.firstHolders ++ layout.groups.flatten)) =
      handOut ([], 0) layout.holders := by
    rw [giveRound_eq, room, count, List.take_of_length_le (by omega), handOut_handOut, holders]
  have all : layout.holders.length = layout.params.totalShards := layout.length_holders.trans total.symm
  unfold LrcParams.totalShards at total
  rw [buildNodeToFragmentsMapping, start, first, layout.giveRounds_of_round (by omega), round]
  · simp only [handOut, List.nil_append]
  · rw [round, handOut, all]
    exact Nat.le_add_left _ _

end Holders

section Placements

variable (layout : LrcLayout) {fragId node g i : Nat}

theorem holders_getElem?_of_lt (first : fragId < layout.params.k + layout.params.l) :
    layout.holders[fragId]? = layout.firstHolders[fragId]? := by
  rw [holders, List.append_assoc, List.getElem?_append_left (by rwa [layout.length_firstHolders])]

theorem holders_of_mem_first (member : (node, fragId) ∈ layout.dataAssignments ++ layout.parityAssignments) :
    layout.holders[fragId]? = some node := by
  rw [← layout.firstHolders_zipIdx, List.mem_zipIdx_iff_getElem?] at member
  have bound := (List.getElem?_eq_some_iff.mp member).1
  rw [layout.holders_getElem?_of_lt (by rwa [← layout.length_firstHolders]), member]

theorem holders_data {nodes : List Nat} (group : layout.groups[g]? = some nodes)
    (bound : i < layout.params.localK) : layout.holders[g * layout.params.localK + i]? = some (dataNode nodes i) := by
  refine layout.holders_of_mem_first (List.mem_append_left _ ?_)
  exact List.mem_flatMap.mpr ⟨(nodes, g), List.mem_zipIdx_iff_getElem?.mpr group,
    List.mem_map.mpr ⟨i, List.mem_range.mpr bound, rfl⟩⟩

theorem holders_parity {nodes : List Nat} (group : layout.groups[g]? = some nodes) :
    layout.holders[layout.params.k + g]? = some (parityNode nodes) := by
  refine layout.holders_of_mem_first (List.mem_append_right _ ?_)
  exact List.mem_map.mpr ⟨(nodes, g), List.mem_zipIdx_iff_getElem?.mpr group, rfl⟩

theorem dataNode_ne_parityNode {nodes : List Nat} (group : nodes ∈ layout.groups)
    (bound : i < layout.params.localK) : dataNode nodes i ≠ parityNode nodes := by
  have large := layout.localK_lt group
  have nonempty : nodes ≠ [] := List.ne_nil_of_length_pos (Nat.zero_lt_of_lt large)
  have distinct : nodes.Nodup := (List.nodup_flatten.mp layout.nodup_flatten).1 nodes group
  intro same
  have data : nodes[i]? = some (parityNode nodes) := same ▸ dataNode_eq (by omega)
  have last : nodes[nodes.length - 1]? = some (parityNode nodes) := by
    rw [parityNode_eq nonempty, ← List.getLast?_eq_getElem?, List.getLast?_eq_some_getLast nonempty]
  have index := (List.getElem?_inj (by omega) distinct).mp (data.trans last.symm)
  omega

/-- A fragment of the vector and its node. -/
def placedPair (fp : FragmentPlacement) : Nat × Nat := (fp.nodeId, fp.fragId)

theorem placedPair_first : (layout.dataPlacements ++ layout.parityPlacements).map placedPair = layout.firstHolders.zipIdx := by
  rw [layout.firstHolders_zipIdx]
  simp only [dataPlacements, parityPlacements, dataAssignments, parityAssignments, List.map_append, List.map_flatMap,
    List.map_map, Function.comp_def, placedPair]

theorem mem_placedPair_global {given : Assignments} : (node, fragId) ∈ (layout.globalPlacements given).map placedPair ↔
      node < layout.n ∧ fragId ∈ given.fragsOf node ∧ layout.params.k + layout.params.l ≤ fragId := by
  simp only [globalPlacements, List.map_flatMap, List.map_map, List.mem_flatMap, List.mem_map, List.mem_range,
    List.mem_filter, Function.comp_def, placedPair, Prod.mk.injEq, decide_eq_true_eq]
  constructor
  · rintro ⟨_, bound, _, held, rfl, rfl⟩
    exact ⟨bound, held⟩
  · rintro ⟨bound, held⟩
    exact ⟨node, bound, fragId, held, rfl, rfl⟩

theorem nodup_placedPair_global : ((layout.globalPlacements layout.holders.zipIdx).map placedPair).Nodup := by
  simp only [globalPlacements, List.map_flatMap, List.map_map]
  rw [List.nodup_flatMap]
  refine ⟨fun node _ => ?_, ?_⟩
  · refine ((Assignments.nodup_fragsOf_zipIdx node).filter _).map ?_
    exact fun _ _ same => congrArg Prod.snd same
  · refine List.nodup_range.imp fun {a b} apart => ?_
    intro p inA inB
    obtain ⟨_, _, rfl⟩ := List.mem_map.mp inA
    obtain ⟨_, _, same⟩ := List.mem_map.mp inB
    exact apart (congrArg Prod.fst same).symm

theorem mem_placedPair : (node, fragId) ∈ (layout.nodePlacementsVector layout.holders.zipIdx).map placedPair ↔
      layout.holders[fragId]? = some node := by
  rw [nodePlacementsVector, List.map_append, List.mem_append, placedPair_first, List.mem_zipIdx_iff_getElem?,
    mem_placedPair_global, Assignments.mem_fragsOf_zipIdx]
  dsimp only
  constructor
  · rintro (first | ⟨_, held, _⟩)
    · have bound := (List.getElem?_eq_some_iff.mp first).1
      rwa [layout.holders_getElem?_of_lt (by rwa [← layout.length_firstHolders])]
    · exact held
  · intro held
    by_cases first : fragId < layout.params.k + layout.params.l
    · exact Or.inl (layout.holders_getElem?_of_lt first ▸ held)
    · exact Or.inr ⟨layout.mem_holders (List.mem_of_getElem? held), held, Nat.not_lt.mp first⟩

theorem nodup_placedPair : ((layout.nodePlacementsVector layout.holders.zipIdx).map placedPair).Nodup := by
  rw [nodePlacementsVector, List.map_append, placedPair_first]
  refine List.nodup_append'.mpr ⟨?_, layout.nodup_placedPair_global, ?_⟩
  · refine List.Nodup.of_map Prod.snd ?_
    rw [List.zipIdx_map_snd]
    exact List.nodup_range'
  · rintro ⟨node, fragId⟩ first globally
    have bound := (List.getElem?_eq_some_iff.mp (List.mem_zipIdx_iff_getElem?.mp first)).1
    have above := (layout.mem_placedPair_global.mp globally).2.2
    rw [layout.length_firstHolders] at bound
    exact Nat.not_lt.mpr above bound

end Placements

/-- Every fragment is on one node and every node holds two; a group's data and its parity are apart. The vector of
placements and the nodes' own lists say the same. -/
theorem fragmentMapping_balanced (layout : LrcLayout) : ∃ given, layout.buildNodeToFragmentsMapping = some given ∧
    (∀ fragId < 2 * layout.n, ∃! node, node < layout.n ∧ fragId ∈ given.fragsOf node) ∧
    (∀ node < layout.n, (given.fragsOf node).length = 2 ∧ (given.fragsOf node).Nodup ∧
      ∀ fragId ∈ given.fragsOf node, fragId < 2 * layout.n) ∧
    (∀ g < layout.params.l, ∀ i < layout.params.localK, ∀ node,
      layout.params.k + g ∈ given.fragsOf node → g * layout.params.localK + i ∉ given.fragsOf node) ∧
    ((layout.nodePlacementsVector given).map placedPair).Nodup ∧
    ∀ fragId node, (node, fragId) ∈ (layout.nodePlacementsVector given).map placedPair ↔
      node < layout.n ∧ fragId ∈ given.fragsOf node := by
  refine ⟨_, layout.buildNodeToFragmentsMapping_eq, ?_, ?_, ?_, layout.nodup_placedPair, ?_⟩
  · intro fragId bound
    rw [← layout.length_holders] at bound
    have holder := List.getElem?_eq_getElem bound
    refine ⟨layout.holders[fragId], ⟨layout.mem_holders (List.getElem_mem bound), ?_⟩, fun node held => ?_⟩
    · exact Assignments.mem_fragsOf_zipIdx.mpr holder
    · exact Option.some.inj ((Assignments.mem_fragsOf_zipIdx.mp held.2).symm.trans holder)
  · intro node bound
    refine ⟨?_, Assignments.nodup_fragsOf_zipIdx node, fun fragId held => ?_⟩
    · rw [Assignments.length_fragsOf_zipIdx, layout.count_holders bound]
    · rw [← layout.length_holders]
      exact (List.getElem?_eq_some_iff.mp (Assignments.mem_fragsOf_zipIdx.mp held)).1
  · intro g below i inside node parity data
    rw [← layout.count] at below
    have group := List.getElem?_eq_getElem below
    have onParity := (layout.holders_parity group).symm.trans (Assignments.mem_fragsOf_zipIdx.mp parity)
    have onData := (layout.holders_data group inside).symm.trans (Assignments.mem_fragsOf_zipIdx.mp data)
    exact layout.dataNode_ne_parityNode (List.getElem_mem below) inside (Option.some.inj (onData.trans onParity.symm))
  · intro fragId node
    rw [layout.mem_placedPair, Assignments.mem_fragsOf_zipIdx]
    exact ⟨fun held => ⟨layout.mem_holders (List.mem_of_getElem? held), held⟩, And.right⟩

end LrcLayout

end FlexRaft
