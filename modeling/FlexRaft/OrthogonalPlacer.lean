import FlexRaft.LrcStripe
import FlexRaft.Lib.RoundRobin
import Mathlib.Algebra.BigOperators.Group.Finset.Basic
import Mathlib.Algebra.BigOperators.Fin
import Mathlib.Algebra.Order.BigOperators.Group.Finset
import Mathlib.Tactic.IntervalCases

namespace FlexRaft

structure LocalGroup where
  groupId : Nat
  memberNodes : List Nat
  isLarge : Bool
  deriving DecidableEq, Repr

/-- What the placement code throws: one constructor for each `throw`. -/
inductive PlacementError
  | partitionCount
  | emptyPartition
  | totalNotTwice
  | outOfCapacity
  | tooFewNodes
  | fragmentsNotTwice
  deriving DecidableEq, Repr

/-- The constructor checks that there is a partition for each local group and that none is empty. -/
structure OrthogonalPlacer where
  p : LrcParams
  partitions : List LocalGroup
  count : partitions.length = p.l
  nonempty : ∀ part ∈ partitions, part.memberNodes ≠ []

namespace OrthogonalPlacer

def new (p : LrcParams) (partitions : List LocalGroup) : Except PlacementError OrthogonalPlacer :=
  if count : partitions.length = p.l then
    if nonempty : ∀ part ∈ partitions, part.memberNodes ≠ [] then
      .ok { p := p, partitions := partitions, count := count, nonempty := nonempty }
    else .error .emptyPartition
  else .error .partitionCount

/-- The local variables of `Place2N`. The two vectors have an element for each partition. -/
structure Filling where
  cursor : Nat → Nat
  partitionCapacity : Nat → Int
  out : List FragmentPlacement

def nodes (placer : OrthogonalPlacer) (g : Nat) : List Nat := ((placer.partitions[g]?).map LocalGroup.memberNodes).getD []

def start (placer : OrthogonalPlacer) : Filling :=
  { cursor := fun _ => 0
    partitionCapacity := fun g => 2 * (placer.nodes g).length
    out := [] }

/-- The node whose turn it is in partition `g`. -/
def placement (placer : OrthogonalPlacer) (g fragId : Nat) (kind : FragmentKind) (s : Filling) : FragmentPlacement :=
  { fragId := fragId
    localGroup := g
    nodeId := RoundRobin.turn (placer.nodes g) 0 (s.cursor g)
    kind := kind }

def assignOne (placer : OrthogonalPlacer) (g fragId : Nat) (kind : FragmentKind) (s : Filling) : Filling :=
  { cursor := Function.update s.cursor g (s.cursor g + 1)
    partitionCapacity := Function.update s.partitionCapacity g (s.partitionCapacity g - 1)
    out := s.out ++ [placer.placement g fragId kind s] }

/-- The data fragments of partition `g`. -/
def placeDataOf (placer : OrthogonalPlacer) (s : Filling) (g : Nat) : Filling :=
  (List.range placer.p.localK).foldl (fun s i => placer.assignOne g (g * placer.p.localK + i) .kData s) s

def placeData (placer : OrthogonalPlacer) (s : Filling) : Filling := (List.range placer.p.l).foldl placer.placeDataOf s

def placeLocalParities (placer : OrthogonalPlacer) (s : Filling) : Filling :=
  (List.range placer.p.l).foldl (fun s g => placer.assignOne g (placer.p.k + g) .kLocalParity s) s

/-- `best_g` and `best_remain`: the first partition with the largest capacity left. -/
def best (capacity : Nat → Int) : (l : Nat) → Option Nat × Int
  | 0 => (none, -1)
  | g + 1 => if (best capacity g).2 < capacity g then (some g, capacity g) else best capacity g

def placeGlobalParity (placer : OrthogonalPlacer) (s : Filling) (i : Nat) : Except PlacementError Filling :=
  match best s.partitionCapacity placer.p.l with
  | (none, _) => .error .outOfCapacity
  | (some g, remain) =>
    if remain ≤ 0 then .error .outOfCapacity
    else .ok (placer.assignOne g (placer.p.k + placer.p.l + i) .kGlobalParity s)

def place2N (placer : OrthogonalPlacer) : Except PlacementError (List FragmentPlacement) :=
  if placer.p.totalShards ≠ 2 * (placer.partitions.map fun part => part.memberNodes.length).sum then .error .totalNotTwice
  else do
    let s ← (List.range placer.p.r).foldlM placer.placeGlobalParity
      (placer.placeLocalParities (placer.placeData placer.start))
    return s.out

/-- The fragments in the partition of local group `g`. -/
def inGroup (g : Nat) (out : List FragmentPlacement) : List FragmentPlacement :=
  out.filter fun fp => decide (fp.localGroup = (g : Int))

variable {placer : OrthogonalPlacer} {s s' : Filling} {kind : FragmentKind} {g : Nat}

theorem nodes_ne_nil (placer : OrthogonalPlacer) (below : g < placer.p.l) : placer.nodes g ≠ [] := by
  rw [← placer.count] at below
  rw [nodes, List.getElem?_eq_getElem below]
  exact placer.nonempty _ (List.getElem_mem below)

theorem sum_length_nodes (placer : OrthogonalPlacer) : ∑ g ∈ Finset.range placer.p.l, (placer.nodes g).length =
    (placer.partitions.map fun part => part.memberNodes.length).sum := by
  rw [← placer.count]
  unfold nodes
  induction placer.partitions with
  | nil => rfl
  | cons part rest ih =>
    rw [List.length_cons, Finset.sum_range_succ', List.map_cons, List.sum_cons, ← ih, Nat.add_comm]
    rfl

theorem inGroup_append (g : Nat) (out out' : List FragmentPlacement) : inGroup g (out ++ out') = inGroup g out ++ inGroup g out' :=
  List.filter_append _ _

/-- The partitions are filled in turn, and the fragments come in the order of their ids. -/
structure Filled (placer : OrthogonalPlacer) (s : Filling) : Prop where
  capacity : ∀ g, s.partitionCapacity g = 2 * (placer.nodes g).length - s.cursor g
  total : ∑ g ∈ Finset.range placer.p.l, s.cursor g = s.out.length
  ids : s.out.map FragmentPlacement.fragId = List.range s.out.length
  groups : ∀ fp ∈ s.out, ∃ g : Nat, g < placer.p.l ∧ fp.localGroup = g
  dealt : ∀ g, (inGroup g s.out).map FragmentPlacement.nodeId = RoundRobin.deal (placer.nodes g) 0 (s.cursor g)

theorem filled_start (placer : OrthogonalPlacer) : placer.Filled placer.start := by
  refine ⟨fun g => ?_, ?_, rfl, List.forall_mem_nil _, fun g => rfl⟩
  · simp [start]
  · simp [start]

theorem Filled.assignOne (filled : placer.Filled s) (below : g < placer.p.l) (kind : FragmentKind) :
    placer.Filled (placer.assignOne g s.out.length kind s) := by
  refine ⟨fun h => ?_, ?_, ?_, ?_, fun h => ?_⟩
  · have here := filled.capacity h
    by_cases same : h = g
    · subst same
      simp only [OrthogonalPlacer.assignOne, Function.update_self]
      omega
    · simpa only [OrthogonalPlacer.assignOne, Function.update_of_ne same] using here
  · have inside : g ∈ Finset.range placer.p.l := Finset.mem_range.mpr below
    have total := filled.total
    rw [← Finset.add_sum_erase _ _ inside] at total
    simp only [OrthogonalPlacer.assignOne, List.length_append, List.length_singleton]
    rw [Finset.sum_update_of_mem inside, Finset.sdiff_singleton_eq_erase]
    omega
  · simp only [OrthogonalPlacer.assignOne, placement, List.map_append, filled.ids, List.map_singleton, List.length_append,
      List.length_singleton, List.range_succ]
  · intro fp member
    rcases List.mem_append.mp member with earlier | new
    · exact filled.groups fp earlier
    · refine ⟨g, below, ?_⟩
      rw [List.mem_singleton.mp new]
      rfl
  · have here := filled.dealt h
    by_cases same : h = g
    · subst same
      simp only [OrthogonalPlacer.assignOne, inGroup_append, Function.update_self, List.map_append, here,
        RoundRobin.deal_succ]
      simp [inGroup, placement]
    · have other : ¬ ((g : Int) = h) := fun equal => same (Int.ofNat.inj equal).symm
      simp only [OrthogonalPlacer.assignOne, inGroup_append, Function.update_of_ne same, List.map_append, here]
      simp [inGroup, placement, other]

/-- The local group and the kind of a fragment. -/
def role (fp : FragmentPlacement) : Int × FragmentKind := (fp.localGroup, fp.kind)

def rolesIn (groups : List Nat) (kind : FragmentKind) : List (Int × FragmentKind) := groups.map fun g : Nat => (Int.ofNat g, kind)

theorem rolesIn_append (groups groups' : List Nat) (kind : FragmentKind) :
    rolesIn (groups ++ groups') kind = rolesIn groups kind ++ rolesIn groups' kind :=
  List.map_append

/-- Between `s` and `s'` lie fragments of one kind, in the order of these groups. -/
structure Placed (placer : OrthogonalPlacer) (kind : FragmentKind) (s : Filling) (groups : List Nat) (s' : Filling) : Prop where
  filled : placer.Filled s'
  cursor : ∀ g, s'.cursor g = s.cursor g + groups.count g
  grows : ∃ more, s'.out = s.out ++ more ∧ more.map role = rolesIn groups kind

namespace Placed

variable {groups groups' : List Nat}

theorem refl (filled : placer.Filled s) (kind : FragmentKind) : placer.Placed kind s [] s :=
  ⟨filled, fun _ => rfl, [], (List.append_nil _).symm, rfl⟩

theorem length_out (placed : placer.Placed kind s groups s') : s'.out.length = s.out.length + groups.length := by
  obtain ⟨more, grown, roles⟩ := placed.grows
  have length := congrArg List.length roles
  rw [List.length_map, rolesIn, List.length_map] at length
  rw [grown, List.length_append, length]

theorem next (placed : placer.Placed kind s groups s') (below : g < placer.p.l) {fragId : Nat}
    (id : fragId = s.out.length + groups.length) :
    placer.Placed kind s (groups ++ [g]) (placer.assignOne g fragId kind s') := by
  have last : fragId = s'.out.length := by rw [placed.length_out, id]
  subst last
  obtain ⟨more, grown, roles⟩ := placed.grows
  refine ⟨placed.filled.assignOne below kind, fun h => ?_, more ++ [placer.placement g s'.out.length kind s'], ?_, ?_⟩
  · rw [List.count_append, ← Nat.add_assoc, ← placed.cursor]
    by_cases same : h = g
    · subst same
      simp only [assignOne, Function.update_self, List.count_singleton_self]
    · simp only [assignOne, Function.update_of_ne same, List.count_singleton, beq_iff_eq, Ne.symm same, if_false, Nat.add_zero]
  · rw [← List.append_assoc, ← grown]
    rfl
  · rw [List.map_append, rolesIn_append, roles]
    rfl

theorem trans {s'' : Filling} (first : placer.Placed kind s groups s') (second : placer.Placed kind s' groups' s'') :
    placer.Placed kind s (groups ++ groups') s'' := by
  obtain ⟨more, grown, roles⟩ := first.grows
  obtain ⟨more', grown', roles'⟩ := second.grows
  refine ⟨second.filled, fun g => ?_, more ++ more', ?_, ?_⟩
  · rw [second.cursor, first.cursor, List.count_append, Nat.add_assoc]
  · rw [grown', grown, List.append_assoc]
  · rw [List.map_append, rolesIn_append, roles, roles']

end Placed

/-- The local groups of the data fragments. -/
def dataGroups (l localK : Nat) : List Nat := (List.range l).flatMap (List.replicate localK)

theorem length_dataGroups (l localK : Nat) : (dataGroups l localK).length = l * localK := by
  simp [dataGroups]

theorem count_dataGroups {l localK : Nat} (below : g < l) : (dataGroups l localK).count g = localK := by
  induction l with
  | zero => exact absurd below (Nat.not_lt_zero g)
  | succ l ih =>
    rw [dataGroups, List.range_succ, List.flatMap_append, List.count_append, ← dataGroups, List.flatMap_singleton,
      List.count_replicate]
    rcases Nat.lt_succ_iff_lt_or_eq.mp below with earlier | rfl
    · have other : (l == g) = false := beq_eq_false_iff_ne.mpr (by omega)
      rw [ih earlier, other, if_neg Bool.false_ne_true, Nat.add_zero]
    · have absent : g ∉ dataGroups g localK := by
        intro member
        obtain ⟨h, inside, copy⟩ := List.mem_flatMap.mp member
        rw [List.eq_of_mem_replicate copy, List.mem_range] at inside
        exact Nat.lt_irrefl h inside
      rw [List.count_eq_zero.mpr absent, beq_self_eq_true, if_pos rfl, Nat.zero_add]

theorem placed_placeDataOf (filled : placer.Filled s) (below : g < placer.p.l) (full : s.out.length = g * placer.p.localK) :
    placer.Placed .kData s (List.replicate placer.p.localK g) (placer.placeDataOf s g) := by
  have steps : ∀ n, placer.Placed .kData s (List.replicate n g)
      ((List.range n).foldl (fun s i => placer.assignOne g (g * placer.p.localK + i) .kData s) s) := by
    intro n
    induction n with
    | zero => exact .refl filled .kData
    | succ n ih =>
      rw [List.range_succ, List.foldl_append, List.replicate_succ']
      exact ih.next below (by rw [full, List.length_replicate])
  exact steps placer.p.localK

theorem placed_placeData (placer : OrthogonalPlacer) : placer.Placed .kData placer.start
    (dataGroups placer.p.l placer.p.localK) (placer.placeData placer.start) := by
  have steps : ∀ n ≤ placer.p.l, placer.Placed .kData placer.start (dataGroups n placer.p.localK)
      ((List.range n).foldl placer.placeDataOf placer.start) := by
    intro n
    induction n with
    | zero => exact fun _ => .refl placer.filled_start .kData
    | succ n ih =>
      intro below
      have before := ih (by omega)
      have full := before.length_out
      rw [length_dataGroups, start, List.length_nil, Nat.zero_add, ← start] at full
      rw [dataGroups, List.range_succ, List.foldl_append, List.flatMap_append, List.flatMap_singleton]
      exact before.trans (placed_placeDataOf before.filled below full)
  exact steps placer.p.l le_rfl

theorem placed_placeLocalParities (filled : placer.Filled s) (full : s.out.length = placer.p.k) :
    placer.Placed .kLocalParity s (List.range placer.p.l) (placer.placeLocalParities s) := by
  have steps : ∀ n ≤ placer.p.l, placer.Placed .kLocalParity s (List.range n)
      ((List.range n).foldl (fun s g => placer.assignOne g (placer.p.k + g) .kLocalParity s) s) := by
    intro n
    induction n with
    | zero => exact fun _ => .refl filled .kLocalParity
    | succ n ih =>
      intro below
      rw [List.range_succ, List.foldl_append]
      exact (ih (by omega)).next below (by rw [full, List.length_range])
  exact steps placer.p.l le_rfl

/-- The search finds the largest capacity, if one is not negative. -/
theorem best_eq (capacity : Nat → Int) (l : Nat) : (∀ g < l, capacity g ≤ (best capacity l).2) ∧
    (best capacity l = (none, -1) ∨ ∃ g < l, best capacity l = (some g, capacity g)) := by
  induction l with
  | zero => exact ⟨fun g below => absurd below (Nat.not_lt_zero g), Or.inl rfl⟩
  | succ l ih =>
    obtain ⟨largest, found⟩ := ih
    unfold best
    split
    · rename_i better
      refine ⟨fun g below => ?_, Or.inr ⟨l, Nat.lt_succ_self l, rfl⟩⟩
      rcases Nat.lt_succ_iff_lt_or_eq.mp below with earlier | rfl
      · exact (largest g earlier).trans better.le
      · exact le_rfl
    · rename_i worse
      refine ⟨fun g below => ?_, found.imp_right fun ⟨g, below, same⟩ => ⟨g, Nat.lt_succ_of_lt below, same⟩⟩
      rcases Nat.lt_succ_iff_lt_or_eq.mp below with earlier | rfl
      · exact largest g earlier
      · exact not_lt.mp worse

theorem Filled.sum_capacity (filled : placer.Filled s) : ∑ g ∈ Finset.range placer.p.l, s.partitionCapacity g =
    2 * (placer.partitions.map fun part => part.memberNodes.length).sum - s.out.length := by
  rw [← placer.sum_length_nodes, ← filled.total, Finset.sum_congr rfl fun g _ => filled.capacity g,
    Finset.sum_sub_distrib, ← Finset.mul_sum]
  push_cast
  rfl

/-- As long as a slot is left, the next global parity finds one. -/
theorem Filled.placeGlobalParity_eq (filled : placer.Filled s)
    (left : s.out.length < 2 * (placer.partitions.map fun part => part.memberNodes.length).sum) (i : Nat) :
    ∃ g < placer.p.l, 0 < s.partitionCapacity g ∧
      placer.placeGlobalParity s i = .ok (placer.assignOne g (placer.p.k + placer.p.l + i) .kGlobalParity s) := by
  have positive : ∑ g ∈ Finset.range placer.p.l, (0 : Int) < ∑ g ∈ Finset.range placer.p.l, s.partitionCapacity g := by
    rw [filled.sum_capacity, Finset.sum_const_zero]
    omega
  obtain ⟨g, inside, room⟩ := Finset.exists_lt_of_sum_lt positive
  obtain ⟨largest, found⟩ := best_eq s.partitionCapacity placer.p.l
  have more := largest g (Finset.mem_range.mp inside)
  rcases found with none | ⟨h, below, same⟩
  · rw [none] at more
    omega
  · rw [same] at more
    refine ⟨h, below, by omega, ?_⟩
    unfold placeGlobalParity
    rw [same]
    exact if_neg (by omega)

/-- All global parities find a slot, and no partition gets more than it has room for. -/
theorem Filled.placed_globalParities (filled : placer.Filled s) (first : s.out.length = placer.p.k + placer.p.l)
    (twice : placer.p.totalShards = 2 * (placer.partitions.map fun part => part.memberNodes.length).sum)
    (room : ∀ g < placer.p.l, 0 ≤ s.partitionCapacity g) :
    ∃ s' groups, (List.range placer.p.r).foldlM placer.placeGlobalParity s = .ok s' ∧ groups.length = placer.p.r ∧
      placer.Placed .kGlobalParity s groups s' ∧ ∀ g < placer.p.l, 0 ≤ s'.partitionCapacity g := by
  have steps : ∀ n ≤ placer.p.r, ∃ s' groups, (List.range n).foldlM placer.placeGlobalParity s = .ok s' ∧
      groups.length = n ∧ placer.Placed .kGlobalParity s groups s' ∧ ∀ g < placer.p.l, 0 ≤ s'.partitionCapacity g := by
    intro n
    induction n with
    | zero => exact fun _ => ⟨s, [], rfl, rfl, .refl filled _, room⟩
    | succ n ih =>
      intro below
      obtain ⟨s', groups, run, length, placed, fits⟩ := ih (by omega)
      have left : s'.out.length < 2 * (placer.partitions.map fun part => part.memberNodes.length).sum := by
        rw [placed.length_out, first, ← twice, LrcParams.totalShards]
        omega
      obtain ⟨g, inside, slot, step⟩ := placed.filled.placeGlobalParity_eq left n
      refine ⟨_, groups ++ [g], ?_, ?_, placed.next inside (by rw [first, length]), ?_⟩
      · rw [List.range_succ, List.foldlM_append, run]
        change placer.placeGlobalParity s' n >>= pure = _
        rw [step]
        rfl
      · rw [List.length_append, length, List.length_singleton]
      · intro h inside
        by_cases same : h = g
        · subst same
          simp only [OrthogonalPlacer.assignOne, Function.update_self]
          omega
        · simpa only [OrthogonalPlacer.assignOne, Function.update_of_ne same] using fits h inside
  exact steps placer.p.r le_rfl

/-- Every fragment has one place, every node two fragments, and a fragment stays in the partition of its local group.
The data comes first, one group after the other, and then the local parities. The data and the local parity of a group
are on different nodes. -/
structure Orthogonal (placer : OrthogonalPlacer) (placement : List FragmentPlacement) : Prop where
  ids : placement.map FragmentPlacement.fragId = List.range placer.p.totalShards
  twice : ∀ g < placer.p.l, ∀ node ∈ placer.nodes g, ((inGroup g placement).map FragmentPlacement.nodeId).count node = 2
  within : ∀ fp ∈ placement, ∃ g : Nat, g < placer.p.l ∧ fp.localGroup = g ∧ fp.nodeId ∈ placer.nodes g
  layout : ∃ groups, groups.length = placer.p.r ∧ placement.map role =
    rolesIn (dataGroups placer.p.l placer.p.localK) .kData ++ rolesIn (List.range placer.p.l) .kLocalParity ++
      rolesIn groups .kGlobalParity
  apart : ∀ g < placer.p.l, (((inGroup g placement).filter fun fp => decide (fp.kind ≠ .kGlobalParity)).map
    FragmentPlacement.nodeId).Nodup

theorem kind_of_roles {more : List FragmentPlacement} {groups : List Nat}
    (roles : more.map role = rolesIn groups kind) : ∀ fp ∈ more, fp.kind = kind := by
  intro fp member
  have listed := List.mem_map_of_mem (f := role) member
  rw [roles] at listed
  obtain ⟨g, _, same⟩ := List.mem_map.mp listed
  exact (congrArg Prod.snd same).symm

theorem Filled.nodeId_mem (filled : placer.Filled s) {fp : FragmentPlacement} (member : fp ∈ s.out) :
    ∃ g : Nat, g < placer.p.l ∧ fp.localGroup = g ∧ fp.nodeId ∈ placer.nodes g := by
  obtain ⟨g, below, same⟩ := filled.groups fp member
  refine ⟨g, below, same, ?_⟩
  have inside : fp ∈ inGroup g s.out := List.mem_filter.mpr ⟨member, decide_eq_true same⟩
  have dealt := List.mem_map_of_mem (f := FragmentPlacement.nodeId) inside
  rw [filled.dealt, RoundRobin.deal, List.mem_map] at dealt
  obtain ⟨i, _, turn⟩ := dealt
  rw [← turn]
  exact RoundRobin.turn_mem (placer.nodes_ne_nil below) i

/-- Partitions with room for the data and the local parity of a group are filled to the last slot. -/
theorem place2N_orthogonal (placer : OrthogonalPlacer) (divides : placer.p.k = placer.p.l * placer.p.localK)
    (twice : placer.p.totalShards = 2 * (placer.partitions.map fun part => part.memberNodes.length).sum)
    (room : ∀ g < placer.p.l, placer.p.localK + 1 ≤ (placer.nodes g).length)
    (distinct : ∀ g < placer.p.l, (placer.nodes g).Nodup) :
    ∃ placement, placer.place2N = .ok placement ∧ placer.Orthogonal placement := by
  have data := placer.placed_placeData
  have dataLength : (placer.placeData placer.start).out.length = placer.p.k := by
    rw [data.length_out, length_dataGroups, divides, start, List.length_nil, Nat.zero_add]
  have parities := placed_placeLocalParities data.filled dataLength
  generalize middle : placer.placeLocalParities (placer.placeData placer.start) = s at parities
  have front : ∀ g < placer.p.l, s.cursor g = placer.p.localK + 1 := by
    intro g below
    rw [parities.cursor, data.cursor, count_dataGroups below, List.count_eq_one_of_mem List.nodup_range
      (List.mem_range.mpr below), start, Nat.zero_add]
  have length : s.out.length = placer.p.k + placer.p.l := by rw [parities.length_out, dataLength, List.length_range]
  have spare : ∀ g < placer.p.l, 0 ≤ s.partitionCapacity g := by
    intro g below
    have capacity := parities.filled.capacity g
    have taken := front g below
    have enough := room g below
    omega
  obtain ⟨last, groups, run, count, globals, left⟩ := parities.filled.placed_globalParities length twice spare
  obtain ⟨dataOut, dataGrown, dataRoles⟩ := data.grows
  obtain ⟨localOut, localGrown, localRoles⟩ := parities.grows
  obtain ⟨globalOut, globalGrown, globalRoles⟩ := globals.grows
  rw [dataGrown, start, List.nil_append] at localGrown
  have total : last.out.length = placer.p.totalShards := by rw [globals.length_out, length, count, LrcParams.totalShards]
  refine ⟨last.out, ?_, ?_, ?_, fun fp => globals.filled.nodeId_mem, ⟨groups, count, ?_⟩, ?_⟩
  · rw [place2N, if_neg (not_not.mpr twice), middle, run]
    rfl
  · rw [globals.filled.ids, total]
  · intro g below node member
    have full : last.partitionCapacity g = 0 := by
      have none : ∑ g ∈ Finset.range placer.p.l, last.partitionCapacity g = 0 := by
        rw [globals.filled.sum_capacity, total]
        omega
      have each := (Finset.sum_eq_zero_iff_of_nonneg fun g inside => left g (Finset.mem_range.mp inside)).mp none
      exact each g (Finset.mem_range.mpr below)
    have cursor : last.cursor g = 2 * (placer.nodes g).length := by
      have capacity := globals.filled.capacity g
      omega
    rw [globals.filled.dealt, cursor, RoundRobin.count_deal (distinct g below) member]
  · rw [globalGrown, localGrown, List.map_append, List.map_append, dataRoles, localRoles, globalRoles]
  · intro g below
    have kept : (inGroup g s.out).filter (fun fp => decide (fp.kind ≠ .kGlobalParity)) = inGroup g s.out := by
      refine List.filter_eq_self.mpr fun fp member => decide_eq_true ?_
      have inside : fp ∈ dataOut ++ localOut := localGrown ▸ (List.mem_filter.mp member).1
      rcases List.mem_append.mp inside with ofData | ofLocal
      · rw [kind_of_roles dataRoles fp ofData]
        exact FragmentKind.noConfusion
      · rw [kind_of_roles localRoles fp ofLocal]
        exact FragmentKind.noConfusion
    have dropped : (inGroup g globalOut).filter (fun fp => decide (fp.kind ≠ .kGlobalParity)) = [] := by
      refine List.filter_eq_nil_iff.mpr fun fp member => ?_
      rw [kind_of_roles globalRoles fp (List.mem_filter.mp member).1]
      simp
    rw [globalGrown, inGroup_append, List.filter_append, kept, dropped, List.append_nil, parities.filled.dealt, front g below]
    exact RoundRobin.deal_nodup (distinct g below) (room g below)

theorem Orthogonal.count_eq_two {placement : List FragmentPlacement} (orthogonal : placer.Orthogonal placement) {node : Nat}
    (below : g < placer.p.l) (member : node ∈ placer.nodes g) (only : ∀ h < placer.p.l, node ∈ placer.nodes h → h = g) :
    (placement.map FragmentPlacement.nodeId).count node = 2 := by
  have twice := orthogonal.twice g below node member
  rw [inGroup, List.count, List.countP_map, List.countP_filter] at twice
  rw [List.count, List.countP_map, ← twice]
  refine List.countP_congr fun fp inside => ?_
  obtain ⟨h, belowH, group, holder⟩ := orthogonal.within fp inside
  simp only [Function.comp_apply, beq_iff_eq, Bool.and_eq_true, decide_eq_true_eq]
  refine ⟨fun same => ⟨same, ?_⟩, fun both => both.1⟩
  rw [group, only h belowH (same ▸ holder)]

section Layout

variable {placement : List FragmentPlacement} (orthogonal : placer.Orthogonal placement)
  (divides : placer.p.k = placer.p.l * placer.p.localK)

include orthogonal divides

theorem Orthogonal.kind_of_mem_take : ∀ fp ∈ placement.take placer.p.k, fp.kind = .kData := by
  obtain ⟨groups, _, layout⟩ := orthogonal.layout
  have length : (rolesIn (dataGroups placer.p.l placer.p.localK) .kData).length = placer.p.k := by
    rw [rolesIn, List.length_map, length_dataGroups, divides]
  have roles : (placement.take placer.p.k).map role = rolesIn (dataGroups placer.p.l placer.p.localK) .kData := by
    rw [List.map_take, layout, List.append_assoc, List.take_left' length]
  exact kind_of_roles roles

theorem Orthogonal.kind_of_mem_drop : ∀ fp ∈ placement.drop placer.p.k, fp.kind ≠ .kData := by
  obtain ⟨groups, _, layout⟩ := orthogonal.layout
  have length : (rolesIn (dataGroups placer.p.l placer.p.localK) .kData).length = placer.p.k := by
    rw [rolesIn, List.length_map, length_dataGroups, divides]
  intro fp member
  have listed := List.mem_map_of_mem (f := role) member
  rw [List.map_drop, layout, List.append_assoc, List.drop_left' length, List.mem_append] at listed
  rcases listed with inLocal | inGlobal
  · obtain ⟨g, _, same⟩ := List.mem_map.mp inLocal
    have kind : FragmentKind.kLocalParity = fp.kind := congrArg Prod.snd same
    rw [← kind]
    exact FragmentKind.noConfusion
  · obtain ⟨g, _, same⟩ := List.mem_map.mp inGlobal
    have kind : FragmentKind.kGlobalParity = fp.kind := congrArg Prod.snd same
    rw [← kind]
    exact FragmentKind.noConfusion

theorem Orthogonal.kind_iff {fp : FragmentPlacement} (member : fp ∈ placement) : fp.kind = .kData ↔ fp.fragId < placer.p.k := by
  rw [← List.take_append_drop placer.p.k placement] at member
  rcases List.mem_append.mp member with front | back
  · have id := List.mem_map_of_mem (f := FragmentPlacement.fragId) front
    rw [List.map_take, orthogonal.ids, List.take_range, List.mem_range] at id
    exact ⟨fun _ => by omega, fun _ => orthogonal.kind_of_mem_take divides fp front⟩
  · have id := List.mem_map_of_mem (f := FragmentPlacement.fragId) back
    rw [List.map_drop, orthogonal.ids, List.range_eq_range', List.drop_range', List.mem_range'_1] at id
    refine ⟨fun data => absurd data (orthogonal.kind_of_mem_drop divides fp back), fun first => ?_⟩
    omega

end Layout

end OrthogonalPlacer

/-- Two disjoint partitions of `n` nodes, one of which has half of them. -/
structure TwoPartitions (n : Nat) (first second : LocalGroup) : Prop where
  distinct : (first.memberNodes ++ second.memberNodes).Nodup
  sizes : first.memberNodes.length = n / 2 ∧ second.memberNodes.length = n - n / 2 ∨
    second.memberNodes.length = n / 2 ∧ first.memberNodes.length = n - n / 2

theorem LrcParams.fromCapacity_two {n : Nat} (six : 6 ≤ n) (even : (n / 2 + 1) % 2 = 0) :
    LrcParams.fromCapacity n 2 = some { k := n / 2 + 1, l := 2, r := 2 * n - (n / 2 + 1) - 2 } := by
  unfold fromCapacity
  rw [if_neg]
  omega

namespace TwoPartitions

variable {n : Nat} {first second : LocalGroup} {p : LrcParams} {placer : OrthogonalPlacer}

theorem new_eq (parts : TwoPartitions n first second) (six : 6 ≤ n) (two : p.l = 2) :
    ∃ placer, OrthogonalPlacer.new p [first, second] = .ok placer ∧ placer.p = p ∧ placer.partitions = [first, second] := by
  have sizes := parts.sizes
  have filled : ∀ part ∈ [first, second], part.memberNodes ≠ [] := by
    intro part member empty
    have none : part.memberNodes.length = 0 := by rw [empty, List.length_nil]
    rcases List.mem_pair.mp member with rfl | rfl <;> omega
  have count : [first, second].length = p.l := two.symm
  unfold OrthogonalPlacer.new
  rw [dif_pos count, dif_pos filled]
  exact ⟨_, rfl, rfl, rfl⟩

/-- A stripe with two fragments for each node is placed orthogonally. -/
theorem place2N_eq (parts : TwoPartitions n first second) (six : 6 ≤ n)
    (derived : LrcParams.fromCapacity n 2 = some p) (params : placer.p = p)
    (given : placer.partitions = [first, second]) :
    ∃ placement, placer.place2N = .ok placement ∧ placer.Orthogonal placement := by
  obtain ⟨_, _, two, k, divides, total⟩ := LrcParams.fromCapacity_eq_some derived
  have sizes := parts.sizes
  have distinct := List.nodup_append.mp parts.distinct
  refine placer.place2N_orthogonal ?_ ?_ ?_ ?_
  · rw [params, two, ← divides]
  · rw [params, given, total]
    simp only [List.map_cons, List.map_nil, List.sum_cons, List.sum_nil]
    omega
  · intro g below
    rw [params, two] at below
    rw [params, OrthogonalPlacer.nodes, given]
    interval_cases g
    · change p.localK + 1 ≤ first.memberNodes.length
      omega
    · change p.localK + 1 ≤ second.memberNodes.length
      omega
  · intro g below
    rw [params, two] at below
    rw [OrthogonalPlacer.nodes, given]
    interval_cases g
    · exact distinct.1
    · exact distinct.2.1

theorem nodes_eq (given : placer.partitions = [first, second]) :
    placer.nodes 0 = first.memberNodes ∧ placer.nodes 1 = second.memberNodes := by
  rw [OrthogonalPlacer.nodes, OrthogonalPlacer.nodes, given]
  exact ⟨rfl, rfl⟩

theorem count_eq_two (parts : TwoPartitions n first second) (two : placer.p.l = 2)
    (given : placer.partitions = [first, second]) {placement : List FragmentPlacement}
    (orthogonal : placer.Orthogonal placement) {node : Nat} (member : node ∈ first.memberNodes ++ second.memberNodes) :
    (placement.map FragmentPlacement.nodeId).count node = 2 := by
  obtain ⟨zero, one⟩ := nodes_eq given
  have disjoint := (List.nodup_append.mp parts.distinct).2.2
  rcases List.mem_append.mp member with inFirst | inSecond
  · refine orthogonal.count_eq_two (two ▸ Nat.zero_lt_two) (zero ▸ inFirst) fun h below holds => ?_
    rw [two] at below
    interval_cases h
    · rfl
    · exact absurd rfl (disjoint node inFirst node (one ▸ holds))
  · refine orthogonal.count_eq_two (two ▸ Nat.one_lt_two) (one ▸ inSecond) fun h below holds => ?_
    rw [two] at below
    interval_cases h
    · exact absurd rfl (disjoint node (zero ▸ holds) node inSecond)
    · rfl

end TwoPartitions

namespace OrthogonalPlacer

theorem place2N_balanced {n : Nat} (six : 6 ≤ n) (even : (n / 2 + 1) % 2 = 0) {first second : LocalGroup}
    (parts : TwoPartitions n first second) : ∃ p placer placement, LrcParams.fromCapacity n 2 = some p ∧
      new p [first, second] = .ok placer ∧ placer.place2N = .ok placement ∧
      placement.map FragmentPlacement.fragId = List.range (2 * n) ∧
      (∀ node ∈ first.memberNodes ++ second.memberNodes, (placement.map FragmentPlacement.nodeId).count node = 2) ∧
      (∀ fp ∈ placement, fp.localGroup = 0 ∧ fp.nodeId ∈ first.memberNodes ∨
        fp.localGroup = 1 ∧ fp.nodeId ∈ second.memberNodes) ∧
      (placement.take (p.k + 2)).map role = List.replicate p.localK (0, .kData) ++ List.replicate p.localK (1, .kData) ++
        [(0, .kLocalParity), (1, .kLocalParity)] ∧
      ∀ g < 2, (((inGroup g placement).filter fun fp => decide (fp.kind ≠ .kGlobalParity)).map
        FragmentPlacement.nodeId).Nodup := by
  have derived := LrcParams.fromCapacity_two six even
  obtain ⟨_, _, two, _, divides, total⟩ := LrcParams.fromCapacity_eq_some derived
  obtain ⟨placer, constructed, params, given⟩ := parts.new_eq six two
  obtain ⟨placement, placed, orthogonal⟩ := parts.place2N_eq six derived params given
  obtain ⟨zero, one⟩ := TwoPartitions.nodes_eq given
  rw [← params] at two divides total
  refine ⟨_, placer, placement, derived, constructed, placed, ?_, ?_, ?_, ?_, ?_⟩
  · rw [orthogonal.ids, total]
  · exact fun node => parts.count_eq_two two given orthogonal
  · intro fp member
    obtain ⟨g, below, group, holder⟩ := orthogonal.within fp member
    rw [two] at below
    interval_cases g
    · exact Or.inl ⟨group, zero ▸ holder⟩
    · exact Or.inr ⟨group, one ▸ holder⟩
  · obtain ⟨groups, _, layout⟩ := orthogonal.layout
    have front : (rolesIn (dataGroups placer.p.l placer.p.localK) .kData ++
        rolesIn (List.range placer.p.l) .kLocalParity).length = placer.p.k + 2 := by
      rw [List.length_append, rolesIn, rolesIn, List.length_map, List.length_map, length_dataGroups, List.length_range,
        two, divides]
    rw [← params, List.map_take, layout, List.take_left' front, two]
    simp [rolesIn, dataGroups, List.range_succ]
  · rw [← two]
    exact orthogonal.apart

/-- Seven nodes in two partitions. -/
def evenNodes : LocalGroup := { groupId := 0, memberNodes := [4, 0, 2], isLarge := false }

def otherNodes : LocalGroup := { groupId := 1, memberNodes := [1, 6, 3, 5], isLarge := true }

theorem place2N_balanced_sevenNodes : TwoPartitions 7 evenNodes otherNodes ∧ ∃ p placer placement,
    LrcParams.fromCapacity 7 2 = some p ∧ new p [evenNodes, otherNodes] = .ok placer ∧ placer.place2N = .ok placement ∧
      placement.map FragmentPlacement.fragId = List.range (2 * 7) := by
  have parts : TwoPartitions 7 evenNodes otherNodes := ⟨by decide, by decide⟩
  obtain ⟨p, placer, placement, derived, constructed, placed, ids, _⟩ := place2N_balanced (by decide) (by decide) parts
  exact ⟨parts, p, placer, placement, derived, constructed, placed, ids⟩

end OrthogonalPlacer

end FlexRaft
