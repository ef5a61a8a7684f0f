import FlexRaft.OrthogonalPlacer
import FlexRaft.StripeRoundTrip

namespace FlexRaft

/-- `std::shuffle` with a `std::mt19937` of the given seed. All that is known of it is that it keeps the items. -/
structure Shuffle where
  order : (seed : Nat) → (pool : List Nat) → List Nat
  perm : ∀ seed pool, (order seed pool).Perm pool

/-- The seed that the generator gets. -/
def rngSeed (seed : Nat) : Nat := if seed = 0 then 1 else seed % UInt32.size

def buildTwoComplementaryPartitions (shuffle : Shuffle) (n seed : Nat) : Except PlacementError (List LocalGroup) :=
  if n < 2 then .error .tooFewNodes
  else
    let pool := shuffle.order (rngSeed seed) (List.range n)
    .ok [{ groupId := 0, memberNodes := pool.take (n / 2), isLarge := false },
      { groupId := 1, memberNodes := pool.drop (n / 2), isLarge := true }]

structure RsRandomPlacement where
  fragId : Nat
  nodeId : Nat
  deriving DecidableEq, Repr

def buildRsRandomPlacement (shuffle : Shuffle) (n totalFrags seed : Nat) :
    Except PlacementError (List RsRandomPlacement) :=
  if totalFrags ≠ 2 * n then .error .fragmentsNotTwice
  else
    let pool := shuffle.order (rngSeed seed) (List.range totalFrags)
    .ok (pool.zipIdx.map fun (fragId, i) => { fragId := fragId, nodeId := i / 2 })

structure StripeEncodeResult where
  stripe : StripeLogMeta
  allFragments : List Slice
  deriving DecidableEq, Repr

/-- How `EncodeStripePayload` ends. With too many fragments the encoder writes behind its arrays. -/
inductive EncodeOutcome
  | threw (error : PlacementError)
  | overrun
  | failed
  | encoded (result : StripeEncodeResult)
  deriving DecidableEq, Repr

/-- The arrays of the encoder are large enough. -/
def Encoder.InLimits (k m : Nat) : Prop := k ≤ kMaxK ∧ m ≤ kMaxM

instance (k m : Nat) : Decidable (Encoder.InLimits k m) := inferInstanceAs (Decidable (_ ∧ _))

/-- The libraries that the encoding uses. -/
structure StripeLibraries where
  isal : Isal
  shuffle : Shuffle

/-- The arguments of `EncodeStripePayload`. -/
structure EncodeStripeCall where
  mode : EncodingMode
  n : Int
  groupId : Nat
  eid : Nat
  data : Slice
  deriving DecidableEq, Repr

namespace EncodeStripeCall

/-- The number of nodes, once it is known not to be negative. -/
def nodes (call : EncodeStripeCall) : Nat := call.n.toNat

/-- `F + 1` data fragments in every mode. -/
def k (call : EncodeStripeCall) : Nat := call.nodes / 2 + 1

def seed (call : EncodeStripeCall) : Nat := call.groupId + 1

/-- `out->meta`. -/
def stripe (call : EncodeStripeCall) (k l r m : Nat) (placement : List FragmentPlacement) : StripeLogMeta :=
  { userKey := []
    stripeId := call.eid
    entryId := call.eid
    groupId := call.groupId
    originalSize := call.data.length
    encodingMode := call.mode.word
    k := k
    l := l
    r := r
    m := m
    placement := placement.map FragmentPlacement.toWords }

/-- The fragments below `k` are data. -/
def rsPlacement (k : Nat) (fragId nodeId : Nat) : FragmentPlacement :=
  { fragId := fragId, localGroup := 0, nodeId := nodeId, kind := if fragId < k then .kData else .kGlobalParity }

def encodeRsF (lib : StripeLibraries) (call : EncodeStripeCall) : EncodeOutcome :=
  let m := call.nodes / 2
  if ¬Encoder.InLimits call.k m then .overrun
  else
    match (List.range call.nodes).mapM (Encoder.encodeSlice lib.isal call.data call.k m).find with
    | none => .failed
    | some fragments => .encoded {
        stripe := call.stripe call.k 0 0 m ((List.range call.nodes).map fun i => rsPlacement call.k i i)
        allFragments := fragments }

def encodeRs3F (lib : StripeLibraries) (call : EncodeStripeCall) : EncodeOutcome :=
  let m := 3 * (call.nodes / 2) + 1
  let total := call.k + m
  if call.n < 5 then .failed
  else if ¬Encoder.InLimits call.k m then .overrun
  else
    let encoded := Encoder.encodeSlice lib.isal call.data call.k m
    if encoded.length ≠ total then .failed
    else
      -- Nothing catches what is thrown here.
      match buildRsRandomPlacement lib.shuffle call.nodes total call.seed with
      | .error error => .threw error
      | .ok plan => .encoded {
          stripe := call.stripe call.k 0 0 m (plan.map fun rp => rsPlacement call.k rp.fragId rp.nodeId)
          allFragments := (List.range total).map fun i => (encoded.find i).getD [] }

/-- The part of the LRC mode that may throw. -/
def lrcPlacement (lib : StripeLibraries) (call : EncodeStripeCall) (p : LrcParams) :
    Except PlacementError (List FragmentPlacement) := do
  let partitions ← buildTwoComplementaryPartitions lib.shuffle call.nodes call.seed
  let placer ← OrthogonalPlacer.new p partitions
  placer.place2N

def encodeLrc (lib : StripeLibraries) (call : EncodeStripeCall) : EncodeOutcome :=
  if call.n < 5 then .failed
  else
    match LrcParams.fromCapacity call.nodes 2 with
    | none => .failed
    | some p =>
      if ¬Encoder.InLimits p.k p.r then .overrun
      else
        match lrcPlacement lib call p with
        | .error _ => .failed
        | .ok placement => .encoded {
            stripe := call.stripe p.k p.l p.r 0 placement
            allFragments := LrcEncoder.encodeStripe lib.isal p call.data }

def encodeStripePayload (lib : StripeLibraries) (call : EncodeStripeCall) : EncodeOutcome :=
  if call.n < 3 then .failed
  else
    match call.mode with
    | .kRsF => call.encodeRsF lib
    | .kRs3F => call.encodeRs3F lib
    | .kLrc => call.encodeLrc lib

/-- The parameters that the mode derives from the number of nodes are those the encoder has room for. -/
def WithinLimits (call : EncodeStripeCall) : Prop :=
  match call.mode with
  | .kRsF => Encoder.InLimits call.k (call.nodes / 2)
  | .kRs3F => Encoder.InLimits call.k (3 * (call.nodes / 2) + 1)
  | .kLrc => Encoder.InLimits call.k (2 * call.nodes - call.k - 2)

/-- The fragments of each node. -/
def share (call : EncodeStripeCall) : Nat := if call.mode = .kRsF then 1 else 2

/-- Every fragment has one place, and every node its share. -/
structure Spread (call : EncodeStripeCall) (result : StripeEncodeResult) : Prop where
  ids : (result.stripe.placement.map StripePlacement.fragId).Perm (List.range result.allFragments.length)
  nodes : ∀ fp ∈ result.stripe.placement, fp.nodeId < call.nodes
  share : ∀ node < call.nodes, (result.stripe.placement.map StripePlacement.nodeId).count node = call.share

/-- Nothing is thrown, and a placement that is returned is a good one. -/
def Clean (call : EncodeStripeCall) : EncodeOutcome → Prop
  | .threw _ => False
  | .overrun => False
  | .failed => True
  | .encoded result => call.Spread result

section Placements

variable {n node : Nat}

theorem mapM_eq_some {α β : Type} {f : α → Option β} {g : α → β} {items : List α} (all : ∀ a ∈ items, f a = some (g a)) :
    items.mapM f = some (items.map g) := by
  induction items with
  | nil => rfl
  | cons a rest ih =>
    obtain ⟨here, later⟩ := List.forall_mem_cons.mp all
    rw [List.mapM_cons, here, ih later]
    rfl

theorem count_range (below : node < n) : (List.range n).count node = 1 :=
  List.count_eq_one_of_mem List.nodup_range (List.mem_range.mpr below)

theorem count_half_range (below : node < n) : ((List.range (2 * n)).map (· / 2)).count node = 2 := by
  induction n with
  | zero => exact absurd below (Nat.not_lt_zero node)
  | succ n ih =>
    have even : (2 * n) / 2 = n := by omega
    have odd : (2 * n + 1) / 2 = n := by omega
    rw [Nat.mul_succ, List.range_succ, List.range_succ, List.map_append, List.map_append, List.map_singleton,
      List.map_singleton, even, odd, List.count_append, List.count_append, List.count_singleton]
    rcases Nat.lt_succ_iff_lt_or_eq.mp below with earlier | rfl
    · have other : (n == node) = false := beq_eq_false_iff_ne.mpr (by omega)
      rw [ih earlier, other]
      rfl
    · have absent : node ∉ (List.range (2 * node)).map (· / 2) := by
        intro member
        obtain ⟨i, inside, same⟩ := List.mem_map.mp member
        have bound := List.mem_range.mp inside
        omega
      rw [List.count_eq_zero.mpr absent, beq_self_eq_true]
      rfl

theorem map_fragId_toWords (placement : List FragmentPlacement) :
    (placement.map FragmentPlacement.toWords).map StripePlacement.fragId = placement.map FragmentPlacement.fragId := by
  rw [List.map_map]
  rfl

theorem map_nodeId_toWords (placement : List FragmentPlacement) :
    (placement.map FragmentPlacement.toWords).map StripePlacement.nodeId = placement.map FragmentPlacement.nodeId := by
  rw [List.map_map]
  rfl

theorem twoPartitions_shuffle {pool : List Nat} (perm : pool.Perm (List.range n)) :
    TwoPartitions n { groupId := 0, memberNodes := pool.take (n / 2), isLarge := false }
      { groupId := 1, memberNodes := pool.drop (n / 2), isLarge := true } := by
  have length : pool.length = n := by rw [perm.length_eq, List.length_range]
  refine ⟨?_, Or.inl ⟨?_, ?_⟩⟩
  · rw [List.take_append_drop]
    exact perm.nodup_iff.mpr List.nodup_range
  · rw [List.length_take, length]
    omega
  · rw [List.length_drop, length]

end Placements

section Modes

variable {lib : StripeLibraries} {call : EncodeStripeCall} {p : LrcParams}

/-- The result in the mode `kRsF`. -/
def rsFResult (lib : StripeLibraries) (call : EncodeStripeCall) : StripeEncodeResult :=
  { stripe := call.stripe call.k 0 0 (call.nodes / 2) ((List.range call.nodes).map fun i => rsPlacement call.k i i)
    allFragments := (List.range call.nodes).map (Encoder.encodeFragment lib.isal call.data call.k (call.nodes / 2)) }

theorem encodeRsF_eq (limits : Encoder.InLimits call.k (call.nodes / 2)) :
    call.encodeRsF lib = .encoded (call.rsFResult lib) := by
  have found : ∀ i ∈ List.range call.nodes, (Encoder.encodeSlice lib.isal call.data call.k (call.nodes / 2)).find i =
      some (Encoder.encodeFragment lib.isal call.data call.k (call.nodes / 2) i) := by
    intro i member
    refine Encoder.encodeSlice_find ?_
    have bound := List.mem_range.mp member
    unfold k
    omega
  unfold encodeRsF
  dsimp only
  rw [if_neg (not_not.mpr limits), mapM_eq_some found]
  rfl

theorem spread_rsFResult (mode : call.mode = .kRsF) : call.Spread (call.rsFResult lib) := by
  have fragIds : ((call.rsFResult lib).stripe.placement.map StripePlacement.fragId) = List.range call.nodes := by
    rw [rsFResult, stripe, map_fragId_toWords, List.map_map]
    exact List.map_id _
  have nodeIds : ((call.rsFResult lib).stripe.placement.map StripePlacement.nodeId) = List.range call.nodes := by
    rw [rsFResult, stripe, map_nodeId_toWords, List.map_map]
    exact List.map_id _
  refine ⟨?_, fun fp member => ?_, fun node below => ?_⟩
  · rw [fragIds, rsFResult, List.length_map, List.length_range]
  · have listed := List.mem_map_of_mem (f := StripePlacement.nodeId) member
    rw [nodeIds] at listed
    exact List.mem_range.mp listed
  · rw [nodeIds, count_range below, share, if_pos mode]

/-- The fragment ids in the order in which the nodes get them in the mode `kRs3F`. -/
def shuffled (lib : StripeLibraries) (call : EncodeStripeCall) : List Nat :=
  lib.shuffle.order (rngSeed call.seed) (List.range (2 * call.nodes))

/-- The result in the mode `kRs3F`. -/
def rs3FResult (lib : StripeLibraries) (call : EncodeStripeCall) : StripeEncodeResult :=
  { stripe := call.stripe call.k 0 0 (3 * (call.nodes / 2) + 1)
      ((call.shuffled lib).zipIdx.map fun p => rsPlacement call.k p.1 (p.2 / 2))
    allFragments := (List.range (2 * call.nodes)).map
      (Encoder.encodeFragment lib.isal call.data call.k (3 * (call.nodes / 2) + 1)) }

theorem length_encodeSlice (isal : Isal) (data : Slice) (k m : Nat) : (Encoder.encodeSlice isal data k m).length = k + m := by
  rw [Encoder.encodeSlice, List.length_map, List.length_range]

/-- There are twice as many fragments as nodes for an odd number of nodes only. -/
theorem encodeRs3F_eq (enough : ¬ call.n < 5) (limits : Encoder.InLimits call.k (3 * (call.nodes / 2) + 1)) :
    call.encodeRs3F lib =
      if call.nodes % 2 = 1 then .encoded (call.rs3FResult lib) else .threw .fragmentsNotTwice := by
  unfold encodeRs3F
  dsimp only
  rw [if_neg enough, if_neg (not_not.mpr limits), if_neg (not_not.mpr (length_encodeSlice _ _ _ _))]
  unfold buildRsRandomPlacement
  by_cases odd : call.nodes % 2 = 1
  · have total : call.k + (3 * (call.nodes / 2) + 1) = 2 * call.nodes := by
      unfold k
      omega
    have fragments : ∀ i ∈ List.range (2 * call.nodes),
        ((Encoder.encodeSlice lib.isal call.data call.k (3 * (call.nodes / 2) + 1)).find i).getD [] =
          Encoder.encodeFragment lib.isal call.data call.k (3 * (call.nodes / 2) + 1) i := by
      intro i member
      rw [Encoder.encodeSlice_find (total.symm ▸ List.mem_range.mp member), Option.getD_some]
    rw [if_neg (not_not.mpr total), if_pos odd, total]
    dsimp only
    rw [List.map_congr_left fragments, List.map_map]
    rfl
  · have total : call.k + (3 * (call.nodes / 2) + 1) ≠ 2 * call.nodes := by
      unfold k
      omega
    rw [if_pos total, if_neg odd]

theorem perm_shuffled (lib : StripeLibraries) (call : EncodeStripeCall) :
    (call.shuffled lib).Perm (List.range (2 * call.nodes)) :=
  lib.shuffle.perm _ _

theorem spread_rs3FResult (mode : call.mode = .kRs3F) : call.Spread (call.rs3FResult lib) := by
  have length : (call.shuffled lib).length = 2 * call.nodes := by
    rw [(call.perm_shuffled lib).length_eq, List.length_range]
  have fragIds : ((call.rs3FResult lib).stripe.placement.map StripePlacement.fragId) = call.shuffled lib := by
    rw [rs3FResult, stripe, map_fragId_toWords, List.map_map]
    exact List.zipIdx_map_fst 0 _
  have nodeIds : ((call.rs3FResult lib).stripe.placement.map StripePlacement.nodeId) =
      (List.range (2 * call.nodes)).map (· / 2) := by
    rw [rs3FResult, stripe, map_nodeId_toWords, List.map_map, List.range_eq_range', ← length,
      ← List.zipIdx_map_snd 0 (call.shuffled lib), List.map_map]
    rfl
  refine ⟨?_, fun fp member => ?_, fun node below => ?_⟩
  · rw [fragIds, rs3FResult, List.length_map, List.length_range]
    exact call.perm_shuffled lib
  · have listed := List.mem_map_of_mem (f := StripePlacement.nodeId) member
    rw [nodeIds] at listed
    obtain ⟨i, inside, same⟩ := List.mem_map.mp listed
    have bound := List.mem_range.mp inside
    omega
  · have two : call.share = 2 := if_neg (by rw [mode]; exact EncodingMode.noConfusion)
    rw [nodeIds, count_half_range below, two]

theorem lrcPlacement_eq (lib : StripeLibraries) (derived : LrcParams.fromCapacity call.nodes 2 = some p) :
    ∃ (first second : LocalGroup) (placer : OrthogonalPlacer) (placement : List FragmentPlacement), TwoPartitions call.nodes first second ∧
      (first.memberNodes ++ second.memberNodes).Perm (List.range call.nodes) ∧ placer.p = p ∧
      placer.partitions = [first, second] ∧ placer.Orthogonal placement ∧ call.lrcPlacement lib p = .ok placement := by
  obtain ⟨five, _, two, k, divides, _⟩ := LrcParams.fromCapacity_eq_some derived
  have six : 6 ≤ call.nodes := by omega
  have perm := lib.shuffle.perm (rngSeed call.seed) (List.range call.nodes)
  have parts := twoPartitions_shuffle perm
  obtain ⟨placer, constructed, params, given⟩ := parts.new_eq six two
  obtain ⟨placement, placed, orthogonal⟩ := parts.place2N_eq six derived params given
  refine ⟨_, _, placer, placement, parts, ?_, params, given, orthogonal, ?_⟩
  · rwa [List.take_append_drop]
  · unfold lrcPlacement buildTwoComplementaryPartitions
    rw [if_neg (by omega)]
    dsimp only
    change (OrthogonalPlacer.new p _ >>= fun placer => placer.place2N) = _
    rw [constructed]
    exact placed

/-- In the mode `kLrc` a number of nodes that does not divide is refused, and every other one is encoded. -/
theorem encodeLrc_eq (lib : StripeLibraries) (limits : Encoder.InLimits call.k (2 * call.nodes - call.k - 2)) :
    call.encodeLrc lib = .failed ∨ ∃ p placement, LrcParams.fromCapacity call.nodes 2 = some p ∧ call.lrcPlacement lib p = .ok placement ∧
      call.encodeLrc lib = .encoded {
        stripe := call.stripe p.k p.l p.r 0 placement
        allFragments := LrcEncoder.encodeStripe lib.isal p call.data } := by
  unfold encodeLrc
  split
  · exact Or.inl rfl
  · cases derived : LrcParams.fromCapacity call.nodes 2 with
    | none => exact Or.inl rfl
    | some p =>
      obtain ⟨_, _, two, k, _, total⟩ := LrcParams.fromCapacity_eq_some derived
      obtain ⟨_, _, _, placement, _, _, _, _, _, placed⟩ := lrcPlacement_eq lib derived
      have room : Encoder.InLimits p.k p.r := by
        have parities : p.r = 2 * call.nodes - call.k - 2 := by
          unfold LrcParams.totalShards at total
          unfold EncodeStripeCall.k
          omega
        rw [parities, k]
        exact limits
      right
      refine ⟨p, placement, rfl, placed, ?_⟩
      dsimp only
      rw [if_neg (not_not.mpr room), placed]

theorem nodeId_mem_partitions {first second : LocalGroup} {placer : OrthogonalPlacer}
    (given : placer.partitions = [first, second]) {placement : List FragmentPlacement}
    (orthogonal : placer.Orthogonal placement) (two : placer.p.l = 2) :
    ∀ fp ∈ placement, fp.nodeId ∈ first.memberNodes ++ second.memberNodes := by
  intro fp member
  obtain ⟨zero, one⟩ := TwoPartitions.nodes_eq given
  obtain ⟨g, below, _, holder⟩ := orthogonal.within fp member
  rw [two] at below
  interval_cases g
  · exact List.mem_append_left _ (zero ▸ holder)
  · exact List.mem_append_right _ (one ▸ holder)

theorem spread_lrc (mode : call.mode = .kLrc) {placement : List FragmentPlacement}
    (derived : LrcParams.fromCapacity call.nodes 2 = some p) (placed : call.lrcPlacement lib p = .ok placement) :
    call.Spread {
      stripe := call.stripe p.k p.l p.r 0 placement
      allFragments := LrcEncoder.encodeStripe lib.isal p call.data } := by
  obtain ⟨first, second, placer, placement', parts, perm, params, given, orthogonal, placed'⟩ := lrcPlacement_eq lib derived
  obtain ⟨_, _, two, _, _, _⟩ := LrcParams.fromCapacity_eq_some derived
  have same : placement' = placement := Except.ok.inj (placed'.symm.trans placed)
  subst same
  have members := nodeId_mem_partitions given orthogonal (params ▸ two)
  refine ⟨?_, fun fp member => ?_, fun node below => ?_⟩
  · rw [stripe, map_fragId_toWords, orthogonal.ids, params, LrcEncoder.length_encodeStripe]
  · obtain ⟨fp', inside, rfl⟩ := List.mem_map.mp member
    exact List.mem_range.mp (perm.mem_iff.mp (members fp' inside))
  · have share : call.share = 2 := if_neg (by rw [mode]; exact EncodingMode.noConfusion)
    have inside := perm.mem_iff.mpr (List.mem_range.mpr below)
    rw [stripe, map_nodeId_toWords, share]
    exact parts.count_eq_two (params ▸ two) given orthogonal inside

/-- Encoding fails cleanly or spreads the fragments, unless the mode is `kRs3F` and the number of nodes is even. -/
theorem clean_iff_not_even (limits : call.WithinLimits) : call.Clean (call.encodeStripePayload lib) ↔
    (call.mode = .kRs3F → call.n < 5 ∨ call.n % 2 = 1) := by
  unfold encodeStripePayload
  by_cases few : call.n < 3
  · rw [if_pos few]
    exact ⟨fun _ _ => Or.inl (by omega), fun _ => trivial⟩
  rw [if_neg few]
  unfold WithinLimits at limits
  cases mode : call.mode with
  | kRsF =>
    rw [mode] at limits
    dsimp only at limits ⊢
    rw [encodeRsF_eq limits]
    exact ⟨fun _ other => absurd other EncodingMode.noConfusion, fun _ => spread_rsFResult mode⟩
  | kRs3F =>
    rw [mode] at limits
    dsimp only at limits ⊢
    by_cases small : call.n < 5
    · have refused : call.encodeRs3F lib = .failed := if_pos small
      rw [refused]
      exact ⟨fun _ _ => Or.inl small, fun _ => trivial⟩
    · rw [encodeRs3F_eq small limits]
      have parity : call.nodes % 2 = 1 ↔ call.n % 2 = 1 := by
        unfold nodes
        omega
      split
      · rename_i odd
        exact ⟨fun _ _ => Or.inr (parity.mp odd), fun _ => spread_rs3FResult mode⟩
      · rename_i even
        refine ⟨False.elim, fun condition => ?_⟩
        exact even (parity.mpr ((condition rfl).resolve_left small))
  | kLrc =>
    rw [mode] at limits
    dsimp only at limits ⊢
    refine ⟨fun _ other => absurd other EncodingMode.noConfusion, fun _ => ?_⟩
    rcases encodeLrc_eq lib limits with refused | ⟨p, placement, derived, placed, encoded⟩
    · rw [refused]
      trivial
    · rw [encoded]
      exact spread_lrc mode derived placed

end Modes

/-- Three bytes for group 0 in the mode `kRs3F`. -/
def threeBytes (n : Int) : EncodeStripeCall := { mode := .kRs3F, n := n, groupId := 0, eid := 1, data := [1, 2, 3] }

/-- Libraries that leave everything in order. -/
def inOrder : StripeLibraries :=
  { isal := { parity := fun _ _ data _ => data.headD [], recover := fun _ _ _ input _ => input.headD [] }
    shuffle := { order := fun _ pool => pool, perm := fun _ _ => .refl _ } }

theorem clean_iff_not_even_sevenNodes : (threeBytes 7).WithinLimits ∧
    (threeBytes 7).Clean ((threeBytes 7).encodeStripePayload inOrder) := by
  have limits : (threeBytes 7).WithinLimits := ⟨by decide, by decide⟩
  refine ⟨limits, ?_⟩
  rw [clean_iff_not_even limits]
  exact fun _ => Or.inr rfl

/-- For six nodes there are fourteen fragments. -/
theorem six_nodes_throw : (threeBytes 6).WithinLimits ∧
    (threeBytes 6).encodeStripePayload inOrder = .threw .fragmentsNotTwice ∧
    ¬ (threeBytes 6).Clean ((threeBytes 6).encodeStripePayload inOrder) := by
  have limits : (threeBytes 6).WithinLimits := ⟨by decide, by decide⟩
  have thrown : (threeBytes 6).encodeStripePayload inOrder = .threw .fragmentsNotTwice := by
    change (threeBytes 6).encodeRs3F inOrder = _
    rw [encodeRs3F_eq (by decide) limits]
    exact if_neg (by decide)
  refine ⟨limits, thrown, ?_⟩
  rw [thrown]
  exact False.elim

end EncodeStripeCall

end FlexRaft
