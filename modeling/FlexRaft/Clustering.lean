import FlexRaft.LrcGrouping
import Mathlib.Algebra.BigOperators.Group.List.Basic
import Mathlib.Algebra.GroupWithZero.Nat
import Mathlib.Algebra.Ring.Int.Defs
import Mathlib.Data.List.GetD

namespace FlexRaft

/-- The two groups while `LrcComplementaryGrouper` builds them; it always asks for `l = 2`. -/
structure Clusters where
  a : List Nat
  b : List Nat
  deriving DecidableEq, Repr

namespace Clusters

def keepBetter {α : Type} (better : Nat → Nat → Bool) (key : α → Nat) (best : Option α) (item : α) : Option α :=
  if best.all fun old => better (key item) (key old) then some item else best

/-- The element with the best key, the first one if there are several. -/
def firstBest {α : Type} (better : Nat → Nat → Bool) (key : α → Nat) (items : List α) : Option α :=
  items.foldl (keepBetter better key) none

/-- All pairs `i < j` in the order of the two loops. -/
def pairs (n : Nat) : List (Nat × Nat) :=
  (List.range n).flatMap fun i => ((List.range n).filter fun j => i < j).map fun j => (i, j)

/-- The pair with the largest latency. As `l` is two, no further anchor is chosen. -/
def phase1SelectOrthogonalAnchors (n : Nat) (latency : Nat → Nat → Nat) : Option (Nat × Nat) :=
  firstBest (fun lat maxLat => decide (maxLat < lat)) (fun p => latency p.1 p.2) (pairs n)

/-- `groups_[0]` is `members false`. -/
def members (groups : Clusters) : Bool → List Nat
  | false => groups.a
  | true => groups.b

def pushBack (groups : Clusters) (g : Bool) (node : Nat) : Clusters :=
  match g with
  | false => { groups with a := groups.a ++ [node] }
  | true => { groups with b := groups.b ++ [node] }

def targetSize (n : Nat) : Bool → Nat
  | false => n / 2 + n % 2
  | true => n / 2

def hasRoom (groups : Clusters) (n : Nat) (g : Bool) : Bool := (groups.members g).length < targetSize n g

/-- The next group that is not full. -/
def nextGroup (groups : Clusters) (n : Nat) (g : Bool) : Option Bool :=
  if groups.hasRoom n g then some g else if groups.hasRoom n (!g) then some (!g) else none

def averageLatency (latency : Nat → Nat → Nat) (nodes : List Nat) (v : Nat) : Nat :=
  (nodes.map (latency v)).sum / nodes.length

def roundRobin (n : Nat) (latency : Nat → Nat → Nat) : Nat → Clusters → Bool → List Nat → Clusters
  | 0, groups, _, _ => groups
  | fuel + 1, groups, g, unassigned =>
    if unassigned = [] then groups
    else match groups.nextGroup n g with
      | none => groups
      | some g =>
        match firstBest (fun avg best => decide (avg < best)) (averageLatency latency (groups.members g)) unassigned with
        | none => roundRobin n latency fuel groups (!g) unassigned
        | some node => roundRobin n latency fuel (groups.pushBack g node) (!g) (unassigned.erase node)

/-- Every round assigns a node, so `n` of them are enough. -/
def phase2RoundRobinAssignment (n : Nat) (latency : Nat → Nat → Nat) (anchors : Nat × Nat) : Clusters :=
  roundRobin n latency n { a := [anchors.1], b := [anchors.2] } false
    ((List.range n).filter fun i => i ≠ anchors.1 ∧ i ≠ anchors.2)

end Clusters

/-- What the swap loop works on: the groups, `node_to_group_sum` for each of them and `improvements_this_round`. -/
structure SwapState extends Clusters where
  sumA : List Int
  sumB : List Int
  improvements : Nat
  deriving DecidableEq, Repr

namespace SwapState

def delta (s : SwapState) (u v : Nat) : Int :=
  s.sumA.getD v 0 + s.sumB.getD u 0 - s.sumA.getD u 0 - s.sumB.getD v 0

/-- One turn of the inner loop. `u` was read at place `i` before the loop began and is not read again. -/
def considerSwap (i u : Nat) (s : SwapState) (j : Nat) : SwapState :=
  let v := s.b.getD j 0
  if s.delta u v < 0 then
    { a := s.a.set i v
      b := s.b.set j u
      sumA := s.sumA.set u (s.sumA.getD v 0)
      sumB := s.sumB.set v (s.sumB.getD u 0)
      improvements := s.improvements + 1 }
  else s

def considerNode (s : SwapState) (i : Nat) : SwapState :=
  (List.range s.b.length).foldl (considerSwap i (s.a.getD i 0)) s

def swapRound (s : SwapState) : SwapState :=
  (List.range s.a.length).foldl considerNode { s with improvements := 0 }

/-- Ten rounds without a swap end the loop. -/
def swapRounds : Nat → Nat → SwapState → Option SwapState
  | 0, noImprove, s => if 10 ≤ noImprove then some s else none
  | fuel + 1, noImprove, s =>
    if 10 ≤ noImprove then some s
    else swapRounds fuel (if s.swapRound.improvements = 0 then noImprove + 1 else 0) s.swapRound

def start (n : Nat) (latency : Nat → Nat → Int) (groups : Clusters) : SwapState :=
  { groups with
    sumA := (List.range n).map fun node => (groups.a.map (latency node)).sum
    sumB := (List.range n).map fun node => (groups.b.map (latency node)).sum
    improvements := 0 }

/-- A bound for the sums. A swap copies sums, so that it holds for the whole loop. -/
def low (s : SwapState) : Int := (s.sumA ++ s.sumB).foldl min 0

/-- All sums together, from `low` on. A swap lowers them, so that no more than this many swaps can be made. -/
def total (low : Int) (s : SwapState) : Nat :=
  (s.sumA.sum + s.sumB.sum - (s.sumA.length * low + s.sumB.length * low)).toNat

end SwapState

namespace Clusters

def phase3SwapOptimization (n : Nat) (latency : Nat → Nat → Int) (groups : Clusters) : Option Clusters :=
  let s := SwapState.start n latency groups
  (s.swapRounds (10 * s.total s.low + 10) 0).map SwapState.toClusters

/-- The groups of `BuildComplementaryGroups`; `none` if there is no pair of nodes or the swap loop does not end. -/
def buildComplementaryGroups (n : Nat) (latency : Nat → Nat → Nat) : Option Clusters :=
  (phase1SelectOrthogonalAnchors n latency).bind fun anchors =>
    phase3SwapOptimization n (fun i j => latency i j) (phase2RoundRobinAssignment n latency anchors)

section FirstBest

variable {α : Type} {better : Nat → Nat → Bool} {key : α → Nat} {items : List α} {old : Option α}

variable (better key) in
theorem keepBetter_eq (best : Option α) (item : α) :
    keepBetter better key best item = some item ∨ keepBetter better key best item = best := by
  unfold keepBetter
  split
  · exact Or.inl rfl
  · exact Or.inr rfl

theorem mem_of_foldl_keepBetter {best : α} (found : items.foldl (keepBetter better key) old = some best) :
    best ∈ items ∨ old = some best := by
  induction items generalizing old with
  | nil => exact Or.inr found
  | cons item rest ih =>
    rcases ih found with later | here
    · exact Or.inl (List.mem_cons_of_mem item later)
    · rcases keepBetter_eq better key old item with new | same
      · exact Or.inl (Option.some.inj (new.symm.trans here) ▸ List.mem_cons_self)
      · exact Or.inr (same.symm.trans here)

theorem firstBest_mem {best : α} (found : firstBest better key items = some best) : best ∈ items :=
  (mem_of_foldl_keepBetter found).resolve_right (by simp)

theorem foldl_keepBetter_isSome (there : old.isSome) : (items.foldl (keepBetter better key) old).isSome := by
  induction items generalizing old with
  | nil => exact there
  | cons item rest ih =>
    refine ih ?_
    rcases keepBetter_eq better key old item with new | same
    · rw [new]
      rfl
    · rwa [same]

theorem firstBest_isSome (nonempty : items ≠ []) : (firstBest better key items).isSome := by
  cases items with
  | nil => exact absurd rfl nonempty
  | cons item rest =>
    rw [firstBest, List.foldl_cons]
    exact foldl_keepBetter_isSome rfl

end FirstBest

section Phases

variable {n : Nat} {latency : Nat → Nat → Nat} {groups : Clusters} {g : Bool}

theorem mem_pairs {p : Nat × Nat} : p ∈ pairs n ↔ p.1 < p.2 ∧ p.2 < n := by
  simp only [pairs, List.mem_flatMap, List.mem_map, List.mem_filter, List.mem_range, decide_eq_true_eq]
  constructor
  · rintro ⟨i, _, j, ⟨below, before⟩, rfl⟩
    exact ⟨before, below⟩
  · exact fun ⟨before, below⟩ => ⟨p.1, before.trans below, p.2, ⟨below, before⟩, rfl⟩

variable (latency) in
theorem phase1_spec (two : 2 ≤ n) : ∃ anchors, phase1SelectOrthogonalAnchors n latency = some anchors ∧
    anchors.1 < anchors.2 ∧ anchors.2 < n := by
  have pair : (0, 1) ∈ pairs n := mem_pairs.mpr ⟨Nat.zero_lt_one, two⟩
  obtain ⟨anchors, found⟩ := Option.isSome_iff_exists.mp (firstBest_isSome (List.ne_nil_of_mem pair))
  exact ⟨anchors, found, mem_pairs.mp (firstBest_mem found)⟩

theorem nextGroup_some {g' : Bool} (next : groups.nextGroup n g = some g') : groups.hasRoom n g' := by
  unfold nextGroup at next
  split at next
  · cases next
    assumption
  · split at next <;> cases next
    assumption

theorem nextGroup_none (next : groups.nextGroup n g = none) (other : Bool) : ¬ groups.hasRoom n other := by
  unfold nextGroup at next
  split at next
  · cases next
  · split at next
    · cases next
    · cases g <;> cases other <;> assumption

/-- Groups that are not larger than they should be, next to the nodes that have no group yet. -/
structure Assigning (n : Nat) (groups : Clusters) (unassigned : List Nat) : Prop where
  nodes : (groups.a ++ groups.b ++ unassigned).Perm (List.range n)
  sizes : ∀ g, (groups.members g).length ≤ targetSize n g

namespace Assigning

variable {groups : Clusters} {unassigned : List Nat}

theorem pushBack (assigning : Assigning n groups unassigned) {node : Nat} (room : groups.hasRoom n g)
    (member : node ∈ unassigned) : Assigning n (groups.pushBack g node) (unassigned.erase node) := by
  refine ⟨List.Perm.trans ?_ assigning.nodes, fun other => ?_⟩
  · have rest : (node :: unassigned.erase node).Perm unassigned := (List.perm_cons_erase member).symm
    cases g with
    | false =>
      simp only [Clusters.pushBack, List.append_assoc, List.singleton_append]
      refine List.Perm.append_left _ (List.perm_middle.symm.trans ?_)
      exact rest.append_left _
    | true =>
      simp only [Clusters.pushBack, List.append_assoc]
      exact (rest.append_left _).append_left _
  · have here := of_decide_eq_true room
    have there := assigning.sizes other
    cases g <;> cases other <;> simp only [Clusters.pushBack, members, List.length_append, List.length_singleton] at here there ⊢
    all_goals omega

theorem length_eq (assigning : Assigning n groups unassigned) :
    groups.a.length + groups.b.length + unassigned.length = n := by
  have count := assigning.nodes.length_eq
  rwa [List.length_append, List.length_append, List.length_range] at count

theorem done (assigning : Assigning n groups unassigned) (ends : unassigned = [] ∨ ∀ g, ¬ groups.hasRoom n g) :
    (groups.a ++ groups.b).Perm (List.range n) ∧ groups.a.length = n / 2 + n % 2 ∧ groups.b.length = n / 2 := by
  have count := assigning.length_eq
  have first := assigning.sizes false
  have second := assigning.sizes true
  simp only [members, targetSize] at first second
  have empty : unassigned = [] := by
    refine ends.elim id fun full => List.length_eq_zero_iff.mp ?_
    have fullA : n / 2 + n % 2 ≤ groups.a.length := Nat.not_lt.mp fun room => full false (decide_eq_true room)
    have fullB : n / 2 ≤ groups.b.length := Nat.not_lt.mp fun room => full true (decide_eq_true room)
    omega
  subst empty
  rw [List.length_nil] at count
  refine ⟨?_, by omega, by omega⟩
  simpa using assigning.nodes

theorem roundRobin (assigning : Assigning n groups unassigned) {fuel : Nat} (enough : unassigned.length ≤ fuel) (g : Bool) :
    let groups' := Clusters.roundRobin n latency fuel groups g unassigned
    (groups'.a ++ groups'.b).Perm (List.range n) ∧ groups'.a.length = n / 2 + n % 2 ∧ groups'.b.length = n / 2 := by
  induction fuel generalizing groups g unassigned with
  | zero => exact assigning.done (Or.inl (List.length_eq_zero_iff.mp (Nat.le_zero.mp enough)))
  | succ fuel ih =>
    unfold Clusters.roundRobin
    by_cases empty : unassigned = []
    · rw [if_pos empty]
      exact assigning.done (Or.inl empty)
    · rw [if_neg empty]
      cases next : groups.nextGroup n g with
      | none => exact assigning.done (Or.inr (nextGroup_none next))
      | some g' =>
        obtain ⟨node, found⟩ : ∃ node, firstBest (fun avg best => decide (avg < best))
            (averageLatency latency (groups.members g')) unassigned = some node :=
          Option.isSome_iff_exists.mp (firstBest_isSome empty)
        have member := firstBest_mem found
        have fewer := List.length_erase_of_mem member
        dsimp only
        rw [found]
        exact ih (assigning.pushBack (nextGroup_some next) member) (by omega) (!g')

end Assigning

variable (latency) in
theorem phase2_spec {anchors : Nat × Nat} (before : anchors.1 < anchors.2) (inside : anchors.2 < n) :
    let groups := phase2RoundRobinAssignment n latency anchors
    (groups.a ++ groups.b).Perm (List.range n) ∧ groups.a.length = n / 2 + n % 2 ∧ groups.b.length = n / 2 := by
  have nodes : ([anchors.1] ++ [anchors.2] ++ (List.range n).filter fun i => i ≠ anchors.1 ∧ i ≠ anchors.2).Perm
      (List.range n) := by
    refine (List.perm_ext_iff_of_nodup ?_ List.nodup_range).mpr fun i => ?_
    · simp only [List.cons_append, List.nil_append, List.nodup_cons, List.mem_cons, List.mem_filter]
      refine ⟨?_, ?_, List.nodup_range.filter _⟩
      · simpa using Nat.ne_of_lt before
      · simp
    · simp only [List.cons_append, List.nil_append, List.mem_cons, List.mem_filter, List.mem_range,
        decide_eq_true_eq]
      omega
  have sizes : ∀ g, (Clusters.members { a := [anchors.1], b := [anchors.2] } g).length ≤ targetSize n g := by
    intro g
    cases g <;> simp only [members, targetSize, List.length_singleton] <;> omega
  have assigning : Assigning n { a := [anchors.1], b := [anchors.2] } _ := ⟨nodes, sizes⟩
  exact assigning.roundRobin (by simpa using List.length_filter_le _ (List.range n)) false

end Phases

end Clusters

namespace SwapState

variable {n : Nat} {low : Int} {s : SwapState} {l : List Int} {i u j : Nat} {α : Type}

/-- The places of the vectors that the loop uses are there, and no sum is below `low`. -/
structure InRange (n : Nat) (low : Int) (s : SwapState) : Prop where
  a : ∀ node ∈ s.a, node < n
  b : ∀ node ∈ s.b, node < n
  sumA : s.sumA.length = n
  sumB : s.sumB.length = n
  lowA : ∀ x ∈ s.sumA, low ≤ x
  lowB : ∀ x ∈ s.sumB, low ≤ x

theorem sum_set (bound : i < l.length) (x : Int) : (l.set i x).sum + l.getD i 0 = l.sum + x := by
  induction l generalizing i with
  | nil => exact absurd bound (Nat.not_lt_zero i)
  | cons y rest ih =>
    cases i with
    | zero => simp only [List.set_cons_zero, List.sum_cons, List.getD_cons_zero]; omega
    | succ i =>
      have later := ih (Nat.lt_of_succ_lt_succ bound)
      simp only [List.set_cons_succ, List.sum_cons, List.getD_cons_succ]
      omega

theorem getD_mem [Zero α] {l : List α} (bound : i < l.length) : l.getD i 0 ∈ l := by
  rw [List.getD_eq_getElem _ _ bound]
  exact List.getElem_mem bound

theorem forall_mem_set {P : α → Prop} {l : List α} (all : ∀ x ∈ l, P x) {y : α} (new : P y) (i : Nat) :
    ∀ x ∈ l.set i y, P x := by
  intro x member
  rcases List.mem_or_eq_of_mem_set member with old | rfl
  · exact all x old
  · exact new

theorem length_mul_low_le (all : ∀ x ∈ l, low ≤ x) : l.length * low ≤ l.sum := by
  induction l with
  | nil => simp
  | cons x rest ih =>
    obtain ⟨here, later⟩ := List.forall_mem_cons.mp all
    have bound := ih later
    rw [List.length_cons, List.sum_cons, Int.natCast_succ, Int.add_mul, Int.one_mul]
    omega

theorem foldl_min_le (l : List Int) (bound : Int) : l.foldl min bound ≤ bound ∧ ∀ x ∈ l, l.foldl min bound ≤ x := by
  induction l generalizing bound with
  | nil => exact ⟨le_rfl, nofun⟩
  | cons x rest ih =>
    obtain ⟨first, later⟩ := ih (min bound x)
    rw [List.foldl_cons, List.forall_mem_cons]
    exact ⟨first.trans (min_le_left _ _), first.trans (min_le_right _ _), later⟩

theorem considerSwap_cases (i u j : Nat) : s.considerSwap i u j = s ∨
    s.delta u (s.b.getD j 0) < 0 ∧ s.considerSwap i u j =
      { a := s.a.set i (s.b.getD j 0)
        b := s.b.set j u
        sumA := s.sumA.set u (s.sumA.getD (s.b.getD j 0) 0)
        sumB := s.sumB.set (s.b.getD j 0) (s.sumB.getD u 0)
        improvements := s.improvements + 1 } := by
  unfold considerSwap
  dsimp only
  split
  · rename_i better
    exact Or.inr ⟨better, rfl⟩
  · exact Or.inl rfl

/-- Sizes stay, and each improvement lowers the sums. -/
structure Lowers (n : Nat) (low : Int) (s s' : SwapState) : Prop where
  inRange : InRange n low s'
  lengthA : s'.a.length = s.a.length
  lengthB : s'.b.length = s.b.length
  total : s'.total low + s'.improvements ≤ s.total low + s.improvements

theorem Lowers.refl (inRange : InRange n low s) : Lowers n low s s := ⟨inRange, rfl, rfl, le_rfl⟩

theorem Lowers.trans {s' s'' : SwapState} (first : Lowers n low s s') (second : Lowers n low s' s'') : Lowers n low s s'' :=
  ⟨second.inRange, second.lengthA.trans first.lengthA, second.lengthB.trans first.lengthB, second.total.trans first.total⟩

theorem considerSwap_lowers (inRange : InRange n low s) (node : u < n) (place : j < s.b.length) :
    Lowers n low s (considerSwap i u s j) := by
  have other : s.b.getD j 0 < n := inRange.b _ (getD_mem place)
  rcases s.considerSwap_cases i u j with same | ⟨better, swapped⟩
  · rw [same]
    exact Lowers.refl inRange
  · rw [swapped]
    have placeA : s.b.getD j 0 < s.sumA.length := by rwa [inRange.sumA]
    have placeB : u < s.sumB.length := by rwa [inRange.sumB]
    have lowA := forall_mem_set inRange.lowA (inRange.lowA _ (getD_mem placeA)) u
    have lowB := forall_mem_set inRange.lowB (inRange.lowB _ (getD_mem placeB)) (s.b.getD j 0)
    refine ⟨⟨forall_mem_set inRange.a other i, forall_mem_set inRange.b node j, List.length_set.trans inRange.sumA,
      List.length_set.trans inRange.sumB, lowA, lowB⟩, List.length_set, List.length_set, ?_⟩
    have changedA := sum_set (l := s.sumA) (i := u) (by rwa [inRange.sumA]) (s.sumA.getD (s.b.getD j 0) 0)
    have changedB := sum_set (l := s.sumB) (i := s.b.getD j 0) (by rwa [inRange.sumB]) (s.sumB.getD u 0)
    have boundA := length_mul_low_le lowA
    have boundB := length_mul_low_le lowB
    unfold delta at better
    simp only [total, List.length_set] at boundA boundB ⊢
    omega

theorem foldl_lowers {step : SwapState → Nat → SwapState} {places : List Nat} (inRange : InRange n low s)
    (each : ∀ s' place, place ∈ places → Lowers n low s s' → Lowers n low s' (step s' place)) :
    Lowers n low s (places.foldl step s) := by
  have fold : ∀ (rest : List Nat) (s' : SwapState), (∀ place ∈ rest, place ∈ places) → Lowers n low s s' →
      Lowers n low s (rest.foldl step s') := by
    intro rest
    induction rest with
    | nil => exact fun _ _ so => so
    | cons place rest ih =>
      intro s' part so
      obtain ⟨here, later⟩ := List.forall_mem_cons.mp part
      exact ih (step s' place) later (so.trans (each s' place here so))
  exact fold places s (fun _ member => member) (Lowers.refl inRange)

theorem considerNode_lowers (inRange : InRange n low s) (place : i < s.a.length) : Lowers n low s (s.considerNode i) := by
  refine foldl_lowers inRange fun s' j inside so => ?_
  refine considerSwap_lowers so.inRange (inRange.a _ (getD_mem place)) ?_
  rw [so.lengthB]
  exact List.mem_range.mp inside

/-- A round that begins in state `s`, when it comes to place `i` of the first group. -/
def beforeNode (s : SwapState) (i : Nat) : SwapState := (List.range i).foldl considerNode { s with improvements := 0 }

theorem beforeNode_lowers (inRange : InRange n low s) (place : i ≤ s.a.length) :
    Lowers n low { s with improvements := 0 } (s.beforeNode i) := by
  have cleared : InRange n low { s with improvements := 0 } := 
    ⟨inRange.a, inRange.b, inRange.sumA, inRange.sumB, inRange.lowA, inRange.lowB⟩
  refine foldl_lowers cleared fun s' i' inside so => considerNode_lowers so.inRange ?_
  rw [so.lengthA]
  exact (List.mem_range.mp inside).trans_le place

theorem swapRound_lowers (inRange : InRange n low s) : Lowers n low { s with improvements := 0 } s.swapRound :=
  beforeNode_lowers inRange le_rfl

/-- Every tenth round makes a swap as long as the loop goes on, and there cannot be more swaps than the sums are large. -/
theorem swapRounds_ends {fuel : Nat} (noImprove : Nat) (inRange : InRange n low s)
    (enough : 10 * s.total low + 10 ≤ fuel + noImprove) :
    ∃ rounds, swapRounds fuel noImprove s = some (swapRound^[rounds] s) := by
  induction fuel generalizing noImprove s with
  | zero => exact ⟨0, if_pos (by omega)⟩
  | succ fuel ih =>
    unfold swapRounds
    by_cases finished : 10 ≤ noImprove
    · exact ⟨0, if_pos finished⟩
    · have lowers := swapRound_lowers inRange
      have lower : s.swapRound.total low + s.swapRound.improvements ≤ s.total low := lowers.total
      rw [if_neg finished]
      by_cases idle : s.swapRound.improvements = 0
      · have left : 10 * s.swapRound.total low + 10 ≤ fuel + (noImprove + 1) := by omega
        obtain ⟨rounds, found⟩ := ih _ lowers.inRange left
        exact ⟨rounds + 1, by rw [if_pos idle, found, Function.iterate_succ_apply]⟩
      · have left : 10 * s.swapRound.total low + 10 ≤ fuel + 0 := by omega
        obtain ⟨rounds, found⟩ := ih _ lowers.inRange left
        exact ⟨rounds + 1, by rw [if_neg idle, found, Function.iterate_succ_apply]⟩

theorem iterate_lengths (inRange : InRange n low s) (rounds : Nat) : InRange n low (swapRound^[rounds] s) ∧
    (swapRound^[rounds] s).a.length = s.a.length ∧ (swapRound^[rounds] s).b.length = s.b.length := by
  induction rounds with
  | zero => exact ⟨inRange, rfl, rfl⟩
  | succ rounds ih =>
    obtain ⟨so, lengthA, lengthB⟩ := ih
    have lowers := swapRound_lowers so
    rw [Function.iterate_succ_apply']
    exact ⟨lowers.inRange, lowers.lengthA.trans lengthA, lowers.lengthB.trans lengthB⟩

/-- `node_u`, as it is read then. -/
def nodeU (s : SwapState) (i : Nat) : Nat := (s.beforeNode i).a.getD i 0

/-- The same round, when it comes to place `j` of the second group. -/
def beforePair (s : SwapState) (i j : Nat) : SwapState := (List.range j).foldl (considerSwap i (s.nodeU i)) (s.beforeNode i)

/-- Wherever a round swaps, `node_u` still stands at its place. -/
def StandsStill (s : SwapState) : Prop :=
  ∀ i < s.a.length, ∀ j < s.b.length,
    (s.beforePair i j).delta (s.nodeU i) ((s.beforePair i j).b.getD j 0) < 0 → (s.beforePair i j).a[i]? = some (s.nodeU i)

instance (s : SwapState) : Decidable s.StandsStill := by
  unfold StandsStill
  infer_instance

/-- The nodes of both groups. -/
def nodes (s : SwapState) : List Nat := s.a ++ s.b

theorem set_perm {l : List Nat} {x y : Nat} (place : l[i]? = some x) : (x :: l.set i y).Perm (y :: l) := by
  induction l generalizing i with
  | nil => cases place
  | cons z rest ih =>
    cases i with
    | zero =>
      rw [List.getElem?_cons_zero, Option.some.injEq] at place
      subst place
      exact List.Perm.swap y z rest
    | succ i => exact (List.Perm.swap z x _).trans (((ih place).cons z).trans (List.Perm.swap y z rest))

theorem considerSwap_perm (place : j < s.b.length)
    (standing : s.delta u (s.b.getD j 0) < 0 → s.a[i]? = some u) : (s.considerSwap i u j).nodes.Perm s.nodes := by
  rcases s.considerSwap_cases i u j with same | ⟨better, swapped⟩
  · rw [same]
  · have other : s.b[j]? = some (s.b.getD j 0) := by
      rw [List.getD_eq_getElem _ _ place, List.getElem?_eq_getElem place]
    rw [swapped]
    refine List.perm_iff_count.mpr fun x => ?_
    have countA := (set_perm (y := s.b.getD j 0) (standing better)).count_eq x
    have countB := (set_perm (y := u) other).count_eq x
    simp only [List.count_cons] at countA countB
    simp only [nodes, List.count_append]
    omega

section Round

variable (inRange : InRange n low s) {i j : Nat} {P : SwapState → Prop}
include inRange

theorem beforePair_lowers (placeA : i < s.a.length) (placeB : j ≤ s.b.length) :
    Lowers n low (s.beforeNode i) (s.beforePair i j) := by
  have before := beforeNode_lowers inRange placeA.le
  have node : s.nodeU i < n := before.inRange.a _ (getD_mem (by rw [before.lengthA]; exact placeA))
  refine foldl_lowers before.inRange fun s' j' inside so => considerSwap_lowers so.inRange node ?_
  rw [so.lengthB, before.lengthB]
  exact (List.mem_range.mp inside).trans_le placeB

omit inRange in
theorem beforePair_succ (s : SwapState) (i j : Nat) :
    s.beforePair i (j + 1) = considerSwap i (s.nodeU i) (s.beforePair i j) j := by
  rw [beforePair, List.range_succ, List.foldl_append]
  rfl

theorem swapRound_holds (start : P { s with improvements := 0 })
    (each : ∀ i < s.a.length, ∀ j < s.b.length, P (s.beforePair i j) → P (s.beforePair i (j + 1))) : P s.swapRound := by
  have pairs : ∀ i < s.a.length, P (s.beforeNode i) → ∀ j ≤ s.b.length, P (s.beforePair i j) := by
    intro i placeA before j
    induction j with
    | zero => exact fun _ => before
    | succ j ih => exact fun placeB => each i placeA j placeB (ih (Nat.le_of_succ_le placeB))
  have nodes : ∀ i ≤ s.a.length, P (s.beforeNode i) := by
    intro i
    induction i with
    | zero => exact fun _ => start
    | succ i ih =>
      intro place
      have sizes : (s.beforeNode i).b.length = s.b.length := (beforeNode_lowers inRange (Nat.le_of_succ_le place)).lengthB
      have last : s.beforeNode (i + 1) = s.beforePair i s.b.length := by
        rw [beforeNode, List.range_succ, List.foldl_append, beforePair, ← sizes]
        rfl
      rw [last]
      exact pairs i place (ih (Nat.le_of_succ_le place)) _ le_rfl
  exact nodes _ le_rfl

theorem iterate_holds (start : P s) (clear : ∀ t, P t → P { t with improvements := 0 })
    (each : ∀ round, ∀ i < (swapRound^[round] s).a.length, ∀ j < (swapRound^[round] s).b.length,
      P ((swapRound^[round] s).beforePair i j) → P ((swapRound^[round] s).beforePair i (j + 1))) (rounds : Nat) :
    P (swapRound^[rounds] s) := by
  induction rounds with
  | zero => exact start
  | succ rounds ih =>
    rw [Function.iterate_succ_apply']
    exact swapRound_holds (iterate_lengths inRange rounds).1 (clear _ ih) (each rounds)

theorem length_beforePair (placeA : i < s.a.length) (placeB : j ≤ s.b.length) :
    (s.beforePair i j).b.length = s.b.length :=
  (beforePair_lowers inRange placeA placeB).lengthB.trans (beforeNode_lowers inRange placeA.le).lengthB

end Round

/-- Rounds that never put down a node they no longer hold only rearrange the nodes. -/
theorem iterate_perm (inRange : InRange n low s) (still : ∀ round, (swapRound^[round] s).StandsStill) (rounds : Nat) :
    (swapRound^[rounds] s).nodes.Perm s.nodes := by
  refine iterate_holds inRange (P := fun t => t.nodes.Perm s.nodes) (List.Perm.refl _) (fun _ same => same) ?_ rounds
  intro round i placeA j placeB same
  have inside := length_beforePair (iterate_lengths inRange round).1 placeA placeB.le
  rw [beforePair_succ]
  exact (considerSwap_perm (inside ▸ placeB) (still round i placeA j placeB)).trans same

section Latency

variable {latency : Nat → Nat → Nat} {l : List Nat} {i u : Nat}

/-- The latencies between all pairs of a group, as `CalculateGroupIntraLatency` adds them up. -/
def pairLatencies (latency : Nat → Nat → Nat) : List Nat → Nat
  | [] => 0
  | u :: rest => (rest.map (latency u)).sum + pairLatencies latency rest

def intraLatency (latency : Nat → Nat → Nat) (groups : Clusters) : Nat :=
  pairLatencies latency groups.a + pairLatencies latency groups.b

/-- Wherever a round swaps, `node_u` still stands at its place, and with the latencies to the groups as they are then
the swap does not cost anything: the latency between the two nodes is in neither group, before or after it. -/
def Pays (latency : Nat → Nat → Nat) (s : SwapState) : Prop :=
  ∀ i < s.a.length, ∀ j < s.b.length,
    (s.beforePair i j).delta (s.nodeU i) ((s.beforePair i j).b.getD j 0) < 0 →
      (s.beforePair i j).a[i]? = some (s.nodeU i) ∧
      ((s.beforePair i j).a.map (latency ((s.beforePair i j).b.getD j 0))).sum +
          ((s.beforePair i j).b.map (latency (s.nodeU i))).sum ≤
        ((s.beforePair i j).a.map (latency (s.nodeU i))).sum +
          ((s.beforePair i j).b.map (latency ((s.beforePair i j).b.getD j 0))).sum +
          2 * latency (s.nodeU i) ((s.beforePair i j).b.getD j 0)

instance (latency : Nat → Nat → Nat) (s : SwapState) : Decidable (s.Pays latency) := by
  unfold Pays
  infer_instance

theorem sum_map_set (g : Nat → Nat) (place : l[i]? = some u) (v : Nat) :
    ((l.set i v).map g).sum + g u = (l.map g).sum + g v := by
  have count := ((set_perm (y := v) place).map g).sum_eq
  simp only [List.map_cons, List.sum_cons] at count
  omega

variable (symm : ∀ i < n, ∀ j < n, latency i j = latency j i) (diagonal : ∀ i < n, latency i i = 0)
include symm diagonal

theorem pairLatencies_set (inside : ∀ x ∈ l, x < n) {v : Nat} (node : v < n) (place : l[i]? = some u) :
    pairLatencies latency (l.set i v) + (l.map (latency u)).sum + latency u v =
      pairLatencies latency l + (l.map (latency v)).sum := by
  induction l generalizing i with
  | nil => cases place
  | cons x rest ih =>
    obtain ⟨here, later⟩ := List.forall_mem_cons.mp inside
    cases i with
    | zero =>
      rw [List.getElem?_cons_zero, Option.some.injEq] at place
      subst place
      have zero := diagonal x here
      have same := symm x here v node
      simp only [List.set_cons_zero, pairLatencies, List.map_cons, List.sum_cons]
      omega
    | succ i =>
      have old : u < n := later u (List.mem_of_getElem? place)
      have below := ih later place
      have row := sum_map_set (latency x) (show rest[i]? = some u from place) v
      have same := symm x here v node
      have same' := symm x here u old
      simp only [List.set_cons_succ, pairLatencies, List.map_cons, List.sum_cons]
      omega

/-- A swap takes from both groups what the nodes leave behind and adds what they meet. -/
theorem considerSwap_intraLatency (inRange : InRange n low s) (place : j < s.b.length)
    (pays : s.delta u (s.b.getD j 0) < 0 → s.a[i]? = some u ∧
      (s.a.map (latency (s.b.getD j 0))).sum + (s.b.map (latency u)).sum ≤
        (s.a.map (latency u)).sum + (s.b.map (latency (s.b.getD j 0))).sum + 2 * latency u (s.b.getD j 0)) :
    intraLatency latency (considerSwap i u s j).toClusters ≤ intraLatency latency s.toClusters := by
  rcases s.considerSwap_cases i u j with same | ⟨better, swapped⟩
  · rw [same]
  · obtain ⟨standing, gain⟩ := pays better
    have other : s.b[j]? = some (s.b.getD j 0) := by
      rw [List.getD_eq_getElem _ _ place, List.getElem?_eq_getElem place]
    have nodeU := inRange.a u (List.mem_of_getElem? standing)
    have nodeV := inRange.b _ (List.mem_of_getElem? other)
    have changedA := pairLatencies_set symm diagonal inRange.a nodeV standing
    have changedB := pairLatencies_set symm diagonal inRange.b nodeU other
    have same := symm u nodeU _ nodeV
    rw [swapped]
    unfold intraLatency
    dsimp only
    omega

theorem iterate_intraLatency (inRange : InRange n low s) (pays : ∀ round, (swapRound^[round] s).Pays latency) (rounds : Nat) :
    intraLatency latency (swapRound^[rounds] s).toClusters ≤ intraLatency latency s.toClusters := by
  refine iterate_holds inRange (P := fun t => intraLatency latency t.toClusters ≤ intraLatency latency s.toClusters) le_rfl
    (fun _ same => same) ?_ rounds
  intro round i placeA j placeB before
  have range := (iterate_lengths inRange round).1
  have inside := length_beforePair range placeA placeB.le
  rw [beforePair_succ]
  exact (considerSwap_intraLatency symm diagonal (beforePair_lowers range placeA placeB.le).inRange (inside ▸ placeB)
    (pays round i placeA j placeB)).trans before

end Latency

end SwapState

namespace Clusters

variable {n : Nat} {latency : Nat → Nat → Nat}

theorem start_inRange (latency : Nat → Nat → Int) {groups : Clusters} (inside : ∀ node ∈ groups.a ++ groups.b, node < n) :
    SwapState.InRange n (SwapState.start n latency groups).low (SwapState.start n latency groups) := by
  obtain ⟨-, bound⟩ := SwapState.foldl_min_le
    ((SwapState.start n latency groups).sumA ++ (SwapState.start n latency groups).sumB) 0
  obtain ⟨insideA, insideB⟩ := List.forall_mem_append.mp inside
  obtain ⟨lowA, lowB⟩ := List.forall_mem_append.mp bound
  exact ⟨insideA, insideB, (List.length_map _).trans List.length_range, (List.length_map _).trans List.length_range, lowA, lowB⟩

/-- The swap loop ends after some number of rounds, whatever the latencies and the groups at the beginning are. -/
theorem swapOptimization_ends (n : Nat) (latency : Nat → Nat → Int) (groups : Clusters)
    (inside : ∀ node ∈ groups.a ++ groups.b, node < n) : ∃ rounds, phase3SwapOptimization n latency groups =
      some (SwapState.swapRound^[rounds] (SwapState.start n latency groups)).toClusters := by
  obtain ⟨rounds, ends⟩ := SwapState.swapRounds_ends 0 (start_inRange latency inside) (Nat.le_refl _)
  exact ⟨rounds, congrArg (Option.map SwapState.toClusters) ends⟩

theorem swapOptimization_ends_negative : ∃ rounds,
    phase3SwapOptimization 4 (fun i j => 3 * i - j * j) { a := [0, 1], b := [2, 3] } =
      some (SwapState.swapRound^[rounds] (SwapState.start 4 (fun i j => 3 * i - j * j) { a := [0, 1], b := [2, 3] })).toClusters :=
  swapOptimization_ends 4 _ _ (by decide)

/-- The state in which the swap loop begins. -/
def swapStart (n : Nat) (latency : Nat → Nat → Nat) (anchors : Nat × Nat) : SwapState :=
  SwapState.start n (fun i j => latency i j) (phase2RoundRobinAssignment n latency anchors)

/-- The groups are what some number of rounds makes of the beginning; their sizes are those of the second phase. -/
theorem buildComplementaryGroups_eq (latency : Nat → Nat → Nat) (two : 2 ≤ n) : ∃ anchors rounds,
    phase1SelectOrthogonalAnchors n latency = some anchors ∧
    SwapState.InRange n (swapStart n latency anchors).low (swapStart n latency anchors) ∧ (swapStart n latency anchors).nodes.Perm (List.range n) ∧
    (swapStart n latency anchors).a.length = n / 2 + n % 2 ∧ (swapStart n latency anchors).b.length = n / 2 ∧
    buildComplementaryGroups n latency = some (SwapState.swapRound^[rounds] (swapStart n latency anchors)).toClusters := by
  obtain ⟨anchors, found, before, inside⟩ := phase1_spec latency two
  obtain ⟨nodes, lengthA, lengthB⟩ := phase2_spec latency before inside
  have inRange : SwapState.InRange n (swapStart n latency anchors).low (swapStart n latency anchors) :=
    start_inRange _ fun node member => List.mem_range.mp (nodes.subset member)
  obtain ⟨rounds, ends⟩ := SwapState.swapRounds_ends 0 inRange (Nat.le_refl _)
  refine ⟨anchors, rounds, found, inRange, nodes, lengthA, lengthB, ?_⟩
  rw [buildComplementaryGroups, found, Option.bind_some]
  exact congrArg (Option.map SwapState.toClusters) ends

section Partition

variable (still : ∀ anchors, phase1SelectOrthogonalAnchors n latency = some anchors → ∀ round,
  (SwapState.swapRound^[round] (swapStart n latency anchors)).StandsStill)
include still

theorem buildComplementaryGroups_perm (two : 2 ≤ n) : ∃ groups, buildComplementaryGroups n latency = some groups ∧
    (groups.a ++ groups.b).Perm (List.range n) ∧ groups.a.length = n / 2 + n % 2 ∧ groups.b.length = n / 2 := by
  obtain ⟨anchors, rounds, found, inRange, nodes, lengthA, lengthB, built⟩ := buildComplementaryGroups_eq latency two
  obtain ⟨_, sizeA, sizeB⟩ := SwapState.iterate_lengths inRange rounds
  exact ⟨_, built, (SwapState.iterate_perm inRange (still anchors found) rounds).trans nodes, sizeA.trans lengthA,
    sizeB.trans lengthB⟩

theorem buildComplementaryGroups_layout {params : LrcParams} (derived : LrcParams.fromCapacity n 2 = some params) :
    ∃ groups layout, buildComplementaryGroups n latency = some groups ∧ layout.n = n ∧
      LrcLayout.groups layout = [groups.a, groups.b] := by
  obtain ⟨many, _, two, _⟩ := LrcParams.fromCapacity_eq_some derived
  obtain ⟨groups, built, perm, lengthA, lengthB⟩ := buildComplementaryGroups_perm still (Nat.le_trans (by decide) many)
  have covers : [groups.a, groups.b].flatten.Perm (List.range n) := by
    simpa only [List.flatten_cons, List.flatten_nil, List.append_nil] using perm
  have balanced : ∀ group ∈ [groups.a, groups.b], ∀ other ∈ [groups.a, groups.b], group.length ≤ other.length + 1 := by
    intro group member other member'
    simp only [List.mem_cons, List.not_mem_nil, or_false] at member member'
    rcases member with rfl | rfl <;> rcases member' with rfl | rfl <;> omega
  exact ⟨groups, { n, params, derived, groups := [groups.a, groups.b], count := two.symm, covers, balanced }, built, rfl, rfl⟩

end Partition

/-- A matrix written down row by row. -/
def latencyTable (rows : List (List Nat)) (i j : Nat) : Nat := (rows.getD i []).getD j 0

def sixLatencies : Nat → Nat → Nat :=
  latencyTable [[0, 2, 0, 0, 0, 2], [2, 0, 0, 0, 0, 0], [0, 0, 0, 0, 1, 1], [0, 0, 0, 0, 0, 0], [0, 0, 1, 0, 0, 0],
    [2, 0, 1, 0, 0, 0]]

theorem sixLatencies_settled (round : Nat) : SwapState.swapRound^[round + 2] (swapStart 6 sixLatencies (0, 1)) =
    SwapState.swapRound^[2] (swapStart 6 sixLatencies (0, 1)) := by
  have settled : (SwapState.swapRound^[2] (swapStart 6 sixLatencies (0, 1))).swapRound =
      SwapState.swapRound^[2] (swapStart 6 sixLatencies (0, 1)) := by decide +kernel
  rw [Function.iterate_add_apply, Function.iterate_fixed settled]

/-- The second swap relies on sums from before the first one. -/
def staleLatencies : Nat → Nat → Nat :=
  latencyTable [[0, 0, 0, 2, 0, 0], [0, 0, 0, 1, 0, 0], [0, 0, 0, 1, 1, 0], [2, 1, 1, 0, 2, 0], [0, 0, 1, 2, 0, 2],
    [0, 0, 0, 0, 2, 0]]

def lopsidedLatencies : Nat → Nat → Nat :=
  latencyTable [[0, 0, 0, 0, 0, 0], [0, 0, 1, 0, 0, 2], [0, 1, 0, 0, 0, 2], [0, 0, 0, 0, 0, 1], [0, 0, 0, 0, 0, 1],
    [0, 2, 2, 1, 1, 0]]

end Clusters

end FlexRaft
