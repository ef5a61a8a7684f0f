import Mathlib.Data.List.Range

namespace FlexRaft

/-- The loop of `BuildPartitions` from thread `i` on, for `n` more threads: the ranges with their starts and ends. -/
def fillPartitions (base rem : Nat) : (n i pos : Nat) → List (Nat × Nat)
  | 0, _, _ => []
  | n + 1, i, pos =>
    let slice := base + if i < rem then 1 else 0
    (pos, pos + slice) :: fillPartitions base rem n (i + 1) (pos + slice)

/-- `peer_part_start_` and `peer_part_end_`, or those of the applies. Without entries they are only resized. -/
def buildPartitions (threadCount total : Nat) : List (Nat × Nat) :=
  if 0 < threadCount ∧ total ≠ 0 then fillPartitions (total / threadCount) (total % threadCount) threadCount 0 0
  else List.replicate threadCount (0, 0)

/-- The entries whose mailboxes a round of `PeerPollLoop` drains. -/
def peerPollRound (parts : List (Nat × Nat)) (total threadId : Nat) : List Nat :=
  let range := parts[threadId]?.getD (0, total)
  List.range' range.1 (range.2 - range.1)

/-- Each range begins where the one before it ends, from `lo` to `hi`. -/
def Contiguous (lo hi : Nat) : List (Nat × Nat) → Prop
  | [] => lo = hi
  | range :: rest => range.1 = lo ∧ lo ≤ range.2 ∧ Contiguous range.2 hi rest

section Contiguous

variable {lo hi : Nat} {ranges : List (Nat × Nat)} {x : Nat}

theorem Contiguous.bounds (contiguous : Contiguous lo hi ranges) :
    lo ≤ hi ∧ ∀ range ∈ ranges, lo ≤ range.1 ∧ range.2 ≤ hi := by
  induction ranges generalizing lo with
  | nil => exact ⟨Nat.le_of_eq contiguous, nofun⟩
  | cons first rest ih =>
    obtain ⟨start, forward, later⟩ := contiguous
    obtain ⟨le, inside⟩ := ih later
    refine ⟨forward.trans le, List.forall_mem_cons.mpr ⟨⟨start.ge, le⟩, fun range member => ?_⟩⟩
    obtain ⟨lower, upper⟩ := inside range member
    exact ⟨forward.trans lower, upper⟩

theorem Contiguous.disjoint (contiguous : Contiguous lo hi ranges) : ranges.Pairwise fun a b => a.2 ≤ b.1 := by
  induction ranges generalizing lo with
  | nil => exact .nil
  | cons first rest ih =>
    obtain ⟨-, -, later⟩ := contiguous
    exact .cons (fun range member => (later.bounds.2 range member).1) (ih later)

theorem Contiguous.covers (contiguous : Contiguous lo hi ranges) (lower : lo ≤ x) (upper : x < hi) :
    ∃ (i : Nat) (range : Nat × Nat), ranges[i]? = some range ∧ range.1 ≤ x ∧ x < range.2 := by
  induction ranges generalizing lo with
  | nil =>
    change lo = hi at contiguous
    omega
  | cons first rest ih =>
    obtain ⟨start, -, later⟩ := contiguous
    by_cases here : x < first.2
    · exact ⟨0, first, rfl, start.trans_le lower, here⟩
    · obtain ⟨i, range, found, inside⟩ := ih later (Nat.le_of_not_lt here)
      exact ⟨i + 1, range, found, inside⟩

/-- Two ranges with a common entry are the same one. -/
theorem Contiguous.unique (contiguous : Contiguous lo hi ranges) {i j : Nat} {a b : Nat × Nat} (at_i : ranges[i]? = some a)
    (at_j : ranges[j]? = some b) (inA : a.1 ≤ x ∧ x < a.2) (inB : b.1 ≤ x ∧ x < b.2) : i = j := by
  have ordered := List.pairwise_iff_getElem.mp contiguous.disjoint
  obtain ⟨boundI, rfl⟩ := List.getElem?_eq_some_iff.mp at_i
  obtain ⟨boundJ, rfl⟩ := List.getElem?_eq_some_iff.mp at_j
  rcases Nat.lt_trichotomy i j with less | same | greater
  · have apart := ordered i j boundI boundJ less
    omega
  · exact same
  · have apart := ordered j i boundJ boundI greater
    omega

end Contiguous

/-- The first `rem` threads get one entry more than the others. -/
theorem fillPartitions_contiguous (base rem n i pos : Nat) :
    Contiguous pos (pos + n * base + (min (i + n) rem - min i rem)) (fillPartitions base rem n i pos) := by
  induction n generalizing i pos with
  | zero =>
    change pos = _
    omega
  | succ n ih =>
    refine ⟨rfl, Nat.le_add_right _ _, ?_⟩
    have later := ih (i + 1) (pos + (base + if i < rem then 1 else 0))
    have total : pos + (base + if i < rem then 1 else 0) + n * base + (min (i + 1 + n) rem - min (i + 1) rem) =
        pos + (n + 1) * base + (min (i + (n + 1)) rem - min i rem) := by
      rw [Nat.succ_mul]
      split <;> omega
    exact total ▸ later

theorem fillPartitions_length (base rem n i pos : Nat) : (fillPartitions base rem n i pos).length = n := by
  induction n generalizing i pos with
  | zero => rfl
  | succ n ih => exact congrArg (· + 1) (ih _ _)

theorem fillPartitions_slice (base rem n i pos : Nat) :
    ∀ range ∈ fillPartitions base rem n i pos, base ≤ range.2 - range.1 ∧ range.2 - range.1 ≤ base + 1 := by
  induction n generalizing i pos with
  | zero => exact nofun
  | succ n ih =>
    refine List.forall_mem_cons.mpr ⟨?_, ih _ _⟩
    dsimp only
    split <;> omega

/-- What the partitions are for: the threads share the entries evenly, and each mailbox has one thread that drains it. -/
structure SharesEvenly (threadCount total : Nat) (parts : List (Nat × Nat)) : Prop where
  length : parts.length = threadCount
  contiguous : Contiguous 0 total parts
  disjoint : parts.Pairwise fun a b => a.2 ≤ b.1
  even : ∀ a ∈ parts, ∀ b ∈ parts, a.2 - a.1 ≤ b.2 - b.1 + 1
  drained : ∀ idx < total, ∃! threadId, threadId < threadCount ∧ idx ∈ peerPollRound parts total threadId
  inside : ∀ threadId < threadCount, ∀ idx ∈ peerPollRound parts total threadId, idx < total

theorem SharesEvenly.of_contiguous {threadCount total : Nat} {parts : List (Nat × Nat)} (length : parts.length = threadCount)
    (contiguous : Contiguous 0 total parts) (even : ∀ a ∈ parts, ∀ b ∈ parts, a.2 - a.1 ≤ b.2 - b.1 + 1) :
    SharesEvenly threadCount total parts := by
  have polled {threadId idx : Nat} (thread : threadId < threadCount) (idx_mem : idx ∈ peerPollRound parts total threadId) :
      ∃ range, parts[threadId]? = some range ∧ range.1 ≤ idx ∧ idx < range.2 := by
    have found := List.getElem?_eq_getElem (length ▸ thread)
    rw [peerPollRound, found, List.mem_range'_1, Option.getD_some] at idx_mem
    exact ⟨_, found, by omega, by omega⟩
  refine ⟨length, contiguous, contiguous.disjoint, even, fun idx bound => ?_, fun threadId thread idx idx_mem => ?_⟩
  · obtain ⟨i, range, found, lower, upper⟩ := contiguous.covers (Nat.zero_le idx) bound
    refine ⟨i, ⟨length ▸ (List.getElem?_eq_some_iff.mp found).1, ?_⟩, fun j ⟨thread, idx_mem⟩ => ?_⟩
    · rw [peerPollRound, found, List.mem_range'_1, Option.getD_some]
      omega
    · obtain ⟨other, at_j, inside⟩ := polled thread idx_mem
      exact contiguous.unique at_j found inside ⟨lower, upper⟩
  · obtain ⟨range, found, -, upper⟩ := polled thread idx_mem
    exact upper.trans_le (contiguous.bounds.2 range (List.mem_of_getElem? found)).2

theorem contiguous_replicate (n : Nat) : Contiguous 0 0 (List.replicate n (0, 0)) := by
  induction n with
  | zero => rfl
  | succ n ih => exact ⟨rfl, le_rfl, ih⟩

theorem buildPartitions_sharesEvenly {threadCount : Nat} (positive : 0 < threadCount) (total : Nat) :
    SharesEvenly threadCount total (buildPartitions threadCount total) := by
  unfold buildPartitions
  by_cases empty : total = 0
  · subst empty
    rw [if_neg (fun some => some.2 rfl)]
    refine .of_contiguous List.length_replicate (contiguous_replicate threadCount) fun a inA b inB => ?_
    rw [List.eq_of_mem_replicate inA, List.eq_of_mem_replicate inB]
    exact Nat.zero_le _
  · rw [if_pos ⟨positive, empty⟩]
    refine .of_contiguous (fillPartitions_length ..) ?_ fun a inA b inB => ?_
    · have contiguous := fillPartitions_contiguous (total / threadCount) (total % threadCount) threadCount 0 0
      have rem := Nat.mod_lt total positive
      have whole := Nat.div_add_mod total threadCount
      have stop : 0 + threadCount * (total / threadCount) +
          (min (0 + threadCount) (total % threadCount) - min 0 (total % threadCount)) = total := by omega
      rw [stop] at contiguous
      exact contiguous
    · have longest := fillPartitions_slice _ _ _ _ _ a inA
      have shortest := fillPartitions_slice _ _ _ _ _ b inB
      omega

/-- Seven entries over three threads. -/
theorem buildPartitions_sharesEvenly_seven :
    buildPartitions 3 7 = [(0, 3), (3, 5), (5, 7)] ∧ SharesEvenly 3 7 (buildPartitions 3 7) :=
  ⟨rfl, buildPartitions_sharesEvenly (by decide) 7⟩

end FlexRaft
