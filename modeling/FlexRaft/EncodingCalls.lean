import FlexRaft.Cluster
import FlexRaft.Leader

namespace FlexRaft

/-- The arguments of one call of `EncodeRaftEntry`, the parameters as the 32-bit numbers that the code passes. -/
structure EncodeCall where
  raftIndex : Nat
  k : Nat
  m : Nat
  deriving DecidableEq, Repr

/-- At least one data fragment, and data and parity fragments together one for each server. -/
def EncodeCall.Valid (servers : Nat) (call : EncodeCall) : Prop :=
  1 ≤ call.k ∧ call.k ≤ servers ∧ call.m = servers - call.k

instance (servers : Nat) (call : EncodeCall) : Decidable (call.Valid servers) :=
  inferInstanceAs (Decidable (1 ≤ call.k ∧ call.k ≤ servers ∧ call.m = servers - call.k))

namespace RaftState

variable {liveServers : Nat}

/-- `encode_k`: the difference of the two `int`s wraps around when it becomes a `raft_encoding_param_t`. -/
def encodeK (s : RaftState) (liveServers : Nat) : Nat :=
  if 0 < s.config.dynamicK then s.config.dynamicK else (liveServers + UInt32.size - s.livenessLevel) % UInt32.size

/-- `encode_m`, an unsigned difference. -/
def encodeM (s : RaftState) (k : Nat) : Nat := (s.getClusterServerNumber + UInt32.size - k) % UInt32.size

def encodeCall (s : RaftState) (liveServers raftIndex : Nat) : EncodeCall :=
  { raftIndex := raftIndex, k := s.encodeK liveServers, m := s.encodeM (s.encodeK liveServers) }

/-- The entry has no encoding yet, or one with a larger `k`. -/
def needsEncoding (s : RaftState) (k raftIndex : Nat) : Bool :=
  !decide (s.getLastEncodingK raftIndex ≠ 0 ∧ s.getLastEncodingK raftIndex ≤ k)

/-- The calls that `MaybeReEncodingAndReplicate` makes as long as none of them fails an assertion. -/
def reEncodeCalls (s : RaftState) : List EncodeCall :=
  let liveServers := s.liveMonitor.liveNumber
  if liveServers ≤ s.livenessLevel then []
  else ((indexRange (s.commitIndex + 1) s.lm.lastLogEntryIndex).filter
    (s.needsEncoding (s.encodeK liveServers))).map (s.encodeCall liveServers)

/-- `ReplicateNewProposeEntry` before it looks for a stripe of the new entry. -/
def reEncoded (s : RaftState) : RaftState :=
  let liveServers := s.liveMonitor.liveNumber
  if liveServers ≠ s.aliveServersOfLastPoint then (s.updateAliveServers liveServers).maybeReEncodingAndReplicate else s

/-- The entry exists and goes the way of Reed-Solomon fragments. -/
def takesReedSolomon (s : RaftState) (raftIndex : Nat) : Bool :=
  match s.lm.getSingleLogEntry raftIndex with
  | none => false
  | some ent => s.config.lrcGrouper.isNone || !decide (s.config.encodingMode = 2 ∧ ent.isLrcEncoded)

/-- The calls that `ReplicateNewProposeEntry` makes. -/
def newEntryCalls (s : RaftState) (raftIndex : Nat) : List EncodeCall :=
  let liveServers := s.liveMonitor.liveNumber
  if s.takesReedSolomon raftIndex then
    (if liveServers ≠ s.aliveServersOfLastPoint then s.reEncodeCalls else []) ++
      if s.reEncoded.stopped || (s.reEncoded.encodedStripe raftIndex).isSome then []
      else [s.encodeCall liveServers raftIndex]
  else []

section Calls

variable {s : RaftState} {k raftIndex liveServers : Nat}

/-- As long as the difference does not wrap around it is the one the model encodes with. -/
theorem encodeK_eq (low : s.livenessLevel ≤ liveServers) (small : liveServers < UInt32.size) :
    s.encodeK liveServers = s.encodingK liveServers := by
  unfold encodeK encodingK
  split
  · rfl
  · rw [Nat.mod_eq_sub_mod (by omega), Nat.mod_eq_of_lt (by omega)]
    omega

/-- A difference that wraps around stops the server, as zero does. -/
theorem encodeAndRecord_encodeK (servers : s.getClusterServerNumber < UInt32.size - s.livenessLevel)
    (small : liveServers < UInt32.size) :
    s.encodeAndRecord (s.encodeK liveServers) raftIndex = s.encodeAndRecord (s.encodingK liveServers) raftIndex := by
  rcases Nat.lt_or_ge liveServers s.livenessLevel with few | enough
  · unfold encodeK encodingK
    split
    · rfl
    · have zero : liveServers - s.livenessLevel = 0 := by omega
      have wrapped : s.getClusterServerNumber < (liveServers + UInt32.size - s.livenessLevel) % UInt32.size := by
        rw [Nat.mod_eq_of_lt (by omega)]
        omega
      unfold encodeAndRecord encodeRaftEntry
      rw [if_pos (.inr (.inr wrapped)), if_pos (.inr (.inl zero))]
  · rw [encodeK_eq enough small]

theorem getLastEncodingK_encodeAndRecord {other : Nat} (apart : other ≠ raftIndex) :
    (s.encodeAndRecord k raftIndex).getLastEncodingK other = s.getLastEncodingK other := by
  unfold encodeAndRecord
  split
  · rfl
  · unfold getLastEncodingK
    simp only [updateLastEncodingK, setEncodedStripe, if_neg apart]

/-- The loop over the indices is the loop over those that need an encoding when it starts. -/
theorem forEach_reEncode (indices : List Nat) (distinct : indices.Nodup) {t : RaftState} (running : t.stopped = false)
    (same : ∀ i ∈ indices, t.getLastEncodingK i = s.getLastEncodingK i) :
    forEach (reEncode k) indices t = forEach (encodeAndRecord k) (indices.filter (s.needsEncoding k)) t := by
  induction indices generalizing t with
  | nil => rfl
  | cons i rest ih =>
    obtain ⟨fresh, distinct⟩ := List.nodup_cons.mp distinct
    have here := same i List.mem_cons_self
    have sameRest : ∀ j ∈ rest, t.getLastEncodingK j = s.getLastEncodingK j := fun j member =>
      same j (List.mem_cons_of_mem i member)
    by_cases kept : s.getLastEncodingK i ≠ 0 ∧ s.getLastEncodingK i ≤ k
    · have skipped : reEncode k t i = t := by
        unfold reEncode
        dsimp only
        rw [here, if_pos kept]
      rw [List.filter_cons_of_neg (by simp [needsEncoding, kept]), forEach, skipped, andThen,
        if_neg (by rw [running]; exact Bool.false_ne_true)]
      exact ih distinct running sameRest
    · have encoded : reEncode k t i = t.encodeAndRecord k i := by
        unfold reEncode
        dsimp only
        rw [here, if_neg kept]
      rw [List.filter_cons_of_pos (by simp [needsEncoding, kept]), forEach, forEach, encoded]
      unfold andThen
      split
      · rfl
      · rename_i goes
        refine ih distinct (by simpa using goes) fun j member => ?_
        have apart : j ≠ i := fun equal => fresh (equal ▸ member)
        rw [getLastEncodingK_encodeAndRecord apart, sameRest j member]

theorem forEach_map {α β : Type} (f : RaftState → β → RaftState) (g : α → β) (items : List α) :
    forEach f (items.map g) s = forEach (fun t a => f t (g a)) items s := by
  induction items generalizing s with
  | nil => rfl
  | cons a rest ih =>
    rw [List.map_cons, forEach, forEach]
    unfold andThen
    split
    · rfl
    · exact ih

end Calls

/-- `MaybeReEncodingAndReplicate` makes its calls and then sends. -/
theorem maybeReEncodingAndReplicate_eq_calls (s : RaftState) (running : s.stopped = false)
    (small : s.liveMonitor.liveNumber < UInt32.size) :
    s.maybeReEncodingAndReplicate =
      if s.liveMonitor.liveNumber ≤ s.livenessLevel then s
      else (forEach (fun t call => t.encodeAndRecord call.k call.raftIndex) s.reEncodeCalls s).andThen
        fun t => forEach reverseAndSend t.peers t := by
  unfold maybeReEncodingAndReplicate reEncodeCalls
  dsimp only
  split
  · rfl
  · rename_i enough
    have distinct : (indexRange (s.commitIndex + 1) s.lm.lastLogEntryIndex).Nodup := List.nodup_range'
    rw [forEach_map, encodeK_eq (by omega) small, forEach_reEncode _ distinct running fun _ _ => rfl]
    simp only [encodeCall, encodeK_eq (Nat.le_of_not_le enough) small]

theorem reEncoded_config (s : RaftState) : s.reEncoded.config = s.config := by
  unfold reEncoded
  dsimp only
  split
  · exact field_eq (LeaderStep.maybeReEncodingAndReplicate (s.updateAliveServers _)).core (·.config)
  · rfl

/-- On the Reed-Solomon path the new entry is encoded unless it has a stripe by then. -/
theorem replicateNewProposeEntry_eq_calls (s : RaftState) (raftIndex : Nat)
    (takes : s.takesReedSolomon raftIndex = true)
    (servers : s.getClusterServerNumber < UInt32.size - s.livenessLevel)
    (small : s.liveMonitor.liveNumber < UInt32.size) :
    s.replicateNewProposeEntry raftIndex =
      (s.reEncoded.andThen fun t =>
        if (t.encodedStripe raftIndex).isSome then t
        else t.encodeAndRecord (s.encodeCall s.liveMonitor.liveNumber raftIndex).k raftIndex).andThen
          fun t => forEach sendToPeer t.peers t := by
  have encodes : s.encodeNewEntry raftIndex = s.reEncoded.andThen fun t =>
      if (t.encodedStripe raftIndex).isSome then t
      else t.encodeAndRecord (s.encodeCall s.liveMonitor.liveNumber raftIndex).k raftIndex := by
    have config := s.reEncoded_config
    change s.reEncoded.andThen (fun t => if (t.encodedStripe raftIndex).isSome then t
      else t.encodeAndRecord (t.encodingK s.liveMonitor.liveNumber) raftIndex) = _
    generalize s.reEncoded = t at config
    unfold andThen
    split
    · rfl
    · have same : (s.encodeCall s.liveMonitor.liveNumber raftIndex).k = t.encodeK s.liveMonitor.liveNumber := by
        unfold encodeCall encodeK livenessLevel peers
        rw [config]
      rw [same]
      dsimp only
      rw [encodeAndRecord_encodeK (by rwa [getClusterServerNumber, livenessLevel, peers, config]) small]
  unfold takesReedSolomon at takes
  unfold replicateNewProposeEntry
  cases held : s.lm.getSingleLogEntry raftIndex with
  | none =>
    rw [held] at takes
    cases takes
  | some ent =>
    rw [held] at takes
    dsimp only at takes ⊢
    cases grouper : s.config.lrcGrouper with
    | none => rw [encodes]
    | some g =>
      rw [grouper] at takes
      have other : ¬ (s.config.encodingMode = 2 ∧ ent.isLrcEncoded = true) := by
        simpa only [Option.isNone_some, Bool.false_or, Bool.not_eq_true', decide_eq_false_iff_not] using takes
      dsimp only
      rw [if_neg other, encodes]

theorem encodeCall_valid (s : RaftState) (raftIndex : Nat)
    (dynamic : s.config.dynamicK ≤ s.getClusterServerNumber) (servers : s.getClusterServerNumber < UInt32.size)
    (live : liveServers ≤ s.getClusterServerNumber)
    (enough : 0 < s.config.dynamicK ∨ s.livenessLevel < liveServers) :
    (s.encodeCall liveServers raftIndex).Valid s.getClusterServerNumber := by
  have param : 1 ≤ s.encodeK liveServers ∧ s.encodeK liveServers ≤ s.getClusterServerNumber := by
    unfold encodeK
    split
    · omega
    · rw [Nat.mod_eq_sub_mod (by omega), Nat.mod_eq_of_lt (by omega)]
      omega
  refine ⟨param.1, param.2, ?_⟩
  change (s.getClusterServerNumber + UInt32.size - s.encodeK liveServers) % UInt32.size = _ - s.encodeK liveServers
  rw [Nat.mod_eq_sub_mod (by omega), Nat.mod_eq_of_lt (by omega)]
  omega

theorem live_of_encodeK_le (s : RaftState) (auto : ¬ 0 < s.config.dynamicK)
    (servers : s.getClusterServerNumber < UInt32.size / 2) (positive : 1 ≤ s.encodeK liveServers)
    (fits : s.encodeK liveServers ≤ s.getClusterServerNumber) : s.livenessLevel < liveServers := by
  by_contra few
  have level : s.livenessLevel < s.getClusterServerNumber := by
    unfold livenessLevel getClusterServerNumber
    omega
  unfold encodeK at positive fits
  rw [if_neg auto] at positive fits
  rcases Nat.lt_or_ge liveServers s.livenessLevel with less | equal
  · rw [Nat.mod_eq_of_lt (by omega)] at fits
    omega
  · rw [show liveServers + UInt32.size - s.livenessLevel = UInt32.size by omega, Nat.mod_self] at positive
    omega

theorem liveNumber_le (m : LivenessMonitor) : m.liveNumber ≤ m.nodeNum := by
  have := List.length_filter_le (fun i => m.response i) (List.range m.nodeNum)
  rwa [List.length_range] at this

/-- Every call uses parameters that fit the cluster, if and only if the live servers outnumber the faults, or `k`
is configured, or there is no new entry to encode. -/
theorem encoding_parameters_valid_iff (s : RaftState) (raftIndex : Nat) (running : s.stopped = false)
    (monitored : s.liveMonitor.nodeNum = s.getClusterServerNumber) (servers : s.getClusterServerNumber ≤ 32)
    (dynamic : s.config.dynamicK ≤ s.getClusterServerNumber) :
    (∀ call ∈ s.reEncodeCalls ++ s.newEntryCalls raftIndex, call.Valid s.getClusterServerNumber) ↔
      0 < s.config.dynamicK ∨ s.livenessLevel < s.liveMonitor.liveNumber ∨ s.takesReedSolomon raftIndex = false ∨
        (s.encodedStripe raftIndex).isSome := by
  have live : s.liveMonitor.liveNumber ≤ s.getClusterServerNumber := monitored ▸ liveNumber_le s.liveMonitor
  have half : s.getClusterServerNumber < UInt32.size / 2 := Nat.lt_of_le_of_lt servers (by decide)
  have small : s.getClusterServerNumber < UInt32.size := by omega
  by_cases enough : 0 < s.config.dynamicK ∨ s.livenessLevel < s.liveMonitor.liveNumber
  · -- whatever is encoded, the parameters are the same
    have valid : ∀ i, (s.encodeCall s.liveMonitor.liveNumber i).Valid s.getClusterServerNumber := fun i =>
      s.encodeCall_valid i dynamic small live enough
    refine iff_of_true (fun call member => ?_) (by tauto)
    have again : ∀ call ∈ s.reEncodeCalls, call.Valid s.getClusterServerNumber := by
      intro call member
      unfold reEncodeCalls at member
      dsimp only at member
      split at member
      · cases member
      · obtain ⟨i, _, rfl⟩ := List.mem_map.mp member
        exact valid i
    rcases List.mem_append.mp member with old | new
    · exact again call old
    · unfold newEntryCalls at new
      dsimp only at new
      split at new
      · rcases List.mem_append.mp new with old | new
        · split at old
          · exact again call old
          · cases old
        · split at new
          · cases new
          · cases List.mem_singleton.mp new
            exact valid raftIndex
      · cases new
  · -- too few live servers: nothing is encoded again, and a new entry gets parameters that do not fit
    obtain ⟨auto, few⟩ := not_or.mp enough
    have nothing : s.reEncodeCalls = [] := if_pos (Nat.le_of_not_lt few)
    have unchanged : s.reEncoded.stopped = false ∧ s.reEncoded.encodedStripe raftIndex = s.encodedStripe raftIndex := by
      unfold reEncoded
      dsimp only
      split
      · have skipped : (s.updateAliveServers s.liveMonitor.liveNumber).maybeReEncodingAndReplicate =
            s.updateAliveServers s.liveMonitor.liveNumber := if_pos (Nat.le_of_not_lt few)
        rw [skipped]
        exact ⟨running, rfl⟩
      · exact ⟨running, rfl⟩
    have calls : s.newEntryCalls raftIndex =
        if s.takesReedSolomon raftIndex = true ∧ (s.encodedStripe raftIndex).isSome = false
        then [s.encodeCall s.liveMonitor.liveNumber raftIndex] else [] := by
      unfold newEntryCalls
      dsimp only
      rw [nothing, unchanged.1, unchanged.2, ite_self]
      cases s.takesReedSolomon raftIndex <;> cases (s.encodedStripe raftIndex).isSome <;> rfl
    rw [nothing, List.nil_append, calls]
    split
    · rename_i new
      refine iff_of_false (fun valid => ?_) (by simp [auto, few, new.1, new.2])
      obtain ⟨positive, fits, _⟩ := valid _ List.mem_cons_self
      exact few (s.live_of_encodeK_le auto half positive fits)
    · rename_i none
      refine iff_of_true (fun _ member => (nomatch member)) ?_
      cases takes : s.takesReedSolomon raftIndex with
      | false => exact .inr (.inr (.inl rfl))
      | true =>
        refine .inr (.inr (.inr ?_))
        by_contra bare
        exact none ⟨takes, Bool.eq_false_iff.mpr bare⟩

end RaftState

namespace Cluster

def fiveServers : ClusterConfig :=
  { ClusterConfig.threeServers 0 with size := 5, size_pos := by decide, size_le := by decide }

/-- Server 0 of five is elected. One second later only server 1 answers it, and it proposes an entry. -/
def twoOfFiveAlive : Cluster :=
  (exec (fun _ _ => True) (init fiveServers RaftState.Uninitialised.zero)
    [.tick 0 { electionExpired := true }, .deliver 0 1, .deliver 0 1, .deliver 2 1, .deliver 2 1, .deliver 2 2,
      .deliver 5 1000, .propose 0 ⟨0, [1, 2]⟩]).get (by decide +kernel)

theorem encoding_parameters_valid_iff_twoOfFiveAlive :
    (∀ call ∈ (twoOfFiveAlive.servers 0).reEncodeCalls ++ (twoOfFiveAlive.servers 0).newEntryCalls 1,
        call.Valid (twoOfFiveAlive.servers 0).getClusterServerNumber) ↔
      0 < (twoOfFiveAlive.servers 0).config.dynamicK ∨
        (twoOfFiveAlive.servers 0).livenessLevel < (twoOfFiveAlive.servers 0).liveMonitor.liveNumber ∨
        (twoOfFiveAlive.servers 0).takesReedSolomon 1 = false ∨
        ((twoOfFiveAlive.servers 0).encodedStripe 1).isSome :=
  RaftState.encoding_parameters_valid_iff (twoOfFiveAlive.servers 0) 1 (by decide +kernel) (by decide +kernel)
    (by decide +kernel) (by decide +kernel)

/-- The leader encodes the entry with `k = 0`, which fails an assertion. -/
theorem encoded_without_data : Reach (fun _ _ => True) (init fiveServers RaftState.Uninitialised.zero) twoOfFiveAlive ∧
    (twoOfFiveAlive.servers 0).role = .kLeader ∧
    (twoOfFiveAlive.servers 0).newEntryCalls 1 = [{ raftIndex := 1, k := 0, m := 5 }] ∧
    ¬ EncodeCall.Valid (twoOfFiveAlive.servers 0).getClusterServerNumber { raftIndex := 1, k := 0, m := 5 } ∧
    ((twoOfFiveAlive.servers 0).replicateNewProposeEntry 1).stopped = true :=
  ⟨Steps.Reach.of_get _, by decide +kernel, by decide +kernel, by decide +kernel, by decide +kernel⟩

end Cluster

end FlexRaft
