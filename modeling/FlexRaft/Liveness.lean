import FlexRaft.Cluster
import Mathlib.Data.List.Perm.Subperm

namespace FlexRaft

namespace LivenessMonitor

/-- The clock reading at the last call of `i`, in a history that has the latest call in front. -/
def lastCall (calls : List (Nat × Nat)) (i : Nat) : Option Nat := (calls.find? fun call => call.1 = i).map Prod.snd

/-- Whether the last call of `i` lies within the interval of the latest call. -/
def recent (calls : List (Nat × Nat)) (i : Nat) : Bool :=
  (lastCall calls i).any fun last => (calls.head?.map Prod.snd).getD 0 < last + kLivenessTimeoutInterval

/-- The monitor after these calls of `UpdateLiveness`. -/
def after (m : LivenessMonitor) (calls : List (Nat × Nat)) : LivenessMonitor :=
  calls.foldr (fun call m => m.updateLiveness call.1 call.2) m

theorem lastCall_cons (id now i : Nat) (calls : List (Nat × Nat)) :
    lastCall ((id, now) :: calls) i = if id = i then some now else lastCall calls i := by
  unfold lastCall
  rw [List.find?_cons]
  by_cases same : id = i <;> simp [same]

theorem recent_cons (id now i : Nat) (calls : List (Nat × Nat)) : recent ((id, now) :: calls) i =
    (lastCall ((id, now) :: calls) i).any fun last => now < last + kLivenessTimeoutInterval := rfl

theorem mem_of_lastCall {calls : List (Nat × Nat)} {i last : Nat} (called : lastCall calls i = some last) :
    (i, last) ∈ calls := by
  obtain ⟨call, found, rfl⟩ := Option.map_eq_some_iff.mp called
  obtain rfl : call.1 = i := by simpa using List.find?_some found
  exact List.mem_of_find?_eq_some found

/-- What the monitor of server `me` of `n` knows from the calls. -/
structure Tracks (m : LivenessMonitor) (me n : Nat) (calls : List (Nat × Nat)) : Prop where
  nodeNum : m.nodeNum = n
  self : m.me = me
  response : ∀ i, m.response i = (decide (i = me) || recent calls i)
  time : ∀ i last, lastCall calls i = some last → m.responseTime i = last

section

variable {m : LivenessMonitor} {me n id now : Nat} {calls : List (Nat × Nat)}

/-- An answer that was too old at the last call is too old at the next one. -/
theorem recent_and {i last : Nat} (called : lastCall calls i = some last) (order : ∀ call ∈ calls, call.2 ≤ now)
    (word : now < UInt64.size) :
    (recent calls i && decide ((now + UInt64.size - last) % UInt64.size < kLivenessTimeoutInterval)) =
      decide (now < last + kLivenessTimeoutInterval) := by
  have before : last ≤ now := order _ (mem_of_lastCall called)
  have elapsed : (now + UInt64.size - last) % UInt64.size = now - last := by
    rw [Nat.sub_add_comm before, Nat.add_mod_right, Nat.mod_eq_of_lt (by omega)]
  have latest : (calls.head?.map Prod.snd).getD 0 ≤ now := by
    cases calls with
    | nil => exact Nat.zero_le now
    | cons call rest => exact order call List.mem_cons_self
  rw [elapsed, recent, called, Option.any_some, ← Bool.decide_and]
  exact decide_eq_decide.mpr (by omega)

theorem Tracks.updateLiveness (tracks : m.Tracks me n calls) (inside : ∀ call ∈ (id, now) :: calls, call.1 < n)
    (few : n ≤ kMaxNodeNum) (order : ∀ call ∈ calls, call.2 ≤ now) (word : now < UInt64.size) :
    (m.updateLiveness id now).Tracks me n ((id, now) :: calls) := by
  have below : id < n := inside _ List.mem_cons_self
  unfold LivenessMonitor.updateLiveness
  rw [tracks.nodeNum, tracks.self, if_neg (by omega)]
  refine ⟨rfl, rfl, fun i => ?_, fun i last called => ?_⟩
  · dsimp only
    rw [recent_cons, lastCall_cons]
    by_cases self : i = me
    · simp [self]
    · by_cases caller : id = i
      · subst caller
        simp [self, below, kLivenessTimeoutInterval]
      · simp only [if_neg self, if_neg (Ne.symm caller), if_neg caller, tracks.response i, decide_eq_false self,
          Bool.false_or]
        cases called : lastCall calls i with
        | none => simp [recent, called]
        | some last =>
          have member := inside _ (List.mem_cons_of_mem _ (mem_of_lastCall called))
          rw [if_pos member, tracks.time i last called]
          exact recent_and called order word
  · rw [lastCall_cons] at called
    dsimp only
    by_cases caller : id = i
    · rw [if_pos caller] at called
      rw [if_pos caller.symm]
      exact Option.some.inj called
    · rw [if_neg caller] at called
      rw [if_neg (Ne.symm caller)]
      exact tracks.time i last called

theorem Tracks.after (tracks : m.Tracks me n []) (few : n ≤ kMaxNodeNum) (inside : ∀ call ∈ calls, call.1 < n)
    (clock : calls.Pairwise fun later earlier => earlier.2 ≤ later.2) (words : ∀ call ∈ calls, call.2 < UInt64.size) :
    (m.after calls).Tracks me n calls := by
  induction calls with
  | nil => exact tracks
  | cons call rest ih =>
    obtain ⟨order, clock⟩ := List.pairwise_cons.mp clock
    have before := ih (fun c member => inside c (List.mem_cons_of_mem _ member)) clock
      fun c member => words c (List.mem_cons_of_mem _ member)
    exact before.updateLiveness inside few order (words call List.mem_cons_self)

end

/-- The live count is exact: `IsAlive` holds for the server itself and the members heard of lately, and they are
counted. -/
structure Exact (m : LivenessMonitor) (me : Nat) (peers : List Nat) (calls : List (Nat × Nat)) : Prop where
  alive : ∀ i, m.isAlive i = true ↔ i = me ∨ i ∈ peers ∧ recent calls i = true
  count : m.liveNumber = ((me :: peers).filter fun i => i = me ∨ recent calls i = true).length
  positive : 1 ≤ m.liveNumber
  bounded : m.liveNumber ≤ peers.length + 1

theorem Tracks.exact {m : LivenessMonitor} {me : Nat} {peers : List Nat} {calls : List (Nat × Nat)}
    (tracks : m.Tracks me (peers.length + 1) calls) (distinct : (me :: peers).Nodup)
    (first : ∀ i ∈ me :: peers, i < peers.length + 1) (callers : ∀ call ∈ calls, call.1 ∈ me :: peers) :
    m.Exact me peers calls := by
  have members : (me :: peers).Perm (List.range (peers.length + 1)) :=
    (List.subperm_of_subset distinct fun i member => List.mem_range.mpr (first i member)).perm_of_length_le
      (List.length_range.le.trans (List.length_cons ..).ge)
  have count : m.liveNumber = ((me :: peers).filter fun i => i = me ∨ recent calls i = true).length := by
    rw [liveNumber, tracks.nodeNum, (members.filter _).length_eq]
    simp only [tracks.response, Bool.decide_or, Bool.decide_eq_true]
  refine ⟨fun i => ?_, count, ?_, ?_⟩
  · rw [isAlive, tracks.response, Bool.or_eq_true, decide_eq_true_iff]
    refine or_congr_right' fun other => ⟨fun lately => ⟨?_, lately⟩, And.right⟩
    cases called : lastCall calls i with
    | none => simp [recent, called] at lately
    | some last => exact (List.mem_cons.mp (callers _ (mem_of_lastCall called))).resolve_left other
  · rw [count, List.filter_cons_of_pos (by simp)]
    exact Nat.le_add_left 1 _
  · rw [count]
    exact List.length_filter_le _ _

end LivenessMonitor

namespace RaftState

/-- The monitor of a new server; `none` where the assertion in its `Init` fails. -/
def newMonitor (config : RaftConfig) (storage : Option PersistRaftState) (lm : LogManager) (junk : Uninitialised) :
    Option LivenessMonitor :=
  if LivenessMonitor.kMaxNodeNum ≤ config.id then none else some (newRaftState config storage lm junk).liveMonitor

/-- The members' ids are the first numbers, and there are slots for all of them. -/
def FitsMonitor (config : RaftConfig) : Prop :=
  (∀ i ∈ config.id :: config.peers, i < config.peers.length + 1) ∧ config.peers.length + 1 ≤ LivenessMonitor.kMaxNodeNum

open LivenessMonitor in
/-- The live count is exact after all calls of members if and only if the ids fit. -/
theorem live_count_exact_iff (config : RaftConfig) (storage : Option PersistRaftState) (lm : LogManager)
    (junk : Uninitialised) (silent : junk.response = fun _ => false) (distinct : (config.id :: config.peers).Nodup)
    (_small : ∀ i ∈ config.id :: config.peers, i < 32) :
    (∀ calls : List (Nat × Nat), (∀ call ∈ calls, call.1 ∈ config.id :: config.peers) →
      (calls.Pairwise fun later earlier => earlier.2 ≤ later.2) → (∀ call ∈ calls, call.2 < UInt64.size) →
      ∃ m, newMonitor config storage lm junk = some m ∧ (m.after calls).Exact config.id config.peers calls) ↔
    FitsMonitor config := by
  have start : (newRaftState config storage lm junk).liveMonitor.Tracks config.id (config.peers.length + 1) [] :=
    ⟨rfl, rfl, fun i => by simp [newRaftState, persistRaftState, init, silent, recent, lastCall], fun _ _ called => by cases called⟩
  constructor
  · intro exact
    -- Before any call the server counts itself, and after one call it counts the peer that has called.
    obtain ⟨m, created, alone⟩ := exact [] (by simp) .nil (by simp)
    unfold newMonitor at exact created
    split at created
    · cases created
    · rename_i mine
      cases created
      have self : config.id < config.peers.length + 1 := by
        obtain ⟨i, member⟩ := List.length_pos_iff_exists_mem.mp alone.positive
        obtain ⟨inside, alive⟩ := List.mem_filter.mp member
        have same : i = config.id := by simpa [after, start.response, recent, lastCall] using alive
        exact same ▸ List.mem_range.mp inside
      have heard : ∀ peer ∈ config.peers, peer < kMaxNodeNum ∧ peer < config.peers.length + 1 := by
        intro peer member
        obtain ⟨_, created, once⟩ := exact [(peer, 0)] (by simp [member]) (List.pairwise_singleton _ _) (by simp)
        rw [if_neg mine] at created
        cases created
        by_contra outside
        have skipped : ((newRaftState config storage lm junk).liveMonitor.after [(peer, 0)]).isAlive peer =
            decide (peer = config.id) := by
          change ((newRaftState config storage lm junk).liveMonitor.updateLiveness peer 0).response peer = _
          rw [LivenessMonitor.updateLiveness, start.nodeNum, if_pos (by omega), start.response]
          exact Bool.or_false _
        have alive := (once.alive peer).mpr (Or.inr ⟨member, by simp [recent, lastCall, kLivenessTimeoutInterval]⟩)
        rw [skipped, decide_eq_true_iff] at alive
        exact (List.nodup_cons.mp distinct).1 (alive ▸ member)
      refine ⟨List.forall_mem_cons.mpr ⟨self, fun peer member => (heard peer member).2⟩, ?_⟩
      have slots : (config.id :: config.peers).Subperm (List.range kMaxNodeNum) := by
        refine List.subperm_of_subset distinct fun i member => List.mem_range.mpr ?_
        rcases List.mem_cons.mp member with rfl | peer
        · exact Nat.not_le.mp mine
        · exact (heard i peer).1
      exact slots.length_le.trans List.length_range.le
  · rintro ⟨first, few⟩ calls callers clock words
    have mine := (first _ List.mem_cons_self).trans_le few
    refine ⟨_, if_neg (Nat.not_le.mpr mine), ?_⟩
    exact (start.after few (fun call member => first _ (callers call member)) clock words).exact distinct first callers

/-- A group of the servers 0 and `peer`. -/
def pairConfig (peer : Nat) : RaftConfig := { (ClusterConfig.threeServers 1).serverConfig 0 with peers := [peer] }

theorem live_count_exact_iff_pair : ∃ m, newMonitor (pairConfig 1) none {} (.zero 0) = some m ∧
    (m.after [(1, 350), (1, 100)]).Exact 0 [1] [(1, 350), (1, 100)] :=
  (live_count_exact_iff (pairConfig 1) none {} (.zero 0) rfl (by decide) (by decide)).mpr ⟨by decide, by decide⟩ _
    (by decide) (by decide) (by decide)

/-- Server 2 has no slot in a group of two, so that its answer is not counted. -/
theorem answer_not_counted : ∃ m, newMonitor (pairConfig 2) none {} (.zero 0) = some m ∧
    (m.after [(2, 350)]).isAlive 2 = false ∧ (m.after [(2, 350)]).liveNumber = 1 :=
  ⟨_, rfl, rfl, rfl⟩

end RaftState

end FlexRaft
