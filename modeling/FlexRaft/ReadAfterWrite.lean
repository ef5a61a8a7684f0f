import Mathlib.Data.Finset.Max
import FlexRaft.PutLog
import FlexRaft.StripeRead

namespace FlexRaft

namespace StripeStore

open RaftState PutGroup

/-- The leader has written the metadata of all puts that were done when the get started. -/
def metaWritten (γ : StripeStore) (get : GetCall) : Prop :=
  ∀ put ∈ get.before, ∃ m ∈ (γ.pools get.server).written, m.entryId = put.index

instance (γ : StripeStore) (get : GetCall) : Decidable (γ.metaWritten get) :=
  inferInstanceAs (Decidable (∀ put ∈ get.before, ∃ m ∈ (γ.pools get.server).written, m.entryId = put.index))

/-- The fragment with the given number of the entry in the leader's log. -/
def loggedFragment (γ : StripeStore) (stripeId fragId : Nat) : Option Slice :=
  (γ.group.cluster.preferred.lm.getSingleLogEntry stripeId).bind fun e => e.fragments[fragId]?

/-- A node holds a fragment as it stands in the leader's log. -/
def holdsLogged (γ : StripeStore) (node stripeId fragId : Nat) : Prop :=
  (γ.pools node).db (fragDbKey γ.groupId stripeId fragId) = γ.loggedFragment stripeId fragId

/-- A node has metadata for the key of a fragment, so that somebody has used this key for a put. -/
def shadowsFragment (γ : StripeStore) (node stripeId fragId : Nat) : Prop :=
  (γ.pools node).db (stripeMetaDbKey γ.groupId (fragDbKey γ.groupId stripeId fragId)) ≠ none

/-- The node that is asked for a fragment has it and answers with it. -/
def holdsFragment (γ : StripeStore) (i : Nat) (reached : Bool) (get : GetCall) : Prop :=
  match get.phase with
  | .fetching stripe todo _ => ∀ fp ∈ todo[i]?,
      (fp.nodeId = get.server → γ.holdsLogged fp.nodeId stripe.stripeId fp.fragId) ∧
      (fp.nodeId ≠ get.server → reached = true → γ.holdsLogged fp.nodeId stripe.stripeId fp.fragId ∧
        ¬γ.shadowsFragment fp.nodeId stripe.stripeId fp.fragId)
  | _ => True

instance (γ : StripeStore) (node stripeId fragId : Nat) : Decidable (γ.holdsLogged node stripeId fragId) :=
  inferInstanceAs (Decidable ((γ.pools node).db (fragDbKey γ.groupId stripeId fragId) = γ.loggedFragment stripeId fragId))

instance (γ : StripeStore) (node stripeId fragId : Nat) : Decidable (γ.shadowsFragment node stripeId fragId) :=
  inferInstanceAs (Decidable ((γ.pools node).db (stripeMetaDbKey γ.groupId (fragDbKey γ.groupId stripeId fragId)) ≠ none))

instance (γ : StripeStore) (i : Nat) (reached : Bool) : (get : GetCall) → Decidable (γ.holdsFragment i reached get)
  | ⟨server, _, _, _, .fetching stripe todo _⟩ => inferInstanceAs (Decidable (∀ fp ∈ todo[i]?,
      (fp.nodeId = server → γ.holdsLogged fp.nodeId stripe.stripeId fp.fragId) ∧
      (fp.nodeId ≠ server → reached = true → γ.holdsLogged fp.nodeId stripe.stripeId fp.fragId ∧
        ¬γ.shadowsFragment fp.nodeId stripe.stripeId fp.fragId)))
  | ⟨_, _, _, _, .starting⟩ | ⟨_, _, _, _, .returned _ _⟩ => isTrue trivial

/-- Steps in which the preferred server does not restart and has one batch of messages at a time, the sizes of the puts
fit, a get finds the puts that were done before it applied on the leader, and the nodes it asks for the fragments
hold them. -/
def careful (γ : StripeStore) : StoreLabel → Prop
  | .group l => γ.group.steady l
  | .apply server l => server = γ.groupId → (γ.pools server).oneBatch l
  | .readMeta n => ∀ get ∈ γ.gets[n]?, γ.metaWritten get
  | .fetch n i reached _ => ∀ get ∈ γ.gets[n]?, get.before ≠ [] → γ.holdsFragment i reached get
  | .handOver _ | .startGet _ _ | .finishGet _ => True

instance (γ : StripeStore) : (l : StoreLabel) → Decidable (γ.careful l)
  | .group l => inferInstanceAs (Decidable (γ.group.steady l))
  | .apply server l => inferInstanceAs (Decidable (server = γ.groupId → (γ.pools server).oneBatch l))
  | .readMeta n => inferInstanceAs (Decidable (∀ get ∈ γ.gets[n]?, γ.metaWritten get))
  | .fetch n i reached _ =>
    inferInstanceAs (Decidable (∀ get ∈ γ.gets[n]?, get.before ≠ [] → γ.holdsFragment i reached get))
  | .handOver _ | .startGet _ _ | .finishGet _ => isTrue trivial

/-- A put that was done when a get of its key started. -/
structure Completed (c : StripeConfig) (σ : Cluster) (key : Slice) (put : PutCall) : Prop where
  fits : put.cmd.Fits
  key : put.cmd.userKey = key
  entry : ∃ term, HasEntry c σ put put.index term
  committed : put.index ≤ σ.preferred.commitIndex

/-- The put that a get returns: committed, of the key, and not older than any put that was done before. -/
structure Source (c : StripeConfig) (σ : Cluster) (get : GetCall) (cmd : StripeWriteCommand) (index : Nat) : Prop where
  fits : cmd.Fits
  key : cmd.userKey = get.key
  entry : ∃ term j, index = j + 1 ∧ σ.preferred.lm.entries[j]? = some (c.stripeEntry cmd term (j + 1))
  committed : index ≤ σ.preferred.commitIndex
  latest : ∀ put ∈ get.before, put.index ≤ index

/-- The fragments that have come in are those of the value. As long as all peers are reached, none is missing. -/
structure Collected (c : StripeConfig) (value : Slice) (unreachable : Bool) (todo : List StripePlacement)
    (fragBytes : OrdMap Slice) : Prop where
  ascending : fragBytes.Ascending
  values : ∀ p ∈ fragBytes, p.1 < c.layout.params.k ∧ p.2 = Encoder.dataFragment value c.layout.params.k p.1
  asked : ∀ fp ∈ todo, fp.fragId < c.layout.params.k
  rest : unreachable = false → ∀ i < c.layout.params.k,
    (∃ bytes, (i, bytes) ∈ fragBytes) ∨ ∃ fp ∈ todo, fp.fragId = i

/-- Where a get with some put before it can be. -/
def Reads (c : StripeConfig) (σ : Cluster) (get : GetCall) : Prop :=
  match get.phase with
  | .starting => get.server = c.groupId
  | .fetching stripe todo fragBytes => get.server = c.groupId ∧ ∃ cmd index, Source c σ get cmd index ∧
      stripe = c.stripeMeta cmd index ∧ Collected c cmd.userValue get.unreachable todo fragBytes
  | .returned .kOk value => ∃ cmd index, Source c σ get cmd index ∧ value = formatFullEntryValueForStorage cmd.userValue
  | .returned .kKeyNotExist _ => get.unreachable = true
  | .returned _ _ => True

structure Serving (c : StripeConfig) (dbs : Nat → Database) (γ : StripeStore) : Prop where
  logged : Logged c γ.group
  pool : Steps.Reach ApplyPool.step ApplyPool.oneBatch (.start (c.applyConfig c.groupId) (dbs c.groupId))
    (γ.pools c.groupId)
  committed : (γ.pools c.groupId).committed <+: γ.group.cluster.preferred.lm.entries
  handed : (γ.pools c.groupId).committed.length ≤ γ.group.cluster.preferred.commitIndex
  before : ∀ get ∈ γ.gets, ∀ put ∈ get.before, Completed c γ.group.cluster get.key put
  reads : ∀ get ∈ γ.gets, get.before ≠ [] → Reads c γ.group.cluster get

section Serving

variable {c : StripeConfig} {dbs : Nat → Database} {γ γ' : StripeStore} {σ σ' : Cluster} {get get' : GetCall}
  {put : PutCall} {cmd : StripeWriteCommand} {index n : Nat}
  {key value : Slice} {l : ApplyPool.Label} {server i term' : Nat} {unreachable reached : Bool} {todo : List StripePlacement} {fragBytes : OrdMap Slice} {fp : StripePlacement} {nested : Option Slice} {m : MsgApplyCommitted} {cmd' : StripeWriteCommand}

theorem Completed.grown (done : Completed c σ key put) (extended : Extends σ σ') : Completed c σ' key put := by
  obtain ⟨term, has⟩ := done.entry
  exact ⟨done.fits, done.key, ⟨term, has.grown extended.1⟩, done.committed.trans extended.2⟩

theorem Source.grown (source : Source c σ get cmd index) (extended : Extends σ σ') : Source c σ' get cmd index := by
  obtain ⟨term, j, place, at_j⟩ := source.entry
  exact ⟨source.fits, source.key, ⟨term, j, place, getElem?_of_begins extended.1 at_j⟩,
    source.committed.trans extended.2, source.latest⟩

theorem Reads.grown (reads : Reads c σ get) (extended : Extends σ σ') : Reads c σ' get := by
  unfold Reads at reads ⊢
  split at reads
  · exact reads
  · obtain ⟨server, cmd, index, source, rest⟩ := reads
    exact ⟨server, cmd, index, source.grown extended, rest⟩
  · obtain ⟨cmd, index, source, value⟩ := reads
    exact ⟨cmd, index, source.grown extended, value⟩
  · exact reads
  · trivial

theorem Serving.groupId_eq (serving : Serving c dbs γ) : γ.groupId = c.groupId := by
  rw [StripeStore.groupId, serving.logged.config]
  rfl

theorem Serving.extended (serving : Serving c dbs γ) (logged : Logged c γ'.group)
    (extended : Extends γ.group.cluster γ'.group.cluster) (pools : γ'.pools c.groupId = γ.pools c.groupId)
    (gets : ∀ get ∈ γ'.gets, get ∈ γ.gets) : Serving c dbs γ' := by
  refine ⟨logged, pools ▸ serving.pool, ?_, ?_, fun get inside put done => ?_, fun get inside some => ?_⟩
  · rw [pools]
    exact serving.committed.trans extended.1
  · rw [pools]
    exact serving.handed.trans extended.2
  · exact (serving.before get (gets get inside) put done).grown extended
  · exact (serving.reads get (gets get inside) some).grown extended

theorem Serving.stepGroup (serving : Serving c dbs γ) {l : PutLabel} (allowed : γ.group.steady l)
    (step : γ.stepGroup l = some γ') : Serving c dbs γ' := by
  have mapped : (γ.group.step l).map (fun group => { γ.restarted l with group := group }) = some γ' := by
    unfold StripeStore.stepGroup at step
    split at step
    · cases step
    · exact step
  obtain ⟨group, steps, rfl⟩ := Option.map_eq_some_iff.mp mapped
  obtain ⟨logged, extended⟩ := serving.logged.step allowed steps
  refine serving.extended logged extended ?_ ?_
  · cases l with
    | restart server junk =>
      have other : server ≠ γ.groupId := allowed
      rw [serving.groupId_eq] at other
      exact if_neg (Ne.symm other)
    | raft | answer | startPut | proposePut | pollPut => rfl
  · cases l with
    | restart server junk => exact fun get inside => List.mem_of_mem_filter inside
    | raft | answer | startPut | proposePut | pollPut => exact fun get inside => inside

theorem Serving.setPool (serving : Serving c dbs γ) {pool : ApplyPool}
    (allowed : server = γ.groupId → (γ.pools server).oneBatch l) (step : (γ.pools server).step l = some pool)
    (log : server = c.groupId → pool.committed <+: γ.group.cluster.preferred.lm.entries ∧
      pool.committed.length ≤ γ.group.cluster.preferred.commitIndex) : Serving c dbs (γ.setPool server pool) := by
  rw [serving.groupId_eq] at allowed
  by_cases same : server = c.groupId
  · subst same
    have here : (γ.setPool c.groupId pool).pools c.groupId = pool := if_pos rfl
    obtain ⟨committed, handed⟩ := log rfl
    refine ⟨serving.logged, ?_, ?_, ?_, serving.before, serving.reads⟩
    · rw [here]
      exact serving.pool.next (allowed rfl) step
    · rw [here]
      exact committed
    · rw [here]
      exact handed
  · refine serving.extended serving.logged (.refl _) ?_ fun _ inside => inside
    exact if_neg (Ne.symm same)

theorem Serving.handOver (serving : Serving c dbs γ) (step : γ.handOver server = some γ') : Serving c dbs γ' := by
  obtain ⟨e, found, steps⟩ := Option.bind_eq_some_iff.mp step
  obtain ⟨pool, applies, rfl⟩ := Option.map_eq_some_iff.mp steps
  have allowed : (γ.pools server).oneBatch (.applyEntry e) := trivial
  refine serving.setPool (fun _ => allowed) applies fun same => ?_
  have grown : pool.committed = (γ.pools server).committed ++ [e] := by
    cases ApplyPool.step_action (l := .applyEntry e) applies <;> rfl
  -- The next entry of the bridge is the next entry of the log.
  have own : server = γ.group.cluster.config.groupId := same.trans serving.groupId_eq.symm
  have bridge : (γ.group.cluster.servers server).bridge =
      γ.group.cluster.preferred.lm.entries.take γ.group.cluster.preferred.lastApplied := by
    rw [own]
    exact serving.logged.hands.bridge
  obtain ⟨rest, log⟩ := serving.committed
  have applied := serving.logged.hands.applied
  rw [bridge, List.getElem?_take] at found
  split at found
  · rename_i below
    rw [same] at found below grown
    rw [← log, List.getElem?_append_right le_rfl, Nat.sub_self] at found
    cases rest with
    | nil => simp at found
    | cons e' rest =>
      cases found
      rw [grown, ← log]
      refine ⟨⟨rest, by simp⟩, ?_⟩
      rw [List.length_append, List.length_singleton]
      omega
  · cases found

theorem Serving.apply (serving : Serving c dbs γ)
    (allowed : server = γ.groupId → (γ.pools server).oneBatch l) (step : γ.apply server l = some γ') :
    Serving c dbs γ' := by
  unfold StripeStore.apply at step
  split at step
  · cases step
  · rename_i other
    obtain ⟨pool, steps, rfl⟩ := Option.map_eq_some_iff.mp step
    have kept : pool.committed = (γ.pools server).committed := by
      cases ApplyPool.step_action steps with
      | drops | pushes => exact (other _ rfl).elim
      | _ => rfl
    refine serving.setPool allowed steps fun same => ?_
    rw [kept, same]
    exact ⟨serving.committed, serving.handed⟩

theorem index_of_isOk {term : Nat} (phase : put.phase = .returned .kOk index term) : put.index = index := by
  rw [PutCall.index, phase]

theorem completed_of_isOk {group : PutGroup} (logged : Logged c group) (called : put ∈ group.puts)
    (ok : put.isOk = true) : Completed c group.cluster put.cmd.userKey put := by
  unfold PutCall.isOk at ok
  split at ok
  · rename_i index term phase
    obtain ⟨has, committed⟩ := logged.done put called index term phase
    rw [← index_of_isOk phase] at has committed
    exact ⟨logged.fits put called, rfl, ⟨term, has⟩, committed⟩
  · cases ok

theorem Serving.startGet (serving : Serving c dbs γ) (step : γ.startGet server key = some γ') : Serving c dbs γ' := by
  unfold StripeStore.startGet at step
  split at step <;> cases step
  refine ⟨serving.logged, serving.pool, serving.committed, serving.handed, fun get inside => ?_, fun get inside => ?_⟩
  · rcases List.mem_append.mp inside with old | new
    · exact serving.before get old
    · rw [List.mem_singleton.mp new]
      intro put done
      obtain ⟨called, ok⟩ := List.mem_filter.mp done
      simp only [Bool.and_eq_true, decide_eq_true_eq] at ok
      exact ok.2 ▸ completed_of_isOk serving.logged called ok.1
  · rcases List.mem_append.mp inside with old | new
    · exact serving.reads get old
    · rw [List.mem_singleton.mp new]
      intro _
      by_cases leads : (γ.group.cluster.servers server).role = .kLeader
      · have own := serving.logged.inv.leader_eq leads
        simp only [leads]
        exact own.trans serving.groupId_eq
      · simp only [Reads, leads, if_false]

theorem Serving.stepGet (serving : Serving c dbs γ) {next : GetCall → Option GetCall}
    (same : ∀ get get', next get = some get' → get'.before = get.before ∧ get'.key = get.key)
    (reads : ∀ get get', γ.gets[n]? = some get → next get = some get' → get.before ≠ [] →
      Reads c γ.group.cluster get → Reads c γ.group.cluster get') (step : γ.stepGet n next = some γ') :
    Serving c dbs γ' := by
  obtain ⟨get, found, steps⟩ := Option.bind_eq_some_iff.mp step
  have called := List.mem_of_getElem? found
  split at steps
  · obtain ⟨get', goes, rfl⟩ := Option.map_eq_some_iff.mp steps
    obtain ⟨before, key⟩ := same get get' goes
    refine ⟨serving.logged, serving.pool, serving.committed, serving.handed, fun other inside => ?_,
      fun other inside => ?_⟩
    · rcases List.mem_or_eq_of_mem_set inside with old | rfl
      · exact serving.before other old
      · rw [before, key]
        exact serving.before get called
    · rcases List.mem_or_eq_of_mem_set inside with old | rfl
      · exact serving.reads other old
      · intro some
        rw [before] at some
        exact reads get other found goes some (serving.reads get called some)
  · cases steps

theorem Collected.decode (collected : Collected c value unreachable todo fragBytes) (size : value.length < 2 ^ 31)
    (full : c.layout.params.k ≤ fragBytes.length) (isal : Isal) :
    ∃ out, Encoder.decodeSlice isal fragBytes c.layout.params.k 0 = .decoded out ∧
      out.take (min (Encoder.decodedSize c.layout.params.k out.length) value.length) = value := by
  have whole := collected.ascending.eq_map_range collected.values full
  have several : c.layout.params.k ≠ 1 := by
    obtain ⟨nodes, _, _, k, _⟩ := LrcParams.fromCapacity_eq_some c.layout.derived
    omega
  have nodes := c.size_le
  have padding := Encoder.fragments_lt value c.k_pos
  obtain ⟨_, _, _, k, _⟩ := LrcParams.fromCapacity_eq_some c.layout.derived
  have small : Encoder.fragmentSize value c.layout.params.k * c.layout.params.k < UInt32.size := by
    unfold UInt32.size
    omega
  refine ⟨_, ?_, Encoder.take_decodedSize c.k_pos small⟩
  rw [Encoder.decodeSlice, if_neg several, whole]
  exact Encoder.decodeSliceHelper_data isal c.k_pos _

theorem Serving.finishGet (serving : Serving c dbs γ) (step : γ.stepGet n γ.finishGet = some γ') :
    Serving c dbs γ' := by
  refine serving.stepGet (fun get get' goes => ?_) (fun get get' _ goes _ reads => ?_) step
  · unfold StripeStore.finishGet at goes
    split at goes
    · split at goes
      · cases goes
        exact ⟨rfl, rfl⟩
      · split at goes <;> cases goes
        · exact ⟨rfl, rfl⟩
        · exact ⟨rfl, rfl⟩
    · cases goes
  · unfold StripeStore.finishGet at goes
    split at goes
    · rename_i stripe fragBytes phase
      rw [Reads, phase] at reads
      obtain ⟨_, cmd, index, source, rfl, collected⟩ := reads
      split at goes
      · -- Too few fragments have come in, so some peer was not reached.
        rename_i short
        cases goes
        change get.unreachable = true
        by_contra reached
        have all := collected.rest (by simpa using reached)
        have full := OrdMap.le_length_of_keys fun i bound =>
          (all i bound).elim id fun ⟨_, inside, _⟩ => absurd inside List.not_mem_nil
        exact absurd full (Nat.not_le.mpr short)
      · rename_i full
        obtain ⟨out, decoded, value⟩ := collected.decode source.fits.valueSize (Nat.not_lt.mp full) γ.group.cluster.config.isal
        have result : decodeStripe γ.group.cluster.config.isal (c.stripeMeta cmd index) fragBytes = .decoded out :=
          (if_pos rfl).trans decoded
        rw [result] at goes
        cases goes
        exact ⟨cmd, index, ⟨source.fits, source.key, source.entry, source.committed, source.latest⟩,
          congrArg formatFullEntryValueForStorage value⟩
    · cases goes

/-- A fragment that was asked for has come in, or its peer was not reached. -/
theorem Collected.fetched {lost : Bool} {result : Option Slice}
    (collected : Collected c value unreachable todo fragBytes) (at_i : todo[i]? = some fp)
    (found : ∀ bytes, result = some bytes → bytes = Encoder.dataFragment value c.layout.params.k fp.fragId)
    (missing : result = none → lost = true) :
    Collected c value (unreachable || lost) (todo.eraseIdx i) (addFragment fragBytes fp.fragId result) := by
  have inside := List.mem_of_getElem? at_i
  have others : ∀ other ∈ todo, other.fragId ≠ fp.fragId → other ∈ todo.eraseIdx i := by
    intro other member apart
    obtain ⟨j, at_j⟩ := List.mem_iff_getElem?.mp member
    have moved : j ≠ i := by
      rintro rfl
      rw [at_i] at at_j
      cases at_j
      exact apart rfl
    exact List.mem_eraseIdx_iff_getElem?.mpr ⟨j, moved, at_j⟩
  have asked : ∀ other ∈ todo.eraseIdx i, other.fragId < c.layout.params.k :=
    fun other member => collected.asked other (List.mem_of_mem_eraseIdx member)
  cases result with
  | none =>
    refine ⟨collected.ascending, collected.values, asked, fun reached => ?_⟩
    rw [missing rfl, Bool.or_true] at reached
    cases reached
  | some bytes =>
    refine ⟨collected.ascending.insertOrAssign _ _, fun p member => ?_, asked, fun reached j bound => ?_⟩
    · rcases OrdMap.mem_insertOrAssign member with rfl | old
      · exact ⟨collected.asked fp inside, found bytes rfl⟩
      · exact collected.values p old
    · rw [Bool.or_eq_false_iff] at reached
      by_cases same : j = fp.fragId
      · exact Or.inl ⟨bytes, same ▸ OrdMap.mem_insertOrAssign_self _ _ _⟩
      · rcases collected.rest reached.1 j bound with ⟨old, there⟩ | ⟨other, member, rfl⟩
        · exact Or.inl ⟨old, OrdMap.mem_insertOrAssign_of_ne there same⟩
        · exact Or.inr ⟨other, others other member same, rfl⟩

theorem Source.loggedFragment (logged : Logged c γ.group) (source : Source c γ.group.cluster get cmd index)
    {fragId : Nat} (bound : fragId < c.layout.params.k) : γ.loggedFragment index fragId =
      some (Encoder.dataFragment cmd.userValue c.layout.params.k fragId) := by
  obtain ⟨term, j, rfl, at_j⟩ := source.entry
  rw [StripeStore.loggedFragment, logged.inv.preferred.indexed.getSingleLogEntry_succ, at_j]
  exact c.fragments_getElem? bound

theorem fetchFrag_eq {stripeId : Nat} (own : fp.nodeId = get.server → γ.holdsLogged fp.nodeId stripeId fp.fragId)
    (peer : fp.nodeId ≠ get.server → reached = true → γ.holdsLogged fp.nodeId stripeId fp.fragId ∧
      ¬γ.shadowsFragment fp.nodeId stripeId fp.fragId) :
    γ.fetchFrag get.server stripeId fp reached nested =
      if decide (fp.nodeId ≠ get.server) && !reached then none else γ.loggedFragment stripeId fp.fragId := by
  unfold fetchFrag
  by_cases here : fp.nodeId = get.server
  · have held := own here
    rw [if_pos here, ← here, held]
    simp
  · rw [if_neg here]
    cases reached with
    | false => simp [here]
    | true =>
      obtain ⟨held, plain⟩ := peer here rfl
      unfold shadowsFragment at plain
      rw [not_not] at plain
      have value : γ.getValue fp.nodeId (fragDbKey γ.groupId stripeId fp.fragId) nested =
          γ.loggedFragment stripeId fp.fragId := by
        unfold getValue
        rw [plain]
        exact held
      rw [if_pos rfl, value]
      simp

theorem Serving.fetch (serving : Serving c dbs γ)
    (allowed : ∀ get ∈ γ.gets[n]?, get.before ≠ [] → γ.holdsFragment i reached get)
    (step : γ.stepGet n (γ.fetch i reached nested) = some γ') : Serving c dbs γ' := by
  refine serving.stepGet (fun get get' goes => ?_) (fun get get' called goes done reads => ?_) step
  · unfold StripeStore.fetch at goes
    split at goes
    · obtain ⟨fp, _, rfl⟩ := Option.map_eq_some_iff.mp goes
      exact ⟨rfl, rfl⟩
    · cases goes
  · unfold StripeStore.fetch at goes
    split at goes
    · rename_i stripe todo fragBytes phase
      obtain ⟨fp, at_i, rfl⟩ := Option.map_eq_some_iff.mp goes
      rw [Reads, phase] at reads
      obtain ⟨server, cmd, index, source, rfl, collected⟩ := reads
      have holds := allowed get called done
      rw [holdsFragment, phase] at holds
      obtain ⟨own, peer⟩ := holds fp at_i
      have logged := source.loggedFragment serving.logged (collected.asked fp (List.mem_of_getElem? at_i))
      have result : γ.fetchFrag get.server index fp reached nested =
          if decide (fp.nodeId ≠ get.server) && !reached then none else
            some (Encoder.dataFragment cmd.userValue c.layout.params.k fp.fragId) := by
        rw [← logged]
        exact fetchFrag_eq own peer
      refine ⟨server, cmd, index, ⟨source.fits, source.key, source.entry, source.committed, source.latest⟩, rfl,
        collected.fetched at_i (fun bytes brings => ?_) fun brings => ?_⟩
      · rw [show (c.stripeMeta cmd index).stripeId = index from rfl, result] at brings
        split at brings <;> cases brings
        rfl
      · rw [show (c.stripeMeta cmd index).stripeId = index from rfl, result] at brings
        split at brings
        · assumption
        · cases brings
    · cases goes

theorem Serving.member (serving : Serving c dbs γ) {j : Nat} {e : LogEntry}
    (at_j : γ.group.cluster.preferred.lm.entries[j]? = some e) : c.groupId < c.layout.n := by
  have member := serving.logged.inv.member (serving.logged.inv.entry at_j).1
  rwa [serving.logged.config] at member

theorem Serving.written (serving : Serving c dbs γ) (inside : m ∈ (γ.pools c.groupId).written) :
    ∃ cmd term j, cmd.Fits ∧ γ.group.cluster.preferred.lm.entries[j]? = some (c.stripeEntry cmd term (j + 1)) ∧
      j + 1 ≤ γ.group.cluster.preferred.commitIndex ∧ m = c.stripeMessage cmd term (j + 1) := by
  obtain ⟨e, committed, message⟩ := List.mem_filterMap.mp ((ApplyPool.written_sublist serving.pool).subset inside)
  obtain ⟨j, at_j⟩ := List.mem_iff_getElem?.mp committed
  have bound := (List.getElem?_eq_some_iff.mp at_j).1
  have logged := getElem?_of_begins serving.committed at_j
  obtain ⟨cmd, term, fits, rfl⟩ := serving.logged.entries j e logged
  refine ⟨cmd, term, j, fits, logged, bound.trans_le serving.handed, ?_⟩
  have made : applyMessage c.groupId (c.stripeEntry cmd term (j + 1)) = some (c.stripeMessage cmd term (j + 1)) :=
    c.applyMessage_eq fits (serving.member logged)
  exact (Option.some.inj (made.symm.trans message)).symm

theorem userKey_of_stripeEntry {term : Nat} (fits : cmd.Fits) (fits' : cmd'.Fits)
    (member : c.groupId < c.layout.n) (same : c.stripeEntry cmd term index = c.stripeEntry cmd' term' index) :
    cmd.userKey = cmd'.userKey := by
  have key : extractApplyMeta (c.stripeEntry cmd term index) = some (cmd.userKey, cmd.userValue.length) :=
    c.extractApplyMeta_eq fits member
  rw [same, c.extractApplyMeta_eq fits' member] at key
  exact (congrArg Prod.fst (Option.some.inj key)).symm

theorem userValue_of_stripeEntry {term : Nat} (fits : cmd.Fits) (fits' : cmd'.Fits)
    (member : c.groupId < c.layout.n) (same : c.stripeEntry cmd term index = c.stripeEntry cmd' term' index) :
    cmd.userValue = cmd'.userValue := by
  have serialized : cmd.serialize = cmd'.serialize := congrArg LogEntry.commandDataField same
  calc
    cmd.userValue = cmd.serialize.drop (29 + cmd.userKey.length) := cmd.drop_serialize.symm
    _ = cmd'.serialize.drop (29 + cmd'.userKey.length) := by
      rw [serialized, userKey_of_stripeEntry fits fits' member same]
    _ = cmd'.userValue := cmd'.drop_serialize

/-- A put that was done and whose metadata has been written carries the key. -/
theorem Serving.carries (serving : Serving c dbs γ) (called : get ∈ γ.gets) (before : put ∈ get.before)
    (written : m ∈ (γ.pools c.groupId).written) (same : m.entryId = put.index) :
    (ApplyFsm.payload? m).map LrcPayload.userKey = some get.key := by
  obtain ⟨cmd, term, j, fits, at_j, _, rfl⟩ := serving.written written
  have member := serving.member at_j
  have completed := serving.before get called put before
  obtain ⟨term', _, j', place, at_j'⟩ := completed.entry
  have there : j' = j := by
    have index : j + 1 = put.index := same
    omega
  subst there
  have entry : c.stripeEntry cmd term (j' + 1) = c.stripeEntry put.cmd term' (j' + 1) :=
    Option.some.inj (at_j.symm.trans at_j')
  rw [c.payload_stripeMessage fits member, Option.map_some, StripeConfig.userKey_toPayload fits,
    userKey_of_stripeEntry fits completed.fits member entry, completed.key]

/-- The metadata of the key is that of the last put of it, which is not older than those that were done. -/
theorem Serving.latest (serving : Serving c dbs γ) (called : get ∈ γ.gets) (server : get.server = c.groupId)
    (done : get.before ≠ []) (written : γ.metaWritten get) : ∃ cmd index, Source c γ.group.cluster get cmd index ∧
      index < UInt32.size ∧
      (γ.pools c.groupId).db (stripeMetaDbKey c.groupId get.key) = some (c.stripeMeta cmd index).serialize := by
  let puts := (γ.pools c.groupId).written.toFinset.filter fun m =>
    (ApplyFsm.payload? m).map LrcPayload.userKey = some get.key
  have applied : ∀ put ∈ get.before, ∃ m ∈ puts, m.entryId = put.index := by
    intro put inside
    obtain ⟨m, there, same⟩ := written put inside
    rw [server] at there
    exact ⟨m, Finset.mem_filter.mpr ⟨List.mem_toFinset.mpr there, serving.carries called inside there same⟩, same⟩
  obtain ⟨first, isFirst⟩ := List.exists_mem_of_ne_nil _ done
  obtain ⟨m₀, inPuts, _⟩ := applied first isFirst
  obtain ⟨m, isPut, newest⟩ := puts.exists_max_image MsgApplyCommitted.entryId ⟨m₀, inPuts⟩
  obtain ⟨there, key⟩ := Finset.mem_filter.mp isPut
  have there := List.mem_toFinset.mp there
  obtain ⟨cmd, term, j, fits, at_j, committed, rfl⟩ := serving.written there
  have payload : ApplyFsm.payload? (c.stripeMessage cmd term (j + 1)) =
      some ((c.stripeEntry cmd term (j + 1)).toPayload cmd.userKey cmd.userValue.length) :=
    c.payload_stripeMessage fits (serving.member at_j)
  have sameKey : cmd.userKey = get.key := by
    rw [payload, Option.map_some, StripeConfig.userKey_toPayload fits] at key
    exact Option.some.inj key
  have short := serving.logged.short
  have bound := (List.getElem?_eq_some_iff.mp at_j).1
  refine ⟨cmd, j + 1, ⟨fits, sameKey, ⟨term, j, rfl, at_j⟩, committed, fun put inside => ?_⟩, by omega, ?_⟩
  · obtain ⟨m', isPut', same⟩ := applied put inside
    exact same ▸ newest m' isPut'
  · have content := ApplyPool.meta_of_reach serving.pool there payload fun m' inside p' carries same => by
      refine newest m' (Finset.mem_filter.mpr ⟨List.mem_toFinset.mpr inside, ?_⟩)
      rw [carries, Option.map_some, same, StripeConfig.userKey_toPayload fits, sameKey]
    have stripe : (c.applyConfig c.groupId).fsm.stripeMeta (c.stripeMessage cmd term (j + 1))
        ((c.stripeEntry cmd term (j + 1)).toPayload cmd.userKey cmd.userValue.length) = c.stripeMeta cmd (j + 1) :=
      c.stripeMeta_eq fits rfl rfl
    rw [stripe, StripeConfig.userKey_toPayload fits, sameKey] at content
    exact content

theorem collected_start (value : Slice) (unreachable : Bool) :
    Collected c value unreachable ((c.stripeMeta cmd index).placement.takeWhile fun fp => fp.kind = 0) [] := by
  have ids : ((c.stripeMeta cmd index).placement.takeWhile fun fp => fp.kind = 0).map StripePlacement.fragId =
      List.range c.layout.params.k := c.takeWhile_stripeMeta
  refine ⟨List.Pairwise.nil, nofun, fun fp inside => ?_, fun _ i bound => Or.inr ?_⟩
  · exact List.mem_range.mp (ids ▸ List.mem_map_of_mem inside)
  · have asked : i ∈ List.range c.layout.params.k := List.mem_range.mpr bound
    rw [← ids] at asked
    exact List.mem_map.mp asked

theorem Serving.readMeta (serving : Serving c dbs γ) (allowed : ∀ get ∈ γ.gets[n]?, γ.metaWritten get)
    (step : γ.stepGet n γ.readMeta = some γ') : Serving c dbs γ' := by
  refine serving.stepGet (fun get get' goes => ?_) (fun get get' found goes done reads => ?_) step
  · unfold StripeStore.readMeta at goes
    split at goes
    · split at goes
      · cases goes
        exact ⟨rfl, rfl⟩
      · dsimp only at goes
        split at goes <;> cases goes
        · exact ⟨rfl, rfl⟩
        · exact ⟨rfl, rfl⟩
    · cases goes
  · unfold StripeStore.readMeta at goes
    split at goes
    · rename_i phase
      have server : get.server = c.groupId := by
        rw [Reads, phase] at reads
        exact reads
      obtain ⟨cmd, index, source, short, content⟩ :=
        serving.latest (List.mem_of_getElem? found) server done (allowed get found)
      have bound : index < 2 ^ 64 := short.trans (by decide)
      have count : ((c.stripeMeta cmd index).placement.takeWhile fun fp => fp.kind = 0).length =
          (c.stripeMeta cmd index).k := by
        rw [← List.length_map StripePlacement.fragId, c.takeWhile_stripeMeta, List.length_range]
        rfl
      rw [serving.groupId_eq, server, content, Option.bind_some, c.deserialize_stripeMeta source.fits bound] at goes
      dsimp only at goes
      rw [if_neg (not_not.mpr count)] at goes
      cases goes
      exact ⟨rfl, cmd, index, ⟨source.fits, source.key, source.entry, source.committed, source.latest⟩, rfl,
        collected_start _ _⟩
    · cases goes

theorem Serving.step (serving : Serving c dbs γ) {l : StoreLabel} (allowed : γ.careful l)
    (step : γ.step l = some γ') : Serving c dbs γ' := by
  cases l with
  | group l => exact serving.stepGroup allowed step
  | handOver server => exact serving.handOver step
  | apply server l => exact serving.apply allowed step
  | startGet server key => exact serving.startGet step
  | readMeta n => exact serving.readMeta allowed step
  | fetch n i reached nested => exact serving.fetch allowed step
  | finishGet n => exact serving.finishGet step

theorem serving_init (c : StripeConfig) (dbs : Nat → Database) (junk : Nat → Uninitialised) :
    Serving c dbs (init c dbs junk) :=
  ⟨logged_init c junk, .refl, List.nil_prefix, Nat.zero_le _, nofun, nofun⟩

/-- Runs of the store. -/
abbrev Reach (ok : StripeStore → StoreLabel → Prop) : StripeStore → StripeStore → Prop := Steps.Reach StripeStore.step ok

abbrev exec (ok : StripeStore → StoreLabel → Prop) [∀ γ l, Decidable (ok γ l)] :
    StripeStore → List StoreLabel → Option StripeStore :=
  Steps.exec StripeStore.step ok

/-- The log of the leader has a put of the key and the value, and it is committed. -/
def CommittedPut (γ : StripeStore) (key value : Slice) (index : Nat) : Prop :=
  index ≤ γ.group.cluster.preferred.commitIndex ∧ ∃ e, ∃ cmd : StripeWriteCommand,
    γ.group.cluster.preferred.lm.getSingleLogEntry index = some e ∧ e.commandData = cmd.serialize ∧
    cmd.userKey = key ∧ cmd.userValue = value

/-- A get that answers returns the value of a put that had been done before it started, or of a later one. It finds the
key unless a peer was not reached. -/
theorem get_reads_completed_put {junk : Nat → Uninitialised} (reach : Reach careful (init c dbs junk) γ)
    (called : get ∈ γ.gets) (before : put ∈ get.before) :
    (∀ response, get.phase = .returned .kOk response → ∃ value, response = formatFullEntryValueForStorage value ∧
      (value = put.cmd.userValue ∨ ∃ later, put.index < later ∧ γ.CommittedPut get.key value later)) ∧
    ∀ response, get.phase = .returned .kKeyNotExist response → get.unreachable = true := by
  have serving : Serving c dbs γ := reach.holds (serving_init c dbs junk) fun _ _ _ inv allowed step => inv.step allowed step
  have reads := serving.reads get called (List.ne_nil_of_mem before)
  refine ⟨fun response phase => ?_, fun response phase => ?_⟩
  · rw [Reads, phase] at reads
    obtain ⟨cmd, index, source, value⟩ := reads
    refine ⟨cmd.userValue, value, ?_⟩
    obtain ⟨term, j, rfl, at_j⟩ := source.entry
    rcases Nat.lt_or_eq_of_le (source.latest put before) with later | same
    · refine Or.inr ⟨j + 1, later, source.committed, c.stripeEntry cmd term (j + 1), cmd, ?_, rfl, source.key, rfl⟩
      exact (serving.logged.inv.preferred.indexed.getSingleLogEntry_succ j).trans at_j
    · have completed := serving.before get called put before
      obtain ⟨term', _, j', place, at_j'⟩ := completed.entry
      have there : j' = j := by omega
      subst there
      have entry : c.stripeEntry cmd term (j' + 1) = c.stripeEntry put.cmd term' (j' + 1) :=
        Option.some.inj (at_j.symm.trans at_j')
      exact Or.inl (userValue_of_stripeEntry source.fits completed.fits (serving.member at_j) entry)
  · rw [Reads, phase] at reads
    exact reads

end Serving

/-- Seven nodes, so that a stripe has four data fragments. -/
def sevenNodes : LrcLayout :=
  { n := 7
    params := { k := 4, l := 2, r := 8 }
    derived := by decide
    groups := [[0, 2, 4, 6], [1, 3, 5]]
    count := rfl
    covers := by decide
    balanced := by decide }

/-- A group on these nodes with one apply thread each; server 0 is preferred. -/
def sevenStores : StripeConfig :=
  { layout := sevenNodes
    isal := xorIsal
    sized := xorIsal_sized
    grouper := (sevenNodes.grouper xorIsal).get (by decide +kernel)
    built := (Option.some_get _).symm
    kMax := by decide
    rMax := by decide
    groupId := 0
    groupId_lt := by decide
    dynamicK := 4
    applyThreads := 1
    maxBatch := 8
    applyStripePacked := fun _ => []
    applyStripeCommand := fun _ _ => [] }

def deliverNext (count : Nat) : List StoreLabel := List.replicate count (.group (.raft (.deliver 0 1)))

/-- Server 0 is elected, and a put of the key `a` returns when all servers have stored their fragments. -/
def putReturned : List StoreLabel :=
  [.group (.raft (.tick 0 { electionExpired := true }))] ++ deliverNext 12 ++
    [.group (.startPut 0 (ascii "a") [1, 2, 3, 4]), .group (.proposePut 0), .group (.raft (.replicate 0))] ++
    deliverNext 24 ++ [.group (.pollPut 0)]

/-- A node applies the committed entry. -/
def applyAt (server : Nat) : List StoreLabel :=
  [.group (.raft (.tick server {})), .handOver server, .apply server (.drain 0), .apply server (.handle 0)]

/-- The followers hear that the entry is committed, and the nodes with the data fragments apply it. Then the key is
read. -/
def readApplied : List StoreLabel :=
  putReturned ++ [.group (.raft (.tick 0 { heartbeatDue := true }))] ++ deliverNext 6 ++
    (List.range 4).flatMap applyAt ++ [.startGet 0 (ascii "a"), .readMeta 0, .fetch 0 0 true none,
      .fetch 0 1 true none, .fetch 0 0 true none, .fetch 0 0 true none, .finishGet 0]

def returnedPut : PutCall :=
  { server := 0
    cmd := { groupId := 0, userKey := ascii "a", userValue := [1, 2, 3, 4], encodingMode := 2 }
    phase := .returned .kOk 1 1 }

/-- A get on server 0 that started when the put had returned. -/
def returnedGet (err : ErrorType) (value : Slice) : GetCall :=
  { server := 0, key := ascii "a", before := [returnedPut], unreachable := false, phase := .returned err value }

theorem get_reads_completed_put_applied : ∃ γ, Reach careful (init sevenStores (fun _ _ => none) .zero) γ ∧
    returnedGet .kOk (formatFullEntryValueForStorage [1, 2, 3, 4]) ∈ γ.gets ∧
    ∃ value, formatFullEntryValueForStorage [1, 2, 3, 4] = formatFullEntryValueForStorage value ∧
      (value = [1, 2, 3, 4] ∨ ∃ later, 1 < later ∧ γ.CommittedPut (ascii "a") value later) := by
  have before : returnedPut ∈ (returnedGet .kOk (formatFullEntryValueForStorage [1, 2, 3, 4])).before :=
    List.mem_cons_self
  have called : returnedGet .kOk (formatFullEntryValueForStorage [1, 2, 3, 4]) ∈
      ((exec careful (init sevenStores (fun _ _ => none) .zero) readApplied).get (by decide +kernel)).gets := by
    decide +kernel
  exact ⟨_, .of_get _, called, (get_reads_completed_put (.of_get _) called before).1 _ rfl⟩

/-- The key is read as soon as the put has returned. -/
def readAtOnce : List StoreLabel := putReturned ++ [.startGet 0 (ascii "a"), .readMeta 0]

/-- No thread has applied the entry yet, so the get finds nothing. It has asked no peer. -/
theorem get_before_apply_finds_nothing : ∃ γ,
    Reach (fun _ _ => True) (init sevenStores (fun _ _ => none) .zero) γ ∧ returnedPut ∈ γ.group.puts ∧
    γ.gets = [returnedGet .kKeyNotExist []] :=
  ⟨(exec (fun _ _ => True) (init sevenStores (fun _ _ => none) .zero) readAtOnce).get (by decide +kernel), .of_get _,
    by decide +kernel, by decide +kernel⟩

end StripeStore

end FlexRaft
