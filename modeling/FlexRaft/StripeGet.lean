import FlexRaft.ReadAfterWrite
import FlexRaft.LrcPaths

namespace FlexRaft

/-- The nodes of a group while a key is read: what their databases hold, and which of them cannot be reached. -/
structure StripeNodes where
  groupId : Nat
  isal : Isal
  dbs : Nat → Database
  down : Nat → Bool

/-- `TryStripeGet` does not come back, returns false, or returns a value. -/
inductive GetResult
  | noReturn
  | failed
  | found (value : Slice)
  deriving DecidableEq, Repr

namespace StripeNodes

open StripeStore

/-- `GetValue` on a node after its own stripe read of the key. The outer option is for a call that does not
come back. -/
def getValue (nodes : StripeNodes) (node : Nat) (key : Slice) : GetResult → Option (Option Slice)
  | .noReturn => none
  | .failed => some (nodes.dbs node key)
  | .found value => some (some value)

/-- What one of the fetching threads brings. `tryGet` is the stripe read on a peer. -/
def fetchFrag (nodes : StripeNodes) (tryGet : Nat → Slice → GetResult) (myId stripeId : Nat) (fp : StripePlacement) :
    Option (Option Slice) :=
  let key := fragDbKey nodes.groupId stripeId fp.fragId
  if fp.nodeId = myId then some (nodes.dbs myId key)
  else if nodes.down fp.nodeId then some none
  else nodes.getValue fp.nodeId key (tryGet fp.nodeId key)

/-- The threads have a fragment each, so that it does not matter in which order they come back. -/
def collect (nodes : StripeNodes) (tryGet : Nat → Slice → GetResult) (myId stripeId : Nat) :
    List StripePlacement → OrdMap Slice → Option (OrdMap Slice)
  | [], fragBytes => some fragBytes
  | fp :: rest, fragBytes =>
    (nodes.fetchFrag tryGet myId stripeId fp).bind fun result =>
      nodes.collect tryGet myId stripeId rest (addFragment fragBytes fp.fragId result)

/-- `TryStripeGet` on node `myId`. A peer makes a stripe read of the fragment's key first, which may ask other peers in
turn; `depth` bounds how far this goes. Nothing is returned where an assertion of the decoder fails. -/
def tryStripeGet (nodes : StripeNodes) : (depth : Nat) → (myId : Nat) → (key : Slice) → GetResult
  | 0, _, _ => .noReturn
  | depth + 1, myId, key =>
    match (nodes.dbs myId (stripeMetaDbKey nodes.groupId key)).bind StripeLogMeta.deserialize with
    | none => .failed
    | some stripe =>
      let dataPlacement := stripe.placement.takeWhile fun fp => fp.kind = 0
      if dataPlacement.length ≠ stripe.k then .failed
      else match nodes.collect (nodes.tryStripeGet depth) myId stripe.stripeId dataPlacement [] with
        | none => .noReturn
        | some fragBytes =>
          if fragBytes.length < stripe.k then .failed
          else match decodeStripe nodes.isal stripe fragBytes with
            | .stop => .noReturn
            | .failed => .failed
            | .decoded out => .found (decodedValue stripe out)

theorem tryStripeGet_of_no_meta {nodes : StripeNodes} {node : Nat} {key : Slice}
    (missing : nodes.dbs node (stripeMetaDbKey nodes.groupId key) = none) (depth : Nat) :
    nodes.tryStripeGet (depth + 1) node key = .failed := by
  rw [tryStripeGet, missing]
  rfl

end StripeNodes

/-- A put that all nodes of the group have applied: each has the metadata, and its own fragments. -/
structure StoredOn (c : StripeConfig) (cmd : StripeWriteCommand) (index : Nat) (dbs : Nat → Database) : Prop where
  fits : cmd.Fits
  index_lt : index < 2 ^ 64
  metadata : ∀ node < c.layout.n,
    dbs node (stripeMetaDbKey c.groupId cmd.userKey) = some (c.stripeMeta cmd index).serialize
  fragments : ∀ node < c.layout.n, ∀ fragId ∈ c.grouper.fragmentsForNode node,
    dbs node (fragDbKey c.groupId index fragId) =
      (LrcEncoder.encodeStripe c.isal c.layout.params cmd.userValue)[fragId]?

/-- None of the nodes that `reader` may ask has metadata under the key of a data fragment that it holds. -/
def Unshadowed (c : StripeConfig) (index reader : Nat) (dbs : Nat → Database) : Prop :=
  ∀ node < c.layout.n, node ≠ reader → ∀ fragId ∈ c.grouper.fragmentsForNode node, fragId < c.layout.params.k →
    dbs node (stripeMetaDbKey c.groupId (fragDbKey c.groupId index fragId)) = none

namespace StripeConfig

variable (c : StripeConfig) {cmd : StripeWriteCommand} {fp : StripePlacement}

theorem mem_fragmentsForNode {node fragId : Nat} :
    fragId ∈ c.grouper.fragmentsForNode node ↔ c.layout.holders[fragId]? = some node := by
  rw [c.layout.grouper_eq c.built]
  dsimp only
  split
  · rename_i outside
    refine ⟨nofun, fun held => absurd (c.layout.mem_holders (List.mem_of_getElem? held)) (Nat.not_lt.mpr outside)⟩
  · exact Assignments.mem_fragsOf_zipIdx

theorem mem_takeWhile_stripeMeta {index : Nat}
    (member : fp ∈ (c.stripeMeta cmd index).placement.takeWhile fun fp => fp.kind = 0) :
    fp.fragId < c.layout.params.k ∧ fp.nodeId < c.layout.n ∧ fp.fragId ∈ c.grouper.fragmentsForNode fp.nodeId := by
  have ids := List.mem_map_of_mem (f := StripePlacement.fragId) member
  rw [c.takeWhile_stripeMeta] at ids
  obtain ⟨placed, inside, rfl⟩ := List.mem_map.mp (List.takeWhile_subset _ member)
  rw [c.layout.grouper_eq c.built] at inside
  have pair : (placed.nodeId, placed.fragId) ∈ (c.layout.nodePlacementsVector c.layout.holders.zipIdx).map
      LrcLayout.placedPair := List.mem_map.mpr ⟨placed, inside, rfl⟩
  have held := c.layout.mem_placedPair.mp pair
  exact ⟨List.mem_range.mp ids, c.layout.mem_holders (List.mem_of_getElem? held), c.mem_fragmentsForNode.mpr held⟩

theorem eq_of_fragId_eq {index : Nat} {fp' : StripePlacement}
    (member : fp ∈ (c.stripeMeta cmd index).placement.takeWhile fun fp => fp.kind = 0)
    (member' : fp' ∈ (c.stripeMeta cmd index).placement.takeWhile fun fp => fp.kind = 0)
    (same : fp.fragId = fp'.fragId) : fp = fp' := by
  have ids : (((c.stripeMeta cmd index).placement.takeWhile fun fp => fp.kind = 0).map StripePlacement.fragId).Nodup := by
    rw [c.takeWhile_stripeMeta]
    exact List.nodup_range
  exact List.inj_on_of_nodup_map ids member member' same

end StripeConfig

namespace StripeNodes

open StripeStore

section Read

variable {c : StripeConfig} {cmd : StripeWriteCommand} {index reader depth : Nat} {nodes : StripeNodes}

/-- The thread for `fp` asks a node that cannot be reached. -/
def misses (nodes : StripeNodes) (reader : Nat) (fp : StripePlacement) : Bool :=
  decide (fp.nodeId ≠ reader) && nodes.down fp.nodeId

theorem fetchFrag_eq (group : nodes.groupId = c.groupId) (stored : StoredOn c cmd index nodes.dbs)
    (unshadowed : Unshadowed c index reader nodes.dbs) {fp : StripePlacement}
    (member : fp ∈ (c.stripeMeta cmd index).placement.takeWhile fun fp => fp.kind = 0) :
    nodes.fetchFrag (nodes.tryStripeGet (depth + 1)) reader index fp = some (if nodes.misses reader fp then none
      else some (Encoder.dataFragment cmd.userValue c.layout.params.k fp.fragId)) := by
  obtain ⟨data, inside, held⟩ := c.mem_takeWhile_stripeMeta member
  have content := stored.fragments fp.nodeId inside fp.fragId held
  rw [LrcEncoder.encodeStripe_getElem? data] at content
  unfold fetchFrag misses
  rw [group]
  dsimp only
  by_cases here : fp.nodeId = reader
  · rw [if_pos here, ← here, content]
    simp
  · have plain := unshadowed fp.nodeId inside here fp.fragId held data
    rw [← group] at plain
    rw [if_neg here, ← group, tryStripeGet_of_no_meta plain, getValue, group, content]
    cases nodes.down fp.nodeId <;> simp [here]

theorem collect_eq {tryGet : Nat → Slice → GetResult} {value : Slice} {todo : List StripePlacement}
    {fragBytes : OrdMap Slice} {lost : Bool} (collected : Collected c value lost todo fragBytes)
    (fetched : ∀ fp ∈ todo, nodes.fetchFrag tryGet reader index fp = some (if nodes.misses reader fp then none
      else some (Encoder.dataFragment value c.layout.params.k fp.fragId))) :
    ∃ result, nodes.collect tryGet reader index todo fragBytes = some result ∧
      Collected c value (lost || todo.any (nodes.misses reader)) [] result ∧
      ∀ p ∈ result, p ∈ fragBytes ∨ ∃ fp ∈ todo, nodes.misses reader fp = false ∧ fp.fragId = p.1 := by
  induction todo generalizing fragBytes lost with
  | nil => exact ⟨fragBytes, rfl, by simpa using collected, fun p old => Or.inl old⟩
  | cons fp rest ih =>
    obtain ⟨here, later⟩ := List.forall_mem_cons.mp fetched
    have next : Collected c value (lost || nodes.misses reader fp) rest (addFragment fragBytes fp.fragId
        (if nodes.misses reader fp then none else some (Encoder.dataFragment value c.layout.params.k fp.fragId))) := by
      refine collected.fetched (i := 0) rfl (fun bytes brought => ?_) fun missing => ?_
      · split at brought <;> cases brought
        rfl
      · by_contra reached
        rw [if_neg reached] at missing
        cases missing
    obtain ⟨result, collects, all, sources⟩ := ih next later
    refine ⟨result, ?_, ?_, fun p member => ?_⟩
    · rw [collect, here]
      exact collects
    · rw [List.any_cons, ← Bool.or_assoc]
      exact all
    · rcases sources p member with brought | ⟨other, inside, reached⟩
      · cases missed : nodes.misses reader fp with
        | true =>
          rw [missed] at brought
          exact Or.inl brought
        | false =>
          rw [missed] at brought
          rcases OrdMap.mem_insertOrAssign brought with rfl | old
          · exact Or.inr ⟨fp, List.mem_cons_self, missed, rfl⟩
          · exact Or.inl old
      · exact Or.inr ⟨other, List.mem_cons_of_mem fp inside, reached⟩

/-- A read brings the value back, unless a node with a data fragment cannot be reached. -/
theorem tryStripeGet_eq (group : nodes.groupId = c.groupId) (stored : StoredOn c cmd index nodes.dbs)
    (member : reader < c.layout.n) (unshadowed : Unshadowed c index reader nodes.dbs) (depth : Nat) :
    nodes.tryStripeGet (depth + 2) reader cmd.userKey =
      if ((c.stripeMeta cmd index).placement.takeWhile fun fp => fp.kind = 0).any (nodes.misses reader) then .failed
      else .found cmd.userValue := by
  have count : ((c.stripeMeta cmd index).placement.takeWhile fun fp => fp.kind = 0).length =
      (c.stripeMeta cmd index).k := by
    rw [← List.length_map StripePlacement.fragId, c.takeWhile_stripeMeta, List.length_range]
    rfl
  have fetched : ∀ fp ∈ (c.stripeMeta cmd index).placement.takeWhile fun fp => fp.kind = 0,
      nodes.fetchFrag (nodes.tryStripeGet (depth + 1)) reader index fp = some (if nodes.misses reader fp then none
        else some (Encoder.dataFragment cmd.userValue c.layout.params.k fp.fragId)) :=
    fun fp asked => fetchFrag_eq group stored unshadowed asked
  obtain ⟨result, collects, collected, sources⟩ := collect_eq (collected_start cmd.userValue false) fetched
  have stripeId : (c.stripeMeta cmd index).stripeId = index := rfl
  have k : (c.stripeMeta cmd index).k = c.layout.params.k := rfl
  rw [tryStripeGet, group, stored.metadata reader member, Option.bind_some,
    c.deserialize_stripeMeta stored.fits stored.index_lt]
  dsimp only
  rw [if_neg (not_not.mpr count), stripeId, collects]
  dsimp only
  rw [k]
  split
  · -- A fragment is missing, and the code asks for no other.
    rename_i short
    have lost : ((c.stripeMeta cmd index).placement.takeWhile fun fp => fp.kind = 0).any (nodes.misses reader) = true := by
      by_contra reached
      have all := collected.rest (by simpa using reached)
      have full := OrdMap.le_length_of_keys fun i bound =>
        (all i bound).elim (fun there => there) fun ⟨_, inside, _⟩ => absurd inside List.not_mem_nil
      exact absurd full (Nat.not_le.mpr short)
    rw [if_pos lost]
  · rename_i full
    have reached : ¬ ((c.stripeMeta cmd index).placement.takeWhile fun fp => fp.kind = 0).any (nodes.misses reader) := by
      intro lost
      obtain ⟨fp, asked, missed⟩ := List.any_eq_true.mp lost
      have whole := collected.ascending.eq_map_range collected.values (Nat.not_lt.mp full)
      have bound := (c.mem_takeWhile_stripeMeta asked).1
      have there : (fp.fragId, Encoder.dataFragment cmd.userValue c.layout.params.k fp.fragId) ∈ result := by
        rw [whole]
        exact List.mem_map.mpr ⟨fp.fragId, List.mem_range.mpr bound, rfl⟩
      rcases sources _ there with old | ⟨other, inside, brought, same⟩
      · cases old
      · have one : other = fp := c.eq_of_fragId_eq inside asked same
        rw [one, missed] at brought
        cases brought
    obtain ⟨out, decoded, value⟩ := collected.decode stored.fits.valueSize (Nat.not_lt.mp full) nodes.isal
    have decodes : decodeStripe nodes.isal (c.stripeMeta cmd index) result = .decoded out := (if_pos rfl).trans decoded
    rw [decodes, if_neg reached]
    exact congrArg GetResult.found value

end Read

section Losses

variable {c : StripeConfig} {cmd : StripeWriteCommand} {index reader : Nat} {dbs : Nat → Database} {lost : Finset Nat}

/-- The nodes of a group of which `lost` cannot be reached. -/
def without (c : StripeConfig) (dbs : Nat → Database) (lost : Finset Nat) : StripeNodes :=
  { groupId := c.groupId, isal := c.isal, dbs := dbs, down := fun node => decide (node ∈ lost) }

/-- Whichever nodes are lost: a read brings the value back if they hold parities only. -/
theorem read_without_parities (stored : StoredOn c cmd index dbs) (member : reader < c.layout.n)
    (unshadowed : Unshadowed c index reader dbs)
    (parities : ∀ node ∈ lost, ∀ fragId ∈ c.grouper.fragmentsForNode node, c.layout.params.k ≤ fragId) (depth : Nat) :
    (without c dbs lost).tryStripeGet (depth + 2) reader cmd.userKey = .found cmd.userValue := by
  have reached : ¬ ((c.stripeMeta cmd index).placement.takeWhile fun fp => fp.kind = 0).any
      ((without c dbs lost).misses reader) := by
    intro missing
    obtain ⟨fp, asked, missed⟩ := List.any_eq_true.mp missing
    obtain ⟨data, _, held⟩ := c.mem_takeWhile_stripeMeta asked
    have unreachable : fp.nodeId ∈ lost := of_decide_eq_true (Bool.and_eq_true_iff.mp missed).2
    exact absurd data (Nat.not_lt.mpr (parities fp.nodeId unreachable fp.fragId held))
  have read : (without c dbs lost).tryStripeGet (depth + 2) reader cmd.userKey = _ :=
    tryStripeGet_eq rfl stored member unshadowed depth
  rw [read, if_neg reached]

/-- A read fails as soon as one node with a data fragment is lost. The parities on the other nodes are not asked for. -/
theorem read_without_data (stored : StoredOn c cmd index dbs) (member : reader < c.layout.n)
    (unshadowed : Unshadowed c index reader dbs) (apart : reader ∉ lost) {node fragId : Nat} (unreachable : node ∈ lost)
    (held : fragId ∈ c.grouper.fragmentsForNode node) (data : fragId < c.layout.params.k) (depth : Nat) :
    (without c dbs lost).tryStripeGet (depth + 2) reader cmd.userKey = .failed := by
  have wanted : fragId ∈ ((c.stripeMeta cmd index).placement.takeWhile fun fp => fp.kind = 0).map
      StripePlacement.fragId := by
    rw [c.takeWhile_stripeMeta]
    exact List.mem_range.mpr data
  obtain ⟨fp, asked, rfl⟩ := List.mem_map.mp wanted
  have holder : fp.nodeId = node := by
    have first := c.mem_fragmentsForNode.mp (c.mem_takeWhile_stripeMeta asked).2.2
    exact Option.some.inj (first.symm.trans (c.mem_fragmentsForNode.mp held))
  have missed : (without c dbs lost).misses reader fp = true := by
    have other : fp.nodeId ≠ reader := fun same => apart (same ▸ holder ▸ unreachable)
    exact Bool.and_eq_true_iff.mpr ⟨decide_eq_true other, decide_eq_true (holder ▸ unreachable)⟩
  have read : (without c dbs lost).tryStripeGet (depth + 2) reader cmd.userKey = _ :=
    tryStripeGet_eq rfl stored member unshadowed depth
  rw [read, if_pos (List.any_eq_true.mpr ⟨fp, asked, missed⟩)]

end Losses

/-- Four bytes under the key `a`, as the nodes of `sevenStores` have them. -/
def fourBytesPut : StripeWriteCommand := { groupId := 0, userKey := ascii "a", userValue := [1, 2, 3, 4], encodingMode := 2 }

/-- What a node has when nothing but this put was applied. -/
def fourBytesDb (node : Nat) : Database :=
  Database.write (fun _ => none) ((stripeMetaDbKey 0 fourBytesPut.userKey, (sevenStores.stripeMeta fourBytesPut 1).serialize) ::
    (sevenStores.grouper.fragmentsForNode node).map fun fragId => (fragDbKey 0 1 fragId,
      ((LrcEncoder.encodeStripe xorIsal sevenNodes.params fourBytesPut.userValue)[fragId]?).getD []))

theorem storedOn_fourBytesDb : StoredOn sevenStores fourBytesPut 1 fourBytesDb where
  fits := by constructor <;> decide
  index_lt := by decide
  metadata := by decide +kernel
  fragments := by decide +kernel

theorem unshadowed_fourBytesDb : Unshadowed sevenStores 1 0 fourBytesDb := by
  unfold Unshadowed
  decide +kernel

/-- The nodes 4, 5 and 6 hold no data fragment. -/
theorem read_without_parities_sevenStores :
    (without sevenStores fourBytesDb {4, 5, 6}).tryStripeGet 2 0 (ascii "a") = .found [1, 2, 3, 4] :=
  read_without_parities storedOn_fourBytesDb (by decide) unshadowed_fourBytesDb (by decide +kernel) 0

theorem read_without_data_sevenStores :
    (without sevenStores fourBytesDb {1, 5}).tryStripeGet 2 0 (ascii "a") = .failed :=
  read_without_data storedOn_fourBytesDb (by decide) unshadowed_fourBytesDb (by decide) (by decide : 1 ∈ _)
    (by decide +kernel : 2 ∈ _) (by decide) 0

/-- The node 1 has data fragment 2. Without it the value cannot be read. -/
theorem read_without_one_node : StoredOn sevenStores fourBytesPut 1 fourBytesDb ∧ ({1} : Finset Nat).card ≤ 7 / 2 ∧
    (without sevenStores fourBytesDb {1}).tryStripeGet 2 0 (ascii "a") = .failed :=
  ⟨storedOn_fourBytesDb, by decide, by decide +kernel⟩

end StripeNodes

end FlexRaft
