import FlexRaft.StripeGet
import FlexRaft.WireRoundTrip

namespace FlexRaft

theorem lookup_of_forall {pairs : List (Nat × Slice)} {value : Nat → Option Slice}
    (named : ∀ p ∈ pairs, value p.1 = some p.2) {key : Nat} (listed : ∃ p ∈ pairs, p.1 = key) :
    pairs.lookup key = value key := by
  induction pairs with
  | nil =>
    obtain ⟨_, inside, _⟩ := listed
    cases inside
  | cons p rest ih =>
    obtain ⟨here, later⟩ := List.forall_mem_cons.mp named
    rw [List.lookup_cons]
    by_cases same : key = p.1
    · rw [same, here]
      simp
    · have other : (key == p.1) = false := beq_eq_false_iff_ne.mpr same
      rw [other]
      refine ih later ?_
      obtain ⟨q, inside, rfl⟩ := listed
      rcases List.mem_cons.mp inside with rfl | behind
      · exact absurd rfl same
      · exact ⟨q, behind, rfl⟩

theorem getElem?_filterMap {ids : List Nat} {f : Nat → Option Slice} (all : ∀ id ∈ ids, (f id).isSome) (i : Nat) :
    (ids.filterMap f)[i]? = (ids[i]?).bind f := by
  induction ids generalizing i with
  | nil => rfl
  | cons id rest ih =>
    obtain ⟨here, later⟩ := List.forall_mem_cons.mp all
    obtain ⟨value, found⟩ := Option.isSome_iff_exists.mp here
    rw [List.filterMap_cons, found]
    cases i with
    | zero => simp [found]
    | succ i => simpa using ih later i

theorem isInt_of_lt {n bound : Nat} (small : bound ≤ 2 ^ 31) (below : n < bound) : IsInt n := by
  unfold IsInt
  omega

/-- The groups of a node are counted from zero, and `-1` stands for none. -/
theorem LrcLayout.isInt_lrcGroupIdForNode (layout : LrcLayout) (given : Assignments) (size : layout.n ≤ 32) (node : Nat) :
    IsInt (layout.lrcGroupIdForNode given node) := by
  obtain ⟨_, _, two, k, _, total⟩ := LrcParams.fromCapacity_eq_some layout.derived
  fun_cases LrcLayout.lrcGroupIdForNode
  · decide
  · rename_i fragId found
    have data : fragId < layout.params.k := by simpa using List.find?_some found
    exact isInt_of_lt (show layout.params.k ≤ 2 ^ 31 by omega) (Nat.lt_of_le_of_lt (Nat.div_le_self _ _) data)
  · rename_i fragId found
    have parity : fragId < layout.params.k + layout.params.l := by simpa using List.find?_some found
    exact isInt_of_lt (show 32 ≤ 2 ^ 31 by decide) (by omega)
  · rename_i g found
    have inside := (List.findIdx?_eq_some_iff_getElem.mp found).1
    rw [layout.count, two] at inside
    exact isInt_of_lt (by decide) inside
  · decide

namespace StripeConfig

/-- What applying an entry makes of the database of a node. -/
def applyEntry (c : StripeConfig) (node : Nat) (e : LogEntry) (db : Database) : Database :=
  match applyMessage c.groupId e with
  | none => db
  | some m => db.write ((c.applyConfig node).fsm.writes m)

/-- The entry of a put as a node has it in its log, in full or with the key only. The bridge finds the key in it, and
the fragments of the node are there under their ids. -/
structure PutEntry (c : StripeConfig) (cmd : StripeWriteCommand) (index node : Nat) (e : LogEntry) : Prop where
  index : e.index = index
  encoded : e.isLrcEncoded = true
  extracted : extractApplyMeta e = some (cmd.userKey, cmd.userValue.length)
  fits : e.Fits
  k : e.chunkInfo.k = c.layout.params.k
  l : e.chunkInfo.l = c.layout.params.l
  r : e.chunkInfo.r = c.layout.params.r
  placement : e.placement = c.grouper.nodePlacementsVector
  named : ∀ p ∈ LrcPayload.numbered e.fragIds e.fragments.zipIdx,
    (LrcEncoder.encodeStripe c.isal c.layout.params cmd.userValue)[p.1]? = some p.2
  own : ∀ fragId ∈ c.grouper.fragmentsForNode node,
    ∃ p ∈ LrcPayload.numbered e.fragIds e.fragments.zipIdx, p.1 = fragId

section Applying

variable {c : StripeConfig} {cmd : StripeWriteCommand} {index node : Nat} {e : LogEntry}
  {fragId : Nat} {entries : Nat → LogEntry} {before : Nat → Database}

theorem fragId_lt (member : fragId ∈ c.grouper.fragmentsForNode node) : fragId < 64 := by
  have inside := (List.getElem?_eq_some_iff.mp (c.mem_fragmentsForNode.mp member)).1
  have size := c.size_le
  rw [c.layout.length_holders] at inside
  omega

theorem mem_nodePlacementsVector : fragId ∈ c.grouper.fragmentsForNode node ↔
    ∃ fp ∈ c.grouper.nodePlacementsVector, fp.nodeId = node ∧ fp.fragId = fragId := by
  rw [c.mem_fragmentsForNode, ← c.layout.mem_placedPair, List.mem_map, c.layout.grouper_eq c.built]
  simp only [LrcLayout.placedPair, Prod.mk.injEq]

theorem PutEntry.message (put : c.PutEntry cmd index node e) (fits : cmd.Fits) : ∃ m,
    applyMessage c.groupId e = some m ∧ m.stripeId = index ∧ m.entryId = index ∧
      ApplyFsm.payload? m = some (e.toPayload cmd.userKey cmd.userValue.length) := by
  have message : applyMessage c.groupId e =
      some ⟨e.index, e.index, c.groupId, serializeForApply e cmd.userKey cmd.userValue.length⟩ := by
    rw [applyMessage, put.extracted]
    rfl
  exact ⟨_, message, put.index, put.index, payload_of_data fits put.fits put.encoded rfl⟩

/-- The metadata of its own key is all that applying the entry changes about metadata. -/
theorem PutEntry.applyEntry_metadata (put : c.PutEntry cmd index node e) (fits : cmd.Fits) (db : Database) (key : Slice) :
    c.applyEntry node e db (stripeMetaDbKey c.groupId key) =
      if cmd.userKey = key then some (c.stripeMeta cmd index).serialize else db (stripeMetaDbKey c.groupId key) := by
  obtain ⟨m, message, stripeId, entryId, payload⟩ := put.message fits
  have written := write_writes_meta message (c.applyConfig node).fsm db key
  have stripe : (c.applyConfig node).fsm.stripeMeta m (e.toPayload cmd.userKey cmd.userValue.length) =
      c.stripeMeta cmd index := by
    simp only [ApplyFsm.stripeMeta, LogEntry.toPayload, applyUserKey_eq fits, stripeId, entryId, put.k, put.l, put.r,
      put.placement]
    rfl
  rw [payload] at written
  rw [applyEntry, message]
  refine written.trans ?_
  dsimp only
  rw [stripe, userKey_toPayload fits]
  rfl

theorem PutEntry.fragment_eq (put : c.PutEntry cmd index node e) (member : fragId ∈ c.grouper.fragmentsForNode node) :
    (e.toPayload cmd.userKey cmd.userValue.length).fragment fragId =
      (LrcEncoder.encodeStripe c.isal c.layout.params cmd.userValue)[fragId]? := by
  refine lookup_of_forall (fun p inside => put.named p (List.mem_reverse.mp inside)) ?_
  obtain ⟨p, inside, same⟩ := put.own fragId member
  exact ⟨p, List.mem_reverse.mpr inside, same⟩

theorem PutEntry.applyEntry_fragment (put : c.PutEntry cmd index node e) (fits : cmd.Fits) (db : Database)
    (member : fragId ∈ c.grouper.fragmentsForNode node) :
    c.applyEntry node e db (fragDbKey c.groupId index fragId) =
      (LrcEncoder.encodeStripe c.isal c.layout.params cmd.userValue)[fragId]? := by
  obtain ⟨m, message, stripeId, _, payload⟩ := put.message fits
  obtain ⟨⟨_, frag⟩, inside, rfl⟩ := put.own fragId member
  have content := put.named _ inside
  have mine := put.fragment_eq member
  dsimp only at content mine member ⊢
  rw [content] at mine ⊢
  obtain ⟨fp, placed, here, same⟩ := mem_nodePlacementsVector.mp member
  have words : ∀ fp ∈ (e.toPayload cmd.userKey cmd.userValue.length).placement, fp.fragId < UInt32.size := by
    intro words listed
    obtain ⟨fp, inside, rfl⟩ := List.mem_map.mp listed
    exact (put.fits.placement fp inside).1
  have listed : fp.toWords ∈ (e.toPayload cmd.userKey cmd.userValue.length).placement :=
    List.mem_map_of_mem (put.placement ▸ placed)
  rw [← same] at mine
  rw [applyEntry, message, ← same, ← stripeId]
  dsimp only
  rw [ApplyFsm.writes_of_payload payload]
  have own : fp.toWords.nodeId = (c.applyConfig node).fsm.nodeId := here
  exact ApplyFsm.write_stripeWrites_fragment db words listed own mine

theorem storedOn_of_applied (fits : cmd.Fits) (bound : index < 2 ^ 64)
    (puts : ∀ node < c.layout.n, c.PutEntry cmd index node (entries node)) :
    StoredOn c cmd index fun node => c.applyEntry node (entries node) (before node) := by
  refine ⟨fits, bound, fun node member => ?_, fun node member fragId held => ?_⟩
  · rw [(puts node member).applyEntry_metadata fits, if_pos rfl]
  · exact (puts node member).applyEntry_fragment fits (before node) held

theorem unshadowed_of_applied (fits : cmd.Fits) {reader : Nat}
    (puts : ∀ node < c.layout.n, c.PutEntry cmd index node (entries node)) (unshadowed : Unshadowed c index reader before)
    (apart : ∀ node < c.layout.n, node ≠ reader → ∀ fragId ∈ c.grouper.fragmentsForNode node,
      fragId < c.layout.params.k → cmd.userKey ≠ fragDbKey c.groupId index fragId) :
    Unshadowed c index reader fun node => c.applyEntry node (entries node) (before node) := by
  intro node member other fragId held data
  dsimp only
  rw [(puts node member).applyEntry_metadata fits, if_neg (apart node member other fragId held data)]
  exact unshadowed node member other fragId held data

end Applying

section Entries

variable (c : StripeConfig) {cmd : StripeWriteCommand} {term index node : Nat} {peer : Nat} {e : LogEntry}

theorem fragmentsForNode_lt {fragId : Nat} (member : fragId ∈ c.grouper.fragmentsForNode node) :
    fragId < (LrcEncoder.encodeStripe c.isal c.layout.params cmd.userValue).length := by
  obtain ⟨_, _, _, _, _, total⟩ := LrcParams.fromCapacity_eq_some c.layout.derived
  rw [LrcEncoder.length_encodeStripe, total, ← c.layout.length_holders]
  exact (List.getElem?_eq_some_iff.mp (c.mem_fragmentsForNode.mp member)).1

/-- The leader's own entry has all fragments, under their positions. -/
theorem putEntry_stripeEntry (fits : cmd.Fits) (member : c.groupId < c.layout.n) :
    c.PutEntry cmd index node (c.stripeEntry cmd term index) := by
  have ids : ∀ i < (LrcEncoder.encodeStripe c.isal c.layout.params cmd.userValue).length,
      (((c.stripeEntry cmd term index).fragIds)[i]?).getD i = i := by
    intro i bound
    change ((List.range _)[i]?).getD i = i
    rw [List.getElem?_range bound, Option.getD_some]
  refine ⟨rfl, c.isLrcEncoded member, c.extractApplyMeta_eq fits member, c.stripeEntry_fits fits, rfl, rfl, rfl, rfl,
    fun p inside => ?_, fun fragId held => ?_⟩
  · obtain ⟨⟨frag, i⟩, listed, rfl⟩ := List.mem_map.mp inside
    have at_i : (LrcEncoder.encodeStripe c.isal c.layout.params cmd.userValue)[i]? = some frag :=
      List.mem_zipIdx_iff_getElem?.mp listed
    dsimp only
    rw [ids i (List.getElem?_eq_some_iff.mp at_i).1]
    exact at_i
  · have bound : fragId < (LrcEncoder.encodeStripe c.isal c.layout.params cmd.userValue).length :=
      c.fragmentsForNode_lt held
    refine ⟨_, List.mem_map.mpr ⟨(_, fragId), List.mem_zipIdx_iff_getElem?.mpr (List.getElem?_eq_getElem bound), rfl⟩, ?_⟩
    exact ids fragId bound

/-- The entry that a peer is sent: the key, and the fragments of the peer. -/
def peerEntry (cmd : StripeWriteCommand) (term index peer : Nat) : LogEntry :=
  { RaftState.keyOnlyEntry (c.stripeEntry cmd term index) index with
    fragments := (c.grouper.fragmentsForNode peer).filterMap fun id =>
      (LrcEncoder.encodeStripe c.isal c.layout.params cmd.userValue)[id]?
    fragIds := c.grouper.fragmentsForNode peer }

theorem eq_peerEntry (fits : cmd.Fits)
    (new : RaftState.newLrcEntry c.grouper (c.stripeEntry cmd term index) index peer = some e) :
    e = c.peerEntry cmd term index peer := by
  have filled : [] ∉ (c.stripeEntry cmd term index).fragments := by
    intro empty
    have size := c.length_of_mem_fragments empty
    have positive := Encoder.fragmentSize_pos fits.value c.k_pos
    rw [List.length_nil] at size
    omega
  have all : (c.grouper.fragmentsForNode peer).filter (· < (c.stripeEntry cmd term index).fragments.length) =
      c.grouper.fragmentsForNode peer := by
    refine List.filter_eq_self.mpr fun id held => decide_eq_true ?_
    exact c.fragmentsForNode_lt held
  rw [RaftState.newLrcEntry_eq (c.layout.fragmentsForNode_ascending c.built peer) filled, all] at new
  dsimp only at new
  split at new <;> cases new
  rfl

theorem isInt_lrcGroupIdForNode (node : Nat) : IsInt (c.grouper.lrcGroupIdForNode node) := by
  obtain ⟨given, _, _, _, _, _, groupOf, _⟩ := c.grouper_eq
  rw [groupOf]
  exact c.layout.isInt_lrcGroupIdForNode given c.size_le node

theorem isInt_of_mem_placement {fp : FragmentPlacement} (member : fp ∈ c.grouper.nodePlacementsVector) :
    IsInt fp.fragId ∧ IsInt fp.localGroup ∧ IsInt fp.nodeId := by
  obtain ⟨given, built, _, _, _, placement, _⟩ := c.grouper_eq
  rw [placement] at member
  obtain ⟨fragId, nodeId⟩ := c.layout.mem_nodePlacementsVector_lt built member
  have size := c.size_le
  refine ⟨isInt_of_lt (by omega) fragId, ?_, isInt_of_lt (by omega) nodeId⟩
  obtain ⟨a, b, groups, _⟩ := c.layout.twoGroups
  simp only [LrcLayout.nodePlacementsVector, LrcLayout.dataPlacements, LrcLayout.parityPlacements,
    LrcLayout.globalPlacements, groups, List.zipIdx_cons, List.zipIdx_nil, List.mem_append, List.mem_flatMap, List.mem_map,
    List.mem_cons, List.not_mem_nil, or_false] at member
  rcases member with (⟨_, rfl | rfl, _, _, rfl⟩ | ⟨_, rfl | rfl, rfl⟩) | ⟨_, _, _, _, rfl⟩ <;> dsimp only <;>
    decide

theorem keySlice_stripeEntry (fits : cmd.Fits) : RaftState.keySlice (c.stripeEntry cmd term index) = cmd.userKey := by
  have command : (c.stripeEntry cmd term index).commandData = cmd.serialize := rfl
  have keySize : (c.stripeEntry cmd term index).chunkInfo.keySize = cmd.userKey.length := rfl
  have positive : 0 < cmd.userKey.length := List.length_pos_iff.mpr fits.key
  have short := fits.keySize
  have inside : (21 + cmd.userKey.length) % UInt32.size ≤ cmd.serialize.length := by
    rw [cmd.length_serialize, Nat.mod_eq_of_lt (by simp only [UInt32.size]; omega)]
    omega
  unfold RaftState.keySlice
  dsimp only
  rw [command, keySize, if_pos ⟨positive, inside⟩, cmd.drop_header, List.take_left]

theorem length_peerFragments : (c.peerEntry cmd term index peer).fragments.length =
    (c.grouper.fragmentsForNode peer).length := by
  refine (RaftState.filterMap_getElem?_length _ _).trans (congrArg List.length ?_)
  exact List.filter_eq_self.mpr fun id held => decide_eq_true (c.fragmentsForNode_lt held)

theorem length_of_mem_peerFragments {frag : Slice} (member : frag ∈ (c.peerEntry cmd term index peer).fragments) :
    frag.length = Encoder.fragmentSize cmd.userValue c.layout.params.k := by
  obtain ⟨id, _, at_id⟩ := List.mem_filterMap.mp member
  exact c.length_of_mem_fragments (List.mem_of_getElem? (l := (c.stripeEntry cmd term index).fragments) at_id)

theorem commandData_peerEntry (fits : cmd.Fits) : (c.peerEntry cmd term index peer).commandData = cmd.userKey :=
  c.keySlice_stripeEntry fits

theorem length_fragmentsForNode_le (node : Nat) : (c.grouper.fragmentsForNode node).length ≤ 2 := by
  rw [c.layout.grouper_eq c.built]
  dsimp only
  split
  · exact Nat.zero_le 2
  · rename_i inside
    rw [Assignments.length_fragsOf_zipIdx, c.layout.count_holders (Nat.not_le.mp inside)]

/-- The numbers of a peer's entry are values of their types. -/
theorem wireFits_peerEntry (fits : cmd.Fits) (termBound : term < UInt32.size) (indexBound : index < UInt32.size)
    : (c.peerEntry cmd term index peer).WireFits := by
  obtain ⟨k, l, r, _⟩ := c.params_lt
  have keySize : cmd.userKey.length < UInt32.size := by
    have bound := fits.keySize
    simp only [UInt32.size]
    omega
  have valueSize : cmd.userValue.length < UInt32.size := fits.valueSize.trans (by decide)
  have wide : cmd.userKey.length < 2 ^ 64 := keySize.trans (by decide)
  have key : (c.peerEntry cmd term index peer).commandDataField = cmd.userKey := c.keySlice_stripeEntry fits
  have few := c.length_fragmentsForNode_le peer
  have count : (c.peerEntry cmd term index peer).fragments.length < UInt32.size := by
    rw [c.length_peerFragments]
    exact Nat.lt_of_le_of_lt few (by decide)
  exact
    { term := termBound
      index := indexBound
      k := k
      raftIndex := indexBound
      l := l
      r := r
      lrcGroupId := c.isInt_lrcGroupIdForNode c.groupId
      keySize := keySize
      totalSize := valueSize
      startOffset := show IsInt (0 : Nat) by decide
      commandSize := isInt_of_lt le_rfl fits.valueSize
      notEncoded := (congrArg List.length (c.commandData_peerEntry fits)).trans_lt wide
      fragment := show 0 < 2 ^ 64 by decide
      commandBytes := key ▸ wide
      notEncodedBytes := show 0 < 2 ^ 64 by decide
      fragmentBytes := show 0 < 2 ^ 64 by decide
      fragments := count
      fragIds := fun id held => isInt_of_lt (by decide) (fragId_lt held)
      numbered := c.length_peerFragments.symm
      placements := c.length_placement_lt
      placement := fun fp => c.isInt_of_mem_placement }

/-- A peer's entry as it comes from the wire. -/
theorem received_peerEntry (fits : cmd.Fits) (termBound : term < UInt32.size) (indexBound : index < UInt32.size)
    (small : Encoder.fragmentSize cmd.userValue c.layout.params.k < 1024 * 1024) (peer : Nat) :
    Serializer.received (c.peerEntry cmd term index peer) =
      { c.peerEntry cmd term index peer with commandSize := cmd.userKey.length, notEncodedField := cmd.userKey } := by
  have key : (c.peerEntry cmd term index peer).notEncodedSlice = cmd.userKey := c.commandData_peerEntry fits
  have field : (c.peerEntry cmd term index peer).commandDataField = cmd.userKey := c.keySlice_stripeEntry fits
  have normal : (c.peerEntry cmd term index peer).type = .kNormal := rfl
  have none : (c.peerEntry cmd term index peer).fragmentSlice = [] := rfl
  have count : (c.peerEntry cmd term index peer).fragments.length ≤ 256 := by
    rw [c.length_peerFragments]
    exact (c.length_fragmentsForNode_le peer).trans (by decide)
  have sizes : ∀ frag ∈ (c.peerEntry cmd term index peer).fragments, frag.length < 1024 * 1024 := by
    intro frag member
    rw [c.length_of_mem_peerFragments member]
    exact small
  rw [Serializer.received_eq (c.wireFits_peerEntry fits termBound indexBound), Serializer.kept_fragments count sizes, key,
    none, if_pos normal, if_pos normal, ← field]
  rfl

theorem extractApplyMeta_keyOnly (fits : cmd.Fits) (plain : headerSkip cmd.userKey = 0)
    (encoded : e.isLrcEncoded = true) (normal : e.type = .kNormal) (keySize : e.chunkInfo.keySize = cmd.userKey.length)
    (totalSize : e.chunkInfo.totalSize = cmd.userValue.length) (key : e.commandData = cmd.userKey) :
    extractApplyMeta e = some (cmd.userKey, cmd.userValue.length) := by
  have filled : ¬(cmd.userKey = [] ∨ cmd.userKey.length = 0) := by
    rintro (empty | zero)
    · exact fits.key empty
    · exact fits.key (List.length_eq_zero_iff.mp zero)
  unfold extractApplyMeta
  rw [normal, if_neg nofun]
  dsimp only
  rw [key, keySize, totalSize, if_pos encoded, if_neg filled, plain, if_pos (Nat.zero_add _).le, List.drop_zero,
    List.take_length]

/-- The bridge finds the key, unless it looks like the header of a command, and the fragments go by their ids. -/
theorem putEntry_received (fits : cmd.Fits) (termBound : term < UInt32.size) (indexBound : index < UInt32.size)
    (small : Encoder.fragmentSize cmd.userValue c.layout.params.k < 1024 * 1024) (member : c.groupId < c.layout.n)
    (plain : headerSkip cmd.userKey = 0) (peer : Nat) :
    c.PutEntry cmd index peer (Serializer.received (c.peerEntry cmd term index peer)) := by
  rw [c.received_peerEntry fits termBound indexBound small]
  have full : (c.stripeEntry cmd term index).isLrcEncoded = true := c.isLrcEncoded member
  have encoded : (c.peerEntry cmd term index peer).isLrcEncoded = true := full
  have all : ∀ id ∈ c.grouper.fragmentsForNode peer,
      ((LrcEncoder.encodeStripe c.isal c.layout.params cmd.userValue)[id]?).isSome := by
    intro id held
    rw [List.getElem?_eq_getElem (c.fragmentsForNode_lt held)]
    rfl
  have places := getElem?_filterMap all
  have key : (c.peerEntry cmd term index peer).commandData = cmd.userKey := c.commandData_peerEntry fits
  refine ⟨rfl, encoded, ?_, ?_, rfl, rfl, rfl, rfl, fun p inside => ?_, fun fragId held => ?_⟩
  · exact extractApplyMeta_keyOnly fits plain encoded rfl rfl rfl key
  · obtain ⟨k, l, r, _⟩ := c.params_lt
    have typed : (c.peerEntry cmd term index peer).WireFits := c.wireFits_peerEntry fits termBound indexBound
    refine ⟨k, l, r, c.length_placement_lt, fun fp => c.mem_placement_fits, typed.fragments, fun id held => ?_,
      fun frag found => ?_⟩
    · exact (fragId_lt held).trans (by decide)
    · have sent : frag ∈ (c.peerEntry cmd term index peer).fragments := found
      rw [c.length_of_mem_peerFragments sent]
      exact small.trans (by decide)
  · obtain ⟨⟨frag, i⟩, listed, rfl⟩ := List.mem_map.mp inside
    have at_i := (places i).symm.trans (List.mem_zipIdx_iff_getElem?.mp listed)
    obtain ⟨id, named, value⟩ := Option.bind_eq_some_iff.mp at_i
    change (LrcEncoder.encodeStripe _ _ _)[((c.grouper.fragmentsForNode peer)[i]?).getD i]? = some frag
    rw [named]
    exact value
  · obtain ⟨i, at_i⟩ := List.mem_iff_getElem?.mp held
    obtain ⟨frag, value⟩ := Option.isSome_iff_exists.mp (all fragId held)
    have stored : (c.peerEntry cmd term index peer).fragments[i]? = some frag := by
      refine (places i).trans ?_
      rw [at_i]
      exact value
    refine ⟨_, List.mem_map.mpr ⟨(frag, i), List.mem_zipIdx_iff_getElem?.mpr stored, rfl⟩, ?_⟩
    change ((c.grouper.fragmentsForNode peer)[i]?).getD i = fragId
    rw [at_i, Option.getD_some]

end Entries

end StripeConfig

end FlexRaft
