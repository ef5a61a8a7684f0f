import FlexRaft.LrcGrouping
import FlexRaft.StripeRoundTrip
import FlexRaft.ApplyOrder
import FlexRaft.StripePut

namespace FlexRaft

theorem xorIsal_sized : xorIsal.Sized := by
  intro k m data j size nonempty same
  have fold : ∀ (rest : List Slice) (slice : Slice), slice.length = size → (∀ s ∈ rest, s.length = size) →
      (rest.foldl (List.zipWith (· ^^^ ·)) slice).length = size := by
    intro rest
    induction rest with
    | nil => exact fun slice length _ => length
    | cons next rest ih =>
      intro slice length all
      refine ih _ ?_ fun s inside => all s (List.mem_cons_of_mem next inside)
      rw [List.length_zipWith, length, all next List.mem_cons_self, Nat.min_self]
  obtain ⟨first, rest, rfl⟩ := List.exists_cons_of_ne_nil nonempty
  exact fold rest first (same first List.mem_cons_self) fun s inside => same s (List.mem_cons_of_mem first inside)

/-- A group of a `RaftStore` in LRC mode. The store gives its servers the batch system and no storage. The parameters
are within the buffers of the encoder. -/
structure StripeConfig where
  layout : LrcLayout
  isal : Isal
  sized : isal.Sized
  grouper : LrcGrouper
  built : layout.grouper isal = some grouper
  kMax : layout.params.k ≤ Encoder.kMaxK
  rMax : layout.params.r ≤ Encoder.kMaxM
  groupId : Nat
  groupId_lt : groupId < UInt32.size
  dynamicK : Nat
  applyThreads : Nat
  maxBatch : Nat
  applyStripePacked : (payload : Slice) → List (Slice × Slice)
  applyStripeCommand : (entryId : Nat) → (cmd : Slice) → List (Slice × Slice)

namespace StripeConfig

def kLrc : Nat := 2

theorem size_le (c : StripeConfig) : c.layout.n ≤ 32 := by
  obtain ⟨_, _, two, _, _, total⟩ := LrcParams.fromCapacity_eq_some c.layout.derived
  have k := c.kMax
  have r := c.rMax
  simp only [Encoder.kMaxK, Encoder.kMaxM, LrcParams.totalShards] at k r total
  omega

def clusterConfig (c : StripeConfig) : ClusterConfig :=
  { size := c.layout.n
    size_pos := c.layout.n_pos
    size_le := c.size_le
    groupId := c.groupId
    dynamicK := c.dynamicK
    encodingMode := kLrc
    lrcGrouper := some c.grouper
    hasRsm := fun _ => false
    hasBridge := fun _ => true
    hasStorage := fun _ => false
    isal := c.isal }

/-- The apply threads of one node. -/
def applyConfig (c : StripeConfig) (node : Nat) : ApplyConfig :=
  { fsm :=
      { groupId := c.groupId
        nodeId := node
        encMode := kLrc
        applyStripePacked := c.applyStripePacked
        applyStripeCommand := c.applyStripeCommand }
    threadCount := c.applyThreads
    maxBatch := c.maxBatch }

theorem grouper_eq (c : StripeConfig) : ∃ given, c.layout.buildNodeToFragmentsMapping = some given ∧
    c.grouper.k = c.layout.params.k ∧ c.grouper.l = c.layout.params.l ∧ c.grouper.r = c.layout.params.r ∧
    c.grouper.nodePlacementsVector = c.layout.nodePlacementsVector given ∧
    c.grouper.lrcGroupIdForNode = c.layout.lrcGroupIdForNode given ∧
    ∀ data, c.grouper.encodeStripe data = some (LrcEncoder.encodeStripe c.isal c.layout.params data) := by
  obtain ⟨given, found, built⟩ := Option.map_eq_some_iff.mp c.built
  rw [← built]
  exact ⟨given, found, rfl, rfl, rfl, rfl, rfl, fun _ => rfl⟩

end StripeConfig

/-- A put whose key and value are not empty and whose sizes are `int`s. -/
structure StripeWriteCommand.Fits (cmd : StripeWriteCommand) : Prop where
  key : cmd.userKey ≠ []
  value : cmd.userValue ≠ []
  keySize : 29 + cmd.userKey.length < 2 ^ 31
  valueSize : cmd.userValue.length < 2 ^ 31

namespace StripeConfig

/-- The entry that a put becomes in the log of the leader. -/
def stripeEntry (c : StripeConfig) (cmd : StripeWriteCommand) (term index : Nat) : LogEntry :=
  let frags := LrcEncoder.encodeStripe c.isal c.layout.params cmd.userValue
  { term := term
    index := index
    type := .kNormal
    chunkInfo :=
      { k := c.layout.params.k
        raftIndex := index
        l := c.layout.params.l
        r := c.layout.params.r
        lrcGroupId := c.grouper.lrcGroupIdForNode c.groupId
        keySize := cmd.userKey.length
        totalSize := cmd.userValue.length }
    startOffset := 29 + cmd.userKey.length
    commandSize := cmd.serialize.length
    commandDataField := cmd.serialize
    fragments := frags
    fragIds := List.range frags.length
    placement := c.grouper.nodePlacementsVector }

end StripeConfig

section Command

variable (cmd : StripeWriteCommand)

theorem length_appendU32 (n : Nat) : (appendU32 n).length = 8 := LittleEndian.length_encode 8 _

theorem StripeWriteCommand.serialize_eq : cmd.serialize = (kStripeMagic ++ appendU32 cmd.groupId ++
    [UInt8.ofNat cmd.encodingMode] ++ appendU32 cmd.userKey.length) ++
      (cmd.userKey ++ (appendU32 cmd.userValue.length ++ cmd.userValue)) := by
  simp [serialize]

theorem StripeWriteCommand.length_header : (kStripeMagic ++ appendU32 cmd.groupId ++ [UInt8.ofNat cmd.encodingMode] ++
    appendU32 cmd.userKey.length).length = 21 := by
  simp [length_appendU32, kStripeMagic, ascii]

theorem StripeWriteCommand.length_serialize :
    cmd.serialize.length = 29 + cmd.userKey.length + cmd.userValue.length := by
  rw [serialize_eq, List.length_append, length_header]
  simp only [List.length_append, length_appendU32]
  omega

theorem StripeWriteCommand.drop_header :
    cmd.serialize.drop 21 = cmd.userKey ++ (appendU32 cmd.userValue.length ++ cmd.userValue) := by
  rw [serialize_eq, List.drop_left' cmd.length_header]

theorem StripeWriteCommand.drop_serialize : cmd.serialize.drop (29 + cmd.userKey.length) = cmd.userValue := by
  rw [show 29 + cmd.userKey.length = 21 + (cmd.userKey.length + 8) by omega, ← List.drop_drop, drop_header,
    ← List.drop_drop, List.drop_left, List.drop_left' (length_appendU32 _)]

theorem headerSkip_serialize : headerSkip cmd.serialize = 21 := by
  rw [headerSkip, if_pos]
  refine ⟨?_, rfl⟩
  rw [cmd.length_serialize]
  omega

end Command

/-- Fragments that are not empty are all taken over, under their positions. -/
theorem foldl_addFragment_eq {frags : List Slice} (nonempty : ∀ frag ∈ frags, frag ≠ []) (e : LogEntry)
    (numbered : e.fragIds = List.range e.fragments.length) :
    frags.foldl LogEntry.addFragment e =
      { e with fragments := e.fragments ++ frags, fragIds := List.range (e.fragments ++ frags).length } := by
  induction frags generalizing e with
  | nil => simp [← numbered]
  | cons frag rest ih =>
    have added : e.addFragment frag =
        { e with fragments := e.fragments ++ [frag], fragIds := List.range (e.fragments ++ [frag]).length } := by
      rw [LogEntry.addFragment, LogEntry.addFragmentWithId, if_neg (nonempty frag List.mem_cons_self)]
      simp [numbered, List.range_succ]
    rw [List.foldl_cons, added, ih (fun frag inside => nonempty frag (List.mem_cons_of_mem _ inside))]
    · simp
    · rfl

namespace StripeConfig

variable (c : StripeConfig) {cmd : StripeWriteCommand} {term index : Nat}

theorem k_pos : 0 < c.layout.params.k := c.layout.k_pos

theorem k_eq : c.layout.params.k = c.layout.params.l * c.layout.params.localK := by
  obtain ⟨_, _, two, _, split, _⟩ := LrcParams.fromCapacity_eq_some c.layout.derived
  rw [two]
  exact split

theorem length_of_mem_fragments {frag : Slice} (member : frag ∈ (c.stripeEntry cmd term index).fragments) :
    frag.length = Encoder.fragmentSize cmd.userValue c.layout.params.k :=
  LrcEncoder.length_of_mem_encodeStripe c.sized c.k_pos c.k_eq member

theorem fragments_getElem? {i : Nat} (bound : i < c.layout.params.k) : (c.stripeEntry cmd term index).fragments[i]? =
      some (Encoder.dataFragment cmd.userValue c.layout.params.k i) :=
  LrcEncoder.encodeStripe_getElem? bound

theorem propose_eq (fits : cmd.Fits) {s : RaftState} (config : s.config = c.clusterConfig.serverConfig c.groupId)
    (leads : s.role = .kLeader) :
    s.propose cmd.commandData =
      ({ s with lm := s.lm.appendLogEntry (c.stripeEntry cmd s.currentTerm (s.lm.lastLogEntryIndex + 1)) },
        { proposeIndex := s.lm.lastLogEntryIndex + 1, proposeTerm := s.currentTerm, isLeader := true }) := by
  obtain ⟨given, _, k, l, r, placement, _, encode⟩ := c.grouper_eq
  have offset : cmd.commandData.startFragmentOffset = 29 + cmd.userKey.length := by
    simp only [StripeWriteCommand.commandData]
    omega
  have keySize : (29 + cmd.userKey.length + UInt32.size - 29) % UInt32.size = cmd.userKey.length := by
    have bound := fits.keySize
    rw [show 29 + cmd.userKey.length + UInt32.size - 29 = cmd.userKey.length + UInt32.size by omega,
      Nat.add_mod_right, Nat.mod_eq_of_lt]
    simp only [UInt32.size]
    omega
  have room : ¬cmd.serialize.length < 29 + cmd.userKey.length := by
    rw [cmd.length_serialize]
    omega
  have totalSize : (cmd.serialize.length - (29 + cmd.userKey.length)) % UInt32.size = cmd.userValue.length := by
    have bound := fits.valueSize
    rw [cmd.length_serialize, Nat.add_sub_cancel_left, Nat.mod_eq_of_lt (bound.trans (by decide))]
  have nonempty : ∀ frag ∈ LrcEncoder.encodeStripe c.isal c.layout.params cmd.userValue, frag ≠ [] := by
    intro frag member empty
    have size := LrcEncoder.length_of_mem_encodeStripe c.sized c.k_pos c.k_eq member
    have positive := Encoder.fragmentSize_pos fits.value c.k_pos
    rw [empty, List.length_nil] at size
    omega
  have mode : (if s.config.encodingMode = 2 then s.config.lrcGrouper else none) = some c.grouper := by
    rw [config]
    rfl
  have id : s.id = c.groupId := by
    rw [RaftState.id, config]
    rfl
  have command : cmd.commandData.commandData = cmd.serialize := rfl
  unfold RaftState.propose
  simp only [mode, RaftState.lrcStripe, offset, command, room, if_false, cmd.drop_serialize, encode, Option.map_some,
    leads, ne_eq, not_true_eq_false, keySize, totalSize, k, l, r, id]
  rw [foldl_addFragment_eq nonempty _ rfl]
  simp [LogManager.appendLogEntryAtomic, stripeEntry, RaftState.proposedEntry, LogEntry.setCommandData, offset, command]

theorem isLrcEncoded (member : c.groupId < c.layout.n) : (c.stripeEntry cmd term index).isLrcEncoded = true := by
  obtain ⟨given, _, _, _, _, _, groupOf, _⟩ := c.grouper_eq
  obtain ⟨_, positive, two, _⟩ := LrcParams.fromCapacity_eq_some c.layout.derived
  have group : 0 ≤ c.grouper.lrcGroupIdForNode c.groupId := by
    rw [groupOf]
    exact c.layout.lrcGroupIdForNode_nonneg given member
  simp [LogEntry.isLrcEncoded, ChunkInfo.isLrcEncoded, stripeEntry, group, two]

theorem extractApplyMeta_eq (fits : cmd.Fits) (member : c.groupId < c.layout.n) :
    extractApplyMeta (c.stripeEntry cmd term index) = some (cmd.userKey, cmd.userValue.length) := by
  have command : (c.stripeEntry cmd term index).commandData = cmd.serialize := rfl
  have keySize : (c.stripeEntry cmd term index).chunkInfo.keySize = cmd.userKey.length := rfl
  have normal : (c.stripeEntry cmd term index).type ≠ .kFragments := nofun
  have positive : 0 < cmd.userKey.length := List.length_pos_iff.mpr fits.key
  have length := cmd.length_serialize
  have filled : ¬(cmd.serialize = [] ∨ cmd.userKey.length = 0) := by
    rintro (empty | zero)
    · rw [empty, List.length_nil] at length
      omega
    · omega
  unfold extractApplyMeta
  rw [if_neg normal]
  dsimp only
  rw [command, keySize, if_pos (c.isLrcEncoded member), if_neg filled, headerSkip_serialize, if_pos (by omega),
    cmd.drop_header, List.take_left]
  rfl

/-- What the bridge makes of the entry. -/
def stripeMessage (cmd : StripeWriteCommand) (term index : Nat) : MsgApplyCommitted :=
  { entryId := index
    stripeId := index
    groupId := c.groupId
    data := serializeForApply (c.stripeEntry cmd term index) cmd.userKey cmd.userValue.length }

theorem applyMessage_eq (fits : cmd.Fits) (member : c.groupId < c.layout.n) :
    applyMessage c.groupId (c.stripeEntry cmd term index) = some (c.stripeMessage cmd term index) := by
  rw [applyMessage, c.extractApplyMeta_eq fits member]
  rfl

theorem mem_placement_fits {fp : FragmentPlacement} (member : fp ∈ c.grouper.nodePlacementsVector) : fp.Fits := by
  obtain ⟨given, built, _, _, _, placement, _⟩ := c.grouper_eq
  rw [placement] at member
  obtain ⟨fragId, nodeId⟩ := c.layout.mem_nodePlacementsVector_lt built member
  have size := c.size_le
  refine ⟨?_, ?_⟩ <;> simp only [UInt32.size] <;> omega

theorem length_placement_lt : c.grouper.nodePlacementsVector.length < UInt32.size := by
  obtain ⟨given, built, _, _, _, placement, _⟩ := c.grouper_eq
  rw [placement]
  exact c.layout.length_nodePlacementsVector_lt built c.size_le

theorem params_lt : c.layout.params.k < UInt32.size ∧ c.layout.params.l < UInt32.size ∧
    c.layout.params.r < UInt32.size ∧ c.layout.params.totalShards < UInt32.size := by
  obtain ⟨_, _, two, _, _, total⟩ := LrcParams.fromCapacity_eq_some c.layout.derived
  have k := c.kMax
  have r := c.rMax
  have size := c.size_le
  simp only [Encoder.kMaxK, Encoder.kMaxM, UInt32.size] at k r ⊢
  omega

theorem stripeEntry_fits (fits : cmd.Fits) : (c.stripeEntry cmd term index).Fits := by
  obtain ⟨k, l, r, total⟩ := c.params_lt
  have count : (c.stripeEntry cmd term index).fragments.length = c.layout.params.totalShards :=
    LrcEncoder.length_encodeStripe
  refine ⟨k, l, r, c.length_placement_lt, fun fp => c.mem_placement_fits, count ▸ total, fun id member => ?_,
    fun frag member => ?_⟩
  · have below : id < (c.stripeEntry cmd term index).fragments.length := List.mem_range.mp member
    omega
  · have value := fits.valueSize
    have size : Encoder.fragmentSize cmd.userValue c.layout.params.k ≤ cmd.userValue.length := Encoder.fragmentSize_le
    rw [c.length_of_mem_fragments member]
    simp only [UInt32.size]
    omega

theorem applyUserKey_eq (fits : cmd.Fits) (e : LogEntry) : applyUserKey e cmd.userKey = cmd.userKey := by
  rw [applyUserKey, if_neg fun empty => fits.key empty.1]

theorem userKey_toPayload (fits : cmd.Fits) (e : LogEntry) (size : Nat) :
    (e.toPayload cmd.userKey size).userKey = cmd.userKey :=
  applyUserKey_eq fits e

theorem payload_of_data (fits : cmd.Fits) {e : LogEntry} (entry : e.Fits) (encoded : e.isLrcEncoded = true)
    {m : MsgApplyCommitted} (data : m.data = serializeForApply e cmd.userKey cmd.userValue.length) :
    ApplyFsm.payload? m = some (e.toPayload cmd.userKey cmd.userValue.length) := by
  have bytes : m.data = kApplyMagic ++ encodeFixed32 1 ++
      3 :: serializeLrcFragments e cmd.userKey cmd.userValue.length := by
    simp [data, serializeForApply, encoded]
  have keySize := fits.keySize
  have valueSize := fits.valueSize
  obtain ⟨length, magic, version, kind⟩ := Framed.of_eq bytes
  rw [ApplyFsm.payload?, if_pos ⟨length, magic, version, kind⟩, bytes]
  refine LrcPayload.parse_serialize entry ?_ (by omega)
  rw [applyUserKey_eq fits]
  simp only [UInt32.size]
  omega

theorem payload_stripeMessage (fits : cmd.Fits) (member : c.groupId < c.layout.n) :
    ApplyFsm.payload? (c.stripeMessage cmd term index) =
      some ((c.stripeEntry cmd term index).toPayload cmd.userKey cmd.userValue.length) :=
  payload_of_data fits (c.stripeEntry_fits fits) (c.isLrcEncoded member) rfl

/-- The metadata of the stripe. -/
def stripeMeta (cmd : StripeWriteCommand) (index : Nat) : StripeLogMeta :=
  { userKey := cmd.userKey
    stripeId := index
    entryId := index
    groupId := c.groupId
    originalSize := cmd.userValue.length
    encodingMode := kLrc
    k := c.layout.params.k
    l := c.layout.params.l
    r := c.layout.params.r
    m := 0
    placement := c.grouper.nodePlacementsVector.map FragmentPlacement.toWords }

theorem stripeMeta_eq (fits : cmd.Fits) {fsm : ApplyFsm} (group : fsm.groupId = c.groupId)
    (mode : fsm.encMode = kLrc) : fsm.stripeMeta (c.stripeMessage cmd term index)
      ((c.stripeEntry cmd term index).toPayload cmd.userKey cmd.userValue.length) = c.stripeMeta cmd index := by
  simp only [ApplyFsm.stripeMeta, LogEntry.toPayload, applyUserKey_eq fits, group, mode]
  rfl

theorem deserialize_stripeMeta (fits : cmd.Fits) (bound : index < 2 ^ 64) :
    StripeLogMeta.deserialize (c.stripeMeta cmd index).serialize = some (c.stripeMeta cmd index) := by
  obtain ⟨k, l, r, _⟩ := c.params_lt
  have keySize := fits.keySize
  have valueSize := fits.valueSize
  refine StripeLogMeta.deserialize_serialize ⟨?_, bound, bound, c.groupId_lt, ?_, show kLrc < 256 by decide, k, l, r,
    show 0 < UInt32.size by decide, ?_, ?_⟩
  · change cmd.userKey.length < UInt32.size
    simp only [UInt32.size]
    omega
  · change cmd.userValue.length < UInt32.size
    simp only [UInt32.size]
    omega
  · simpa [stripeMeta] using c.length_placement_lt
  · intro fp member
    obtain ⟨fp', inside, rfl⟩ := List.mem_map.mp member
    exact (c.mem_placement_fits inside).toWords

theorem takeWhile_stripeMeta :
    ((c.stripeMeta cmd index).placement.takeWhile fun fp => fp.kind = 0).map StripePlacement.fragId =
      List.range c.layout.params.k := by
  obtain ⟨given, _, _, _, _, placement, _⟩ := c.grouper_eq
  have kinds : ((fun fp : StripePlacement => decide (fp.kind = 0)) ∘ FragmentPlacement.toWords) =
      fun fp => decide (fp.kind = .kData) := by
    funext fp
    rcases fp with ⟨_, _, _, kind⟩
    cases kind <;> rfl
  have ids : StripePlacement.fragId ∘ FragmentPlacement.toWords = FragmentPlacement.fragId := rfl
  rw [stripeMeta, List.takeWhile_map, kinds, List.map_map, ids, placement, c.layout.takeWhile_nodePlacementsVector,
    c.layout.map_fragId_dataPlacements]

end StripeConfig

end FlexRaft
