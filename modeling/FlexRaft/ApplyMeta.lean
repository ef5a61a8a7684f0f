import FlexRaft.AcceptedEntry
import FlexRaft.StripeApply

namespace FlexRaft

namespace StripeWriteCommand

/-- `value_offset`, which `StripePut` casts to an `int`. -/
def valueOffset (cmd : StripeWriteCommand) : Int := intOfWord ((29 + cmd.userKey.length) % UInt32.size)

/-- What `StripePut` hands to `Propose`. With a negative offset `Propose` would encode memory in front of the command. -/
def proposal (cmd : StripeWriteCommand) : Option CommandData :=
  if cmd.valueOffset < 0 then none
  else some { startFragmentOffset := cmd.valueOffset.toNat, commandData := cmd.serialize }

/-- The number of bytes that get encoded. -/
def encodedSize (cmd : StripeWriteCommand) : Nat := cmd.serialize.length - cmd.valueOffset.toNat

/-- The bridge finds the user key and the size of the value. -/
def FoundIn (cmd : StripeWriteCommand) (e : LogEntry) : Prop :=
  extractApplyMeta e = some (cmd.userKey, cmd.userValue.length)

end StripeWriteCommand

/-- What the leader `s` sends a peer for the entry at `index`: a Reed-Solomon fragment, or in LRC mode the entry that
follows a proposal and the one that is sent again later. -/
inductive RaftState.SentFor (s : RaftState) (index peer : Nat) : LogEntry → Prop
  | fragment {k : Nat} {stripe : Stripe} {e : LogEntry} (mode : s.config.lrcMode = false)
      (encoded : s.encodeRaftEntry index k = some stripe) (own : stripe.fragments.find peer = some e) : SentFor s index peer e
  | proposed {grouper : LrcGrouper} {ent e : LogEntry} (mode : s.config.encodingMode = 2)
      (given : s.config.lrcGrouper = some grouper) (atIndex : s.lm.getSingleLogEntry index = some ent)
      (new : newLrcEntry grouper ent index peer = some e) : SentFor s index peer e
  | again {e : LogEntry} (mode : s.config.lrcMode = true) (entries : s.lrcEntriesFor peer [index] = some [e]) :
      SentFor s index peer e

/-- After the proposal of a command by the leader `s` the bridge finds its key and size, in the entry of the leader and
in what each peer makes of the entry it is sent. -/
structure FoundEverywhere (s : RaftState) (cmd : StripeWriteCommand) (command : CommandData) : Prop where
  leader : ∃ ent, (s.propose command).1.lm.getSingleLogEntry (s.propose command).2.proposeIndex = some ent ∧ cmd.FoundIn ent
  followers : ∀ peer ∈ s.peers, ∀ e e', (s.propose command).1.SentFor (s.propose command).2.proposeIndex peer e →
    Serializer.Accepts e e' → cmd.FoundIn e'

/-- The leader of a group of several servers in one of the three modes. -/
structure LeadsIn (mode : EncodingMode) (c : ClusterConfig) (s : RaftState) : Prop where
  leads : s.role = .kLeader
  member : s.id < c.size
  config : s.config = c.serverConfig s.id
  several : 2 ≤ c.size
  runs : c.encodingMode = mode.word
  lrc : mode = .kLrc → ∃ d : LrcCluster, d.config = c
  isal : c.isal.Sized
  indexed : s.lm.Indexed
  index : s.lm.entries.length + 1 < UInt32.size

section Formats

variable {cmd : StripeWriteCommand} {e : LogEntry}

theorem appendU32_eq (n : Nat) : appendU32 n = encodeFixed32 n ++ [0, 0, 0, 0] := by
  have low : LittleEndian.encode 4 (n % UInt32.size) = encodeFixed32 n := LittleEndian.encode_mod 4 n
  have high : n % UInt32.size / 256 ^ 4 = 0 := Nat.div_eq_of_lt (Nat.mod_lt n (by decide))
  rw [appendU32, LittleEndian.encode_add 4 4, low, high]
  rfl

/-- Where the old layout has the length of the key stand three zeros and the mode. -/
theorem StripeWriteCommand.drop_nine : cmd.serialize.drop 9 = [0, 0, 0, UInt8.ofNat cmd.encodingMode] ++
    (encodeFixed32 cmd.userKey.length ++ ([0, 0, 0, 0] ++ (cmd.userKey ++ (appendU32 cmd.userValue.length ++ cmd.userValue)))) := by
  have bytes : cmd.serialize = (kStripeMagic ++ encodeFixed32 cmd.groupId ++ [0]) ++
      ([0, 0, 0, UInt8.ofNat cmd.encodingMode] ++ (encodeFixed32 cmd.userKey.length ++ ([0, 0, 0, 0] ++
        (cmd.userKey ++ (appendU32 cmd.userValue.length ++ cmd.userValue))))) := by
    rw [cmd.serialize_eq, appendU32_eq cmd.groupId, appendU32_eq cmd.userKey.length]
    simp only [List.append_assoc, List.cons_append, List.nil_append]
  have front : (kStripeMagic ++ encodeFixed32 cmd.groupId ++ [0]).length = 9 := by
    rfl
  rw [bytes, List.drop_left' front]

theorem decode_mode (n : Nat) (rest : Slice) :
    decodeFixed32 ([0, 0, 0, UInt8.ofNat n] ++ rest) = 256 ^ 3 * (n % 256) := by
  change 0 + 256 * (0 + 256 * (0 + 256 * (n % 256 + 256 * 0))) = _
  omega

/-- The bridge takes a command outside LRC mode for one of the old layout. -/
theorem extractApplyMeta_legacy (normal : e.type = .kNormal) (plain : e.isLrcEncoded = false)
    (command : e.commandData = cmd.serialize) (keySize : cmd.userKey.length < UInt32.size) :
    extractApplyMeta e = if cmd.encodingMode % 256 = 0 then some ([], cmd.userKey.length) else none := by
  have length := cmd.length_serialize
  have keyLen : decodeFixed32 (cmd.serialize.drop 9) = 256 ^ 3 * (cmd.encodingMode % 256) := by
    rw [cmd.drop_nine, decode_mode]
  unfold extractApplyMeta
  rw [normal, if_neg (by decide), plain, if_neg (by decide)]
  rw [command, keyLen]
  by_cases zero : cmd.encodingMode % 256 = 0
  · have behind : decodeFixed32 (cmd.serialize.drop 13) = cmd.userKey.length := by
      have split : cmd.serialize.drop 13 = (cmd.serialize.drop 9).drop 4 := by rw [List.drop_drop]
      have four : [0, 0, 0, UInt8.ofNat cmd.encodingMode].length = 4 := rfl
      rw [split, cmd.drop_nine, List.drop_left' four, decodeFixed32, List.take_left' (Serializer.length_encodeFixed32 _)]
      exact LittleEndian.decode_encode_of_lt keySize
    rw [zero, Nat.mul_zero, if_pos ⟨by omega, rfl, by omega, by omega⟩, List.take_zero, Nat.add_zero, behind, if_pos rfl]
  · have large : ¬ 256 ^ 3 * (cmd.encodingMode % 256) ≤ 1024 := by omega
    rw [if_neg fun fits => large fits.2.2.1, if_neg zero]

theorem foundIn_command_iff (normal : e.type = .kNormal) (encoded : e.isLrcEncoded = true)
    (command : e.commandData = cmd.serialize) (keySize : e.chunkInfo.keySize = cmd.userKey.length)
    (totalSize : e.chunkInfo.totalSize = cmd.userValue.length) : cmd.FoundIn e ↔ cmd.userKey ≠ [] := by
  have length := cmd.length_serialize
  have filled : cmd.serialize ≠ [] := fun empty => by
    rw [empty, List.length_nil] at length
    omega
  unfold StripeWriteCommand.FoundIn extractApplyMeta
  rw [normal, if_neg (by decide), encoded, if_pos rfl]
  dsimp only
  rw [command, keySize, totalSize, headerSkip_serialize, cmd.drop_header, List.take_left]
  by_cases empty : cmd.userKey = []
  · rw [if_pos (Or.inr (by rw [empty, List.length_nil]))]
    exact ⟨fun found => (by cases found), fun key => absurd empty key⟩
  · have noKey : cmd.userKey.length ≠ 0 := fun zero => empty (List.length_eq_zero_iff.mp zero)
    rw [if_neg (not_or.mpr ⟨filled, noKey⟩), if_pos (by omega)]
    exact ⟨fun _ => empty, fun _ => rfl⟩

theorem foundIn_key_iff (normal : e.type = .kNormal) (encoded : e.isLrcEncoded = true) (key : cmd.userKey ≠ [])
    (command : e.commandData = cmd.userKey) (keySize : e.chunkInfo.keySize = cmd.userKey.length)
    (totalSize : e.chunkInfo.totalSize = cmd.userValue.length) : cmd.FoundIn e ↔ headerSkip cmd.userKey = 0 := by
  have noKey : cmd.userKey.length ≠ 0 := fun zero => key (List.length_eq_zero_iff.mp zero)
  unfold StripeWriteCommand.FoundIn extractApplyMeta
  rw [normal, if_neg (by decide), encoded, if_pos rfl]
  rw [command, keySize, totalSize, if_neg (not_or.mpr ⟨key, noKey⟩)]
  by_cases plain : headerSkip cmd.userKey = 0
  · rw [plain, Nat.zero_add, if_pos le_rfl, List.drop_zero, List.take_length]
    exact ⟨fun _ => rfl, fun _ => rfl⟩
  · rw [if_neg (by omega)]
    exact ⟨fun found => (by cases found), fun zero => absurd zero plain⟩

end Formats

namespace LeadsIn

open RaftState

variable {mode : EncodingMode} {c : ClusterConfig} {s : RaftState} {cmd : StripeWriteCommand} {command : CommandData}

theorem offset_le (proposed : cmd.proposal = some command) : command.commandData = cmd.serialize ∧
    command.startFragmentOffset = cmd.valueOffset.toNat ∧ command.startFragmentOffset ≤ command.commandData.length := by
  unfold StripeWriteCommand.proposal at proposed
  split at proposed
  · cases proposed
  · cases proposed
    refine ⟨rfl, rfl, ?_⟩
    have length := cmd.length_serialize
    have wraps : (29 + cmd.userKey.length) % UInt32.size ≤ 29 + cmd.userKey.length := Nat.mod_le _ _
    simp only [StripeWriteCommand.valueOffset, intOfWord]
    split <;> omega

section ReedSolomon

/-- The entry that the leader appends outside LRC mode. -/
def appendedEntry (s : RaftState) (command : CommandData) : LogEntry :=
  { s.proposedEntry command with index := s.lm.lastLogEntryIndex + 1 }

theorem propose_reedSolomon (leads : LeadsIn mode c s) (other : mode ≠ .kLrc) (command : CommandData) :
    s.propose command = ({ s with lm := s.lm.appendLogEntry (appendedEntry s command) },
      { proposeIndex := s.lm.lastLogEntryIndex + 1, proposeTerm := s.currentTerm, isLeader := true }) := by
  have plain : s.config.encodingMode ≠ 2 := by
    rw [leads.config]
    change c.encodingMode ≠ 2
    rw [leads.runs]
    cases mode with
    | kRsF => decide
    | kRs3F => decide
    | kLrc => exact absurd rfl other
  unfold propose
  rw [if_neg plain]
  dsimp only
  rw [if_neg (not_not.mpr leads.leads)]
  rfl

theorem lrcMode_eq_false (leads : LeadsIn mode c s) (other : mode ≠ .kLrc) : s.config.lrcMode = false := by
  rw [leads.config]
  change (c.lrcGrouper.isSome && c.encodingMode == 2) = false
  rw [leads.runs]
  cases mode with
  | kRsF => exact Bool.and_false _
  | kRs3F => exact Bool.and_false _
  | kLrc => exact absurd rfl other

theorem exists_peer (leads : LeadsIn mode c s) : ∃ peer ∈ s.peers, peer < s.getClusterServerNumber := by
  have several := leads.several
  have member := leads.member
  have servers : s.getClusterServerNumber = c.size := by
    change s.config.peers.length + 1 = c.size
    rw [leads.config, c.serverConfig_peers_length, if_pos member]
    omega
  obtain ⟨peer, below, apart⟩ : ∃ peer, peer < c.size ∧ peer ≠ s.id := by
    by_cases zero : s.id = 0
    · exact ⟨1, by omega, by omega⟩
    · exact ⟨0, by omega, Ne.symm zero⟩
  refine ⟨peer, ?_, servers ▸ below⟩
  change peer ∈ s.config.peers
  rw [leads.config]
  exact ClusterConfig.mem_serverConfig_peers.mpr ⟨below, apart⟩

theorem encodeRaftEntry_one {t : RaftState} {index : Nat} {ent : LogEntry} (atIndex : t.lm.getSingleLogEntry index = some ent)
    (last : t.lm.lastLogEntryIndex = index) (inside : ent.startOffset ≤ ent.commandData.length) :
    ∃ stripe, t.encodeRaftEntry index 1 = some stripe ∧ ∀ peer < t.getClusterServerNumber,
      stripe.fragments.find peer = some (encodedEntry ent index 1 (ent.commandData.drop ent.startOffset)) := by
  have servers : 0 < t.getClusterServerNumber := Nat.succ_pos _
  have possible : ¬ (t.lm.lastLogEntryIndex < index ∨ 1 = 0 ∨ t.getClusterServerNumber < 1) := by omega
  have encoded : t.encodeRaftEntry index 1 = some
      { raftIndex := ent.index
        raftTerm := ent.term
        fragments := (Encoder.encodeSlice t.config.isal (ent.commandData.drop ent.startOffset) 1
          (t.getClusterServerNumber - 1)).mapValues (encodedEntry ent index 1) } := by
    unfold encodeRaftEntry
    rw [if_neg possible, atIndex]
    dsimp only
    rw [if_neg (Nat.not_lt.mpr inside)]
  refine ⟨_, encoded, fun peer below => ?_⟩
  rw [OrdMap.find_mapValues, Encoder.encodeSlice_find (by omega)]
  rfl

/-- Outside LRC mode the bridge never finds what it should, in the leader's entry or in that of a peer. -/
theorem not_foundEverywhere (leads : LeadsIn mode c s) (other : mode ≠ .kLrc) (given : cmd.encodingMode = mode.word)
    (keySize : cmd.userKey.length < UInt32.size) (proposed : cmd.proposal = some command) : ¬ FoundEverywhere s cmd command := by
  intro found
  obtain ⟨bytes, offset, inside⟩ := offset_le proposed
  have index : s.lm.lastLogEntryIndex + 1 < UInt32.size := leads.indexed.lastLogEntryIndex_eq ▸ leads.index
  have place : (appendedEntry s command).index = s.lm.lastLogEntryIndex + 1 := rfl
  have atIndex := leads.indexed.getSingleLogEntry_new place
  have last := (s.lm.lastLogEntryIndex_appendLogEntry (appendedEntry s command)).trans place
  obtain ⟨ent, stored, extracted⟩ := found.leader
  have followers := found.followers
  rw [leads.propose_reedSolomon other] at stored followers
  cases stored.symm.trans atIndex
  have legacy := extractApplyMeta_legacy (e := appendedEntry s command) rfl rfl bytes keySize
  rw [extracted, given] at legacy
  cases mode with
  | kLrc => exact other rfl
  | kRs3F => cases legacy
  | kRsF =>
    -- the key is taken to be empty, and its size for that of the value
    have same := Prod.mk.inj (Option.some.inj legacy)
    obtain ⟨peer, member, below⟩ := leads.exists_peer
    obtain ⟨stripe, encoded, fragment⟩ := encodeRaftEntry_one (t := { s with lm := s.lm.appendLogEntry (appendedEntry s command) })
      atIndex last inside
    have sent := SentFor.fragment (s := { s with lm := s.lm.appendLogEntry (appendedEntry s command) })
      (leads.lrcMode_eq_false other) encoded (fragment peer below)
    have key : cmd.userKey = [] := same.1
    have value : cmd.userValue = [] := List.length_eq_zero_iff.mp (same.2.trans (congrArg List.length key))
    have nothing : (appendedEntry s command).commandData.drop (appendedEntry s command).startOffset = [] := by
      change command.commandData.drop command.startFragmentOffset = []
      apply List.drop_eq_nil_of_le
      rw [offset, bytes, cmd.length_serialize, StripeWriteCommand.valueOffset, key, value]
      decide
    rw [nothing] at sent
    have zero : 0 < UInt32.size := by decide
    have one : 1 < UInt32.size := by decide
    have ungrouped : IsInt (-1) := by decide
    have words : (encodedEntry (appendedEntry s command) (s.lm.lastLogEntryIndex + 1) 1 []).chunkInfo.Words :=
      ⟨one, index, zero, zero, ungrouped, zero, zero⟩
    have sized : (encodedEntry (appendedEntry s command) (s.lm.lastLogEntryIndex + 1) 1 []).Sized := by
      refine ⟨?_, show 0 < 2 ^ 64 by decide, zero, List.forall_mem_nil _, zero⟩
      change (command.commandData.take command.startFragmentOffset).length < 2 ^ 64
      rw [List.length_take, bytes, cmd.length_serialize, key, value]
      exact (Nat.min_le_right _ _).trans_lt (by decide)
    obtain ⟨e', accepts⟩ := (Serializer.exists_accepts_iff sized).mpr (List.forall_mem_nil _)
    have extracts := followers peer member _ _ sent accepts
    rw [StripeWriteCommand.FoundIn, accepts.extractApplyMeta_eq words sized] at extracts
    cases extracts

end ReedSolomon

section Lrc

variable (d : LrcCluster)

/-- The entry that the leader appends in LRC mode. -/
def stripedEntry (s : RaftState) (command : CommandData) : LogEntry :=
  let frags := (LrcEncoder.encodeStripe d.config.isal d.layout.params (command.commandData.drop command.startFragmentOffset)).filter
    fun frag => decide (frag ≠ [])
  { s.proposedEntry command with
    index := s.lm.lastLogEntryIndex + 1
    chunkInfo :=
      { k := d.layout.params.k
        raftIndex := s.lm.lastLogEntryIndex + 1
        l := d.layout.params.l
        r := d.layout.params.r
        lrcGroupId := d.grouper.lrcGroupIdForNode s.id
        keySize := (command.startFragmentOffset + UInt32.size - 29) % UInt32.size
        totalSize := (command.commandData.length - command.startFragmentOffset) % UInt32.size }
    fragments := frags
    fragIds := List.range frags.length
    placement := d.grouper.nodePlacementsVector }

theorem foldl_addFragment_filter (frags : List Slice) (e : LogEntry) :
    frags.foldl LogEntry.addFragment e = (frags.filter fun frag => decide (frag ≠ [])).foldl LogEntry.addFragment e := by
  induction frags generalizing e with
  | nil => rfl
  | cons frag rest ih =>
    by_cases empty : frag = []
    · have skipped : e.addFragment frag = e := by rw [LogEntry.addFragment, LogEntry.addFragmentWithId, if_pos empty]
      rw [List.foldl_cons, skipped, List.filter_cons_of_neg (by simpa using empty)]
      exact ih e
    · rw [List.foldl_cons, List.filter_cons_of_pos (by simpa using empty), List.foldl_cons]
      exact ih (e.addFragment frag)

theorem propose_lrc (leads : LeadsIn mode d.config s) (inside : command.startFragmentOffset ≤ command.commandData.length) :
    s.propose command = ({ s with lm := s.lm.appendLogEntry (stripedEntry d s command) },
      { proposeIndex := s.lm.lastLogEntryIndex + 1, proposeTerm := s.currentTerm, isLeader := true }) := by
  have grouper := d.layout.grouper_eq d.built
  have chosen : (if s.config.encodingMode = 2 then s.config.lrcGrouper else none) = some d.grouper := by
    rw [leads.config]
    change (if d.config.encodingMode = 2 then d.config.lrcGrouper else none) = some d.grouper
    rw [if_pos d.mode, d.given]
  have nonempty : ∀ frag ∈ (LrcEncoder.encodeStripe d.config.isal d.layout.params
      (command.commandData.drop command.startFragmentOffset)).filter fun frag => decide (frag ≠ []), frag ≠ [] :=
    fun frag member => of_decide_eq_true (List.mem_filter.mp member).2
  unfold propose
  rw [chosen]
  dsimp only
  rw [if_neg (Nat.not_lt.mpr inside), lrcStripe]
  have encode : d.grouper.encodeStripe (command.commandData.drop command.startFragmentOffset) =
      some (LrcEncoder.encodeStripe d.config.isal d.layout.params (command.commandData.drop command.startFragmentOffset)) := by
    rw [grouper]
  rw [encode]
  dsimp only [Option.map_some]
  rw [if_neg (not_not.mpr leads.leads), foldl_addFragment_filter, foldl_addFragment_eq nonempty _ rfl]
  have k : d.grouper.k = d.layout.params.k := by rw [grouper]
  have l : d.grouper.l = d.layout.params.l := by rw [grouper]
  have r : d.grouper.r = d.layout.params.r := by rw [grouper]
  rw [k, l, r]
  rfl

/-- The key size and the size of the value survive the casts, even where the offset has wrapped around. -/
theorem sizes_stripedEntry (proposed : cmd.proposal = some command) (keySize : cmd.userKey.length < UInt32.size)
    (valueSize : cmd.userValue.length < UInt32.size) :
    (stripedEntry d s command).chunkInfo.keySize = cmd.userKey.length ∧
      (stripedEntry d s command).chunkInfo.totalSize = cmd.userValue.length := by
  obtain ⟨bytes, offset, -⟩ := offset_le proposed
  have length := cmd.length_serialize
  have nonneg : ¬ cmd.valueOffset < 0 := by
    intro negative
    rw [StripeWriteCommand.proposal, if_pos negative] at proposed
    cases proposed
  have low : (29 + cmd.userKey.length) % UInt32.size < 2 ^ 31 := by
    have small : (29 + cmd.userKey.length) % UInt32.size < UInt32.size := Nat.mod_lt _ (by decide)
    simp only [StripeWriteCommand.valueOffset, intOfWord, UInt32.size] at nonneg small ⊢
    split at nonneg <;> omega
  have start : command.startFragmentOffset = (29 + cmd.userKey.length) % UInt32.size := by
    rw [offset, StripeWriteCommand.valueOffset, intOfWord, if_pos low, Int.toNat_natCast]
  simp only [stripedEntry]
  rw [start, bytes, length]
  simp only [UInt32.size] at keySize valueSize ⊢
  constructor <;> omega

theorem id_lt (leads : LeadsIn mode d.config s) : s.id < d.layout.n := d.size ▸ leads.member

theorem size_le : d.layout.n ≤ 32 := d.size ▸ d.config.size_le

theorem isLrcEncoded_stripedEntry (leads : LeadsIn mode d.config s) : (stripedEntry d s command).isLrcEncoded = true := by
  obtain ⟨_, _, two, _⟩ := LrcParams.fromCapacity_eq_some d.layout.derived
  have group : 0 ≤ d.grouper.lrcGroupIdForNode s.id := by
    rw [d.layout.grouper_eq d.built]
    exact d.layout.lrcGroupIdForNode_nonneg _ (id_lt d leads)
  simp [LogEntry.isLrcEncoded, ChunkInfo.isLrcEncoded, stripedEntry, group, two]

theorem words_stripedEntry (leads : LeadsIn mode d.config s) : (stripedEntry d s command).chunkInfo.Words := by
  obtain ⟨_, _, two, half, _, total⟩ := LrcParams.fromCapacity_eq_some d.layout.derived
  have size := size_le d
  unfold LrcParams.totalShards at total
  have small : ∀ n ≤ 64, n < UInt32.size := fun n bound => bound.trans_lt (by decide)
  have k : d.layout.params.k ≤ 64 := by omega
  have l : d.layout.params.l ≤ 64 := by omega
  have r : d.layout.params.r ≤ 64 := by omega
  have index : s.lm.lastLogEntryIndex + 1 < UInt32.size := leads.indexed.lastLogEntryIndex_eq ▸ leads.index
  have group : IsInt (d.grouper.lrcGroupIdForNode s.id) := by
    rw [d.layout.grouper_eq d.built]
    exact d.layout.isInt_lrcGroupIdForNode _ size s.id
  exact ⟨small _ k, index, small _ l, small _ r, group, Nat.mod_lt _ (by decide), Nat.mod_lt _ (by decide)⟩

/-- The fragments of the peer that the entry has. -/
def peerFragments (ent : LogEntry) (peer : Nat) : List Slice :=
  (d.grouper.fragmentsForNode peer).filterMap fun id => ent.fragments[id]?

section Sent

variable {t : RaftState} {index peer : Nat} {ent e : LogEntry}

theorem lrc_config (leads : LeadsIn mode d.config s) (same : t.config = s.config) :
    t.config.encodingMode = 2 ∧ t.config.lrcGrouper = some d.grouper := by
  rw [same, leads.config]
  exact ⟨d.mode, d.given⟩

theorem of_sentFor (leads : LeadsIn mode d.config s) (same : t.config = s.config) (member : peer ∈ s.peers)
    (atIndex : t.lm.getSingleLogEntry index = some ent) (filled : [] ∉ ent.fragments)
    (placement : ent.placement = d.grouper.nodePlacementsVector) (sent : t.SentFor index peer e) :
    peerFragments d ent peer ≠ [] ∧ ∃ ids, e = { keyOnlyEntry ent index with fragments := peerFragments d ent peer, fragIds := ids } := by
  obtain ⟨two, given⟩ := lrc_config d leads same
  cases sent with
  | fragment off =>
    rw [RaftConfig.lrcMode, given, two] at off
    cases off
  | proposed _ given' atIndex' new =>
    cases given'.symm.trans given
    cases atIndex'.symm.trans atIndex
    rw [newLrcEntry_eq (d.layout.fragmentsForNode_ascending d.built peer) filled] at new
    dsimp only at new
    split at new
    · cases new
    · rename_i some
      cases new
      exact ⟨some, _, rfl⟩
  | again _ entries =>
    have below : peer < d.layout.n := by
      change peer ∈ s.config.peers at member
      rw [leads.config] at member
      exact d.size ▸ (ClusterConfig.mem_serverConfig_peers.mp member).1
    rw [lrcEntriesFor_eq atIndex filled, lrcFragmentsFor_eq d.built placement below] at entries
    split at entries
    · cases entries
    · rename_i some
      cases entries
      exact ⟨some, _, rfl⟩

theorem sentFor_new (leads : LeadsIn mode d.config s) (same : t.config = s.config)
    (atIndex : t.lm.getSingleLogEntry index = some ent) (filled : [] ∉ ent.fragments) (some : peerFragments d ent peer ≠ []) :
    t.SentFor index peer { keyOnlyEntry ent index with
      fragments := peerFragments d ent peer
      fragIds := (d.grouper.fragmentsForNode peer).filter (· < ent.fragments.length) } := by
  obtain ⟨two, given⟩ := lrc_config d leads same
  refine SentFor.proposed two given atIndex ?_
  rw [newLrcEntry_eq (d.layout.fragmentsForNode_ascending d.built peer) filled]
  exact if_neg some

end Sent

section Striped

variable {peer : Nat}

theorem commandData_keyOnly (ent : LogEntry) (index : Nat) (frags : List Slice) (ids : List Nat) :
    ({ keyOnlyEntry ent index with fragments := frags, fragIds := ids } : LogEntry).commandData = keySlice ent := rfl

theorem notEncodedSlice_keyOnly (ent : LogEntry) (index : Nat) (frags : List Slice) (ids : List Nat) :
    ({ keyOnlyEntry ent index with fragments := frags, fragIds := ids } : LogEntry).notEncodedSlice = keySlice ent := rfl

theorem filled_stripedEntry (s : RaftState) (command : CommandData) : [] ∉ (stripedEntry d s command).fragments := by
  intro member
  simp [stripedEntry] at member

theorem length_of_mem_stripedEntry (sized : d.config.isal.Sized) {frag : Slice}
    (member : frag ∈ (stripedEntry d s command).fragments) :
    frag.length = (command.commandData.length - command.startFragmentOffset + d.layout.params.k - 1) / d.layout.params.k := by
  obtain ⟨_, _, two, _, split, _⟩ := LrcParams.fromCapacity_eq_some d.layout.derived
  have encoded := (List.mem_filter.mp member).1
  rw [LrcEncoder.length_of_mem_encodeStripe sized d.layout.k_pos (two ▸ split) encoded, Encoder.fragmentSize, List.length_drop]

theorem peerFragments_ne_nil (sized : d.config.isal.Sized) (below : peer < d.layout.n)
    (some : command.startFragmentOffset < command.commandData.length) :
    peerFragments d (stripedEntry d s command) peer ≠ [] := by
  obtain ⟨_, _, two, _, split, total⟩ := LrcParams.fromCapacity_eq_some d.layout.derived
  have k := d.layout.k_pos
  have all : (stripedEntry d s command).fragments = LrcEncoder.encodeStripe d.config.isal d.layout.params
      (command.commandData.drop command.startFragmentOffset) := by
    refine List.filter_eq_self.mpr fun frag member => decide_eq_true fun empty => ?_
    have size := LrcEncoder.length_of_mem_encodeStripe sized k (two ▸ split) member
    have data : command.commandData.drop command.startFragmentOffset ≠ [] := by
      rw [ne_eq, List.drop_eq_nil_iff]
      omega
    have positive := Encoder.fragmentSize_pos data k
    rw [empty, List.length_nil] at size
    omega
  have held : d.grouper.fragmentsForNode peer = Assignments.fragsOf d.layout.holders.zipIdx peer := by
    rw [d.layout.grouper_eq d.built]
    exact if_neg (Nat.not_le.mpr below)
  have count : (Assignments.fragsOf d.layout.holders.zipIdx peer).length = 2 := by
    rw [Assignments.length_fragsOf_zipIdx, d.layout.count_holders below]
  have inRange : (d.grouper.fragmentsForNode peer).filter (· < (stripedEntry d s command).fragments.length) =
      d.grouper.fragmentsForNode peer := by
    refine List.filter_eq_self.mpr fun id member => decide_eq_true ?_
    rw [held] at member
    rw [all, LrcEncoder.length_encodeStripe, total, ← d.layout.length_holders]
    exact (List.getElem?_eq_some_iff.mp (Assignments.mem_fragsOf_zipIdx.mp member)).1
  have length := filterMap_getElem?_length (d.grouper.fragmentsForNode peer) (stripedEntry d s command).fragments
  rw [inRange, held, count] at length
  intro none
  rw [peerFragments, held] at none
  rw [none] at length
  cases length

theorem keySlice_stripedEntry (proposed : cmd.proposal = some command) (keySize : cmd.userKey.length < UInt32.size)
    (valueSize : cmd.userValue.length < UInt32.size) (key : cmd.userKey ≠ []) :
    keySlice (stripedEntry d s command) = cmd.userKey := by
  obtain ⟨bytes, -, -⟩ := offset_le proposed
  obtain ⟨size, -⟩ := sizes_stripedEntry d (s := s) proposed keySize valueSize
  have commandData : (stripedEntry d s command).commandData = cmd.serialize := bytes
  have positive : 0 < cmd.userKey.length := List.length_pos_iff.mpr key
  have length := cmd.length_serialize
  have wraps : (21 + cmd.userKey.length) % UInt32.size ≤ 21 + cmd.userKey.length := Nat.mod_le _ _
  unfold keySlice
  rw [size, commandData, if_pos ⟨positive, by omega⟩, cmd.drop_header, List.take_left]

theorem sized_sent (leads : LeadsIn mode d.config s) (proposed : cmd.proposal = some command)
    (keySize : cmd.userKey.length < UInt32.size) (valueSize : cmd.userValue.length < UInt32.size) (key : cmd.userKey ≠ [])
    (peer index : Nat) (ids : List Nat) : ({ keyOnlyEntry (stripedEntry d s command) index with
      fragments := peerFragments d (stripedEntry d s command) peer, fragIds := ids } : LogEntry).Sized := by
  obtain ⟨bytes, -, -⟩ := offset_le proposed
  have length := cmd.length_serialize
  have slice := keySlice_stripedEntry d (s := s) proposed keySize valueSize key
  refine ⟨?_, show 0 < 2 ^ 64 by decide, ?_, fun frag member => ?_, ?_⟩
  · rw [notEncodedSlice_keyOnly, slice]
    exact keySize.trans (by decide)
  · have few : (d.grouper.fragmentsForNode peer).length ≤ 2 := by
      rw [d.layout.grouper_eq d.built]
      dsimp only
      split
      · exact Nat.zero_le 2
      · rename_i inside
        rw [Assignments.length_fragsOf_zipIdx, d.layout.count_holders (Nat.not_le.mp inside)]
    exact (List.length_filterMap_le _ _).trans_lt (few.trans_lt (by decide))
  · obtain ⟨id, -, found⟩ := List.mem_filterMap.mp member
    rw [length_of_mem_stripedEntry d leads.isal (List.mem_of_getElem? found), bytes, length]
    obtain ⟨_, _, _, half, _, _⟩ := LrcParams.fromCapacity_eq_some d.layout.derived
    have size := size_le d
    have bound : 29 + cmd.userKey.length + cmd.userValue.length - command.startFragmentOffset + d.layout.params.k - 1 < 2 ^ 64 := by
      simp only [UInt32.size] at keySize valueSize
      omega
    exact lt_of_le_of_lt (Nat.div_le_self _ _) bound
  · change d.grouper.nodePlacementsVector.length < UInt32.size
    rw [d.layout.grouper_eq d.built]
    exact d.layout.length_nodePlacementsVector_lt d.layout.buildNodeToFragmentsMapping_eq (size_le d)

theorem foundIn_accepted_iff (leads : LeadsIn mode d.config s) (proposed : cmd.proposal = some command)
    (keySize : cmd.userKey.length < UInt32.size) (valueSize : cmd.userValue.length < UInt32.size) (key : cmd.userKey ≠ [])
    {index : Nat} {ids : List Nat} {e' : LogEntry}
    (accepts : Serializer.Accepts { keyOnlyEntry (stripedEntry d s command) index with
      fragments := peerFragments d (stripedEntry d s command) peer, fragIds := ids } e') :
    cmd.FoundIn e' ↔ headerSkip cmd.userKey = 0 := by
  obtain ⟨size, total⟩ := sizes_stripedEntry d (s := s) proposed keySize valueSize
  have words : (stripedEntry d s command).chunkInfo.Words := words_stripedEntry d leads
  have sized := sized_sent d leads proposed keySize valueSize key peer index ids
  have encoded : (stripedEntry d s command).isLrcEncoded = true := isLrcEncoded_stripedEntry d leads
  have slice := keySlice_stripedEntry d (s := s) proposed keySize valueSize key
  rw [StripeWriteCommand.FoundIn, accepts.extractApplyMeta_eq words sized]
  exact foundIn_key_iff rfl encoded key ((commandData_keyOnly _ _ _ _).trans slice) size total

/-- A proposal in LRC mode is found everywhere if its key is not empty and either no peer takes it for a command or none
has an entry for it: nothing was encoded, or fragments too large for a peer to accept. -/
theorem foundEverywhere_iff (leads : LeadsIn mode d.config s) (proposed : cmd.proposal = some command)
    (keySize : cmd.userKey.length < UInt32.size) (valueSize : cmd.userValue.length < UInt32.size) :
    FoundEverywhere s cmd command ↔ cmd.userKey ≠ [] ∧ (headerSkip cmd.userKey = 0 ∨ cmd.encodedSize = 0 ∨
      16 * 1024 * 1024 < (cmd.encodedSize + d.layout.params.k - 1) / d.layout.params.k) := by
  obtain ⟨bytes, offset, inside⟩ := offset_le proposed
  obtain ⟨size, total⟩ := sizes_stripedEntry d (s := s) proposed keySize valueSize
  have place : (stripedEntry d s command).index = s.lm.lastLogEntryIndex + 1 := rfl
  have atIndex := leads.indexed.getSingleLogEntry_new place
  have encoded : (stripedEntry d s command).isLrcEncoded = true := isLrcEncoded_stripedEntry d leads
  have filled := filled_stripedEntry d s command
  have dataSize : command.commandData.length - command.startFragmentOffset = cmd.encodedSize := by
    rw [bytes, offset, StripeWriteCommand.encodedSize]
  have fragmentSize (peer : Nat) : ∀ frag ∈ peerFragments d (stripedEntry d s command) peer,
      frag.length = (cmd.encodedSize + d.layout.params.k - 1) / d.layout.params.k := by
    intro frag member
    obtain ⟨id, -, found⟩ := List.mem_filterMap.mp member
    rw [length_of_mem_stripedEntry d leads.isal (List.mem_of_getElem? found), dataSize]
  constructor
  · intro found
    obtain ⟨ent, stored, extracted⟩ := found.leader
    have followers := found.followers
    rw [propose_lrc d leads inside] at stored followers
    cases stored.symm.trans atIndex
    have key : cmd.userKey ≠ [] := (foundIn_command_iff rfl encoded bytes size total).mp extracted
    refine ⟨key, ?_⟩
    by_contra refuted
    obtain ⟨header, some, small⟩ : headerSkip cmd.userKey ≠ 0 ∧ cmd.encodedSize ≠ 0 ∧
        (cmd.encodedSize + d.layout.params.k - 1) / d.layout.params.k ≤ 16 * 1024 * 1024 := by
      simpa only [not_or, Nat.not_lt] using refuted
    -- some peer is sent an entry that it accepts
    obtain ⟨peer, member, below⟩ := leads.exists_peer
    have node : peer < d.layout.n := by
      change peer ∈ s.config.peers at member
      rw [leads.config] at member
      exact d.size ▸ (ClusterConfig.mem_serverConfig_peers.mp member).1
    have nonempty : peerFragments d (stripedEntry d s command) peer ≠ [] := peerFragments_ne_nil d leads.isal node (by omega)
    have sent := sentFor_new (t := { s with lm := s.lm.appendLogEntry (stripedEntry d s command) }) d leads rfl atIndex filled nonempty
    have sized := sized_sent d leads proposed keySize valueSize key peer (s.lm.lastLogEntryIndex + 1)
      ((d.grouper.fragmentsForNode peer).filter (· < (stripedEntry d s command).fragments.length))
    obtain ⟨e', accepts⟩ := (Serializer.exists_accepts_iff sized).mpr fun frag held => (fragmentSize peer frag held).trans_le small
    have extracts := followers peer member _ _ sent accepts
    exact header ((foundIn_accepted_iff d leads proposed keySize valueSize key accepts).mp extracts)
  · rintro ⟨key, reason⟩
    constructor
    · rw [propose_lrc d leads inside]
      exact ⟨_, atIndex, (foundIn_command_iff rfl encoded bytes size total).mpr key⟩
    · intro peer member e e' sent accepts
      rw [propose_lrc d leads inside] at sent
      obtain ⟨nonempty, ids, rfl⟩ := of_sentFor (t := { s with lm := s.lm.appendLogEntry (stripedEntry d s command) }) d leads rfl member atIndex filled rfl sent
      rw [foundIn_accepted_iff d leads proposed keySize valueSize key accepts]
      have sized := sized_sent d leads proposed keySize valueSize key peer (s.lm.lastLogEntryIndex + 1) ids
      have small := (Serializer.exists_accepts_iff sized).mp ⟨e', accepts⟩
      obtain ⟨frag, held⟩ := List.exists_mem_of_ne_nil _ nonempty
      have length := fragmentSize peer frag held
      have bound := small frag held
      rcases reason with plain | nothing | large
      · exact plain
      · obtain ⟨id, -, found⟩ := List.mem_filterMap.mp held
        have k := d.layout.k_pos
        rw [nothing, Nat.zero_add, Nat.div_eq_of_lt (by omega)] at length
        exact absurd (List.length_eq_zero_iff.mp length ▸ List.mem_of_getElem? found) filled
      · omega

end Striped

end Lrc

end LeadsIn

/-- What the bridge can recognise in LRC mode, with `k` data fragments. -/
structure StripeWriteCommand.Recognisable (cmd : StripeWriteCommand) (k : Nat) : Prop where
  key : cmd.userKey ≠ []
  offset : 0 ≤ cmd.valueOffset
  follower : headerSkip cmd.userKey = 0 ∨ cmd.encodedSize = 0 ∨ 16 * 1024 * 1024 < (cmd.encodedSize + k - 1) / k

/-- The bridge finds key and size on all servers exactly in LRC mode, for commands that it can recognise. -/
theorem found_everywhere_iff_recognisable (mode : EncodingMode) (c : ClusterConfig) (s : RaftState) (leads : LeadsIn mode c s)
    (cmd : StripeWriteCommand) (given : cmd.encodingMode = mode.word) (keySize : cmd.userKey.length < UInt32.size)
    (valueSize : cmd.userValue.length < UInt32.size) :
    (∃ command, cmd.proposal = some command ∧ FoundEverywhere s cmd command) ↔
      mode = .kLrc ∧ cmd.Recognisable (c.size / 2 + 1) := by
  by_cases lrc : mode = .kLrc
  · obtain ⟨d, rfl⟩ := leads.lrc lrc
    obtain ⟨_, _, _, half, _, _⟩ := LrcParams.fromCapacity_eq_some d.layout.derived
    rw [d.size, ← half]
    constructor
    · rintro ⟨command, proposed, found⟩
      obtain ⟨key, follower⟩ := (LeadsIn.foundEverywhere_iff d leads proposed keySize valueSize).mp found
      have offset : 0 ≤ cmd.valueOffset := by
        by_contra negative
        rw [StripeWriteCommand.proposal, if_pos (Int.not_le.mp negative)] at proposed
        cases proposed
      exact ⟨lrc, key, offset, follower⟩
    · rintro ⟨-, key, offset, follower⟩
      have proposed : cmd.proposal = some { startFragmentOffset := cmd.valueOffset.toNat, commandData := cmd.serialize } :=
        if_neg (Int.not_lt.mpr offset)
      exact ⟨_, proposed, (LeadsIn.foundEverywhere_iff d leads proposed keySize valueSize).mpr ⟨key, follower⟩⟩
  · constructor
    · rintro ⟨command, proposed, found⟩
      exact absurd found (leads.not_foundEverywhere lrc given keySize proposed)
    · rintro ⟨mode, -⟩
      exact absurd mode lrc

/-- Server 5 of six in LRC mode, as a leader without entries. -/
def leaderOfSix : RaftState :=
  { RaftState.newRaftState (sixServers.config.serverConfig 5) none {} (.zero 5) with role := .kLeader }

/-- Server 0 of three in the mode of the group, as a leader without entries. -/
def leaderOfThree : RaftState :=
  { RaftState.newRaftState ((ClusterConfig.threeServers 0).serverConfig 0) none {} (.zero 0) with role := .kLeader }

def putOfA (mode : EncodingMode) : StripeWriteCommand :=
  { groupId := 5, userKey := [97], userValue := [1, 2, 3, 4], encodingMode := mode.word }

theorem leadsIn_leaderOfSix : LeadsIn .kLrc sixServers.config leaderOfSix :=
  ⟨rfl, by decide, rfl, by decide, rfl, fun _ => ⟨sixServers, rfl⟩, xorIsal_sized, LogManager.indexed_nil, by decide⟩

theorem found_everywhere_iff_recognisable_leaderOfSix :
    ∃ command, (putOfA .kLrc).proposal = some command ∧ FoundEverywhere leaderOfSix (putOfA .kLrc) command := by
  have recognisable : (putOfA .kLrc).Recognisable (sixServers.config.size / 2 + 1) :=
    ⟨by decide, by decide, Or.inl (by decide)⟩
  exact (found_everywhere_iff_recognisable .kLrc sixServers.config leaderOfSix leadsIn_leaderOfSix (putOfA .kLrc) rfl (by decide)
    (by decide)).mpr ⟨rfl, recognisable⟩

/-- A key that begins like a command and is as long as the header of one. -/
def putOfHeader : StripeWriteCommand :=
  { putOfA .kLrc with userKey := kStripeMagic ++ List.replicate 17 0 }

/-- In the mode RS_F the leader finds an empty key and the size of the key, and in LRC mode peers miss a key that begins
like a command. -/
theorem apply_meta_missed : (∃ command, (putOfA .kRsF).proposal = some command ∧
      ((leaderOfThree.propose command).1.lm.getSingleLogEntry 1).bind extractApplyMeta = some ([], 1)) ∧
    (¬ ∃ command, (putOfA .kRsF).proposal = some command ∧ FoundEverywhere leaderOfThree (putOfA .kRsF) command) ∧
    ¬ ∃ command, putOfHeader.proposal = some command ∧ FoundEverywhere leaderOfSix putOfHeader command := by
  have three : LeadsIn .kRsF (ClusterConfig.threeServers 0) leaderOfThree :=
    ⟨rfl, by decide, rfl, by decide, rfl, fun lrc => (by cases lrc), xorIsal_sized, LogManager.indexed_nil, by decide⟩
  refine ⟨⟨⟨30, (putOfA .kRsF).serialize⟩, by decide, by decide⟩, ?_, ?_⟩
  · rintro ⟨command, proposed, found⟩
    exact three.not_foundEverywhere (by decide) rfl (by decide) proposed found
  · rintro ⟨command, proposed, found⟩
    obtain ⟨-, follower⟩ := (LeadsIn.foundEverywhere_iff sixServers leadsIn_leaderOfSix proposed (by decide) (by decide)).mp found
    revert follower
    decide

end FlexRaft
