import FlexRaft.Serializer
import FlexRaft.LrcPaths

namespace FlexRaft

/-- An `int`. -/
def IsInt (n : Int) : Prop := -2 ^ 31 ≤ n ∧ n < 2 ^ 31

instance (n : Int) : Decidable (IsInt n) := inferInstanceAs (Decidable (-2 ^ 31 ≤ n ∧ n < 2 ^ 31))

theorem intOfWord_word32 {n : Int} (bound : IsInt n) : intOfWord (word32 n) = n := by
  obtain ⟨low, high⟩ := bound
  unfold intOfWord word32
  split <;> omega

theorem EntryType.ofWord_word (type : EntryType) : ofWord type.word = type := by
  cases type <;> rfl

theorem FragmentKind.ofWord_word (kind : FragmentKind) : ofWord kind.word = kind := by
  cases kind <;> rfl

/-- The numbers of a chunk info are values of their C++ types. -/
structure ChunkInfo.Words (ci : ChunkInfo) : Prop where
  k : ci.k < UInt32.size
  raftIndex : ci.raftIndex < UInt32.size
  l : ci.l < UInt32.size
  r : ci.r < UInt32.size
  lrcGroupId : IsInt ci.lrcGroupId
  keySize : ci.keySize < UInt32.size
  totalSize : ci.totalSize < UInt32.size

/-- The numbers of an entry are values of their C++ types, and each fragment has an id. -/
structure LogEntry.WireFits (e : LogEntry) : Prop where
  term : e.term < UInt32.size
  index : e.index < UInt32.size
  k : e.chunkInfo.k < UInt32.size
  raftIndex : e.chunkInfo.raftIndex < UInt32.size
  l : e.chunkInfo.l < UInt32.size
  r : e.chunkInfo.r < UInt32.size
  lrcGroupId : IsInt e.chunkInfo.lrcGroupId
  keySize : e.chunkInfo.keySize < UInt32.size
  totalSize : e.chunkInfo.totalSize < UInt32.size
  startOffset : IsInt e.startOffset
  commandSize : IsInt e.commandSize
  notEncoded : e.notEncodedSlice.length < 2 ^ 64
  fragment : e.fragmentSlice.length < 2 ^ 64
  commandBytes : e.commandDataField.length < 2 ^ 64
  notEncodedBytes : e.notEncodedField.length < 2 ^ 64
  fragmentBytes : e.fragmentField.length < 2 ^ 64
  fragments : e.fragments.length < UInt32.size
  fragIds : ∀ id ∈ e.fragIds, IsInt id
  numbered : e.fragIds.length = e.fragments.length
  placements : e.placement.length < UInt32.size
  placement : ∀ fp ∈ e.placement, IsInt fp.fragId ∧ IsInt fp.localGroup ∧ IsInt fp.nodeId

theorem LogEntry.WireFits.words {e : LogEntry} (fits : e.WireFits) : e.chunkInfo.Words :=
  ⟨fits.k, fits.raftIndex, fits.l, fits.r, fits.lrcGroupId, fits.keySize, fits.totalSize⟩

namespace Serializer

open ByteReader

section Parts

variable {fault : ParseFault} {n : Nat} {slice : Slice} {address : Nat}

theorem reads32 (bound : n < UInt32.size) : Reads (number fault 4) (encodeFixed32 n) n := Reads.number bound

theorem IsInt.word_lt (bound : IsInt n) : n < UInt32.size := by
  have high := bound.2
  simp only [UInt32.size]
  omega

theorem readsInt (bound : IsInt n) : Reads (number fault 4) (encodeFixed32 n) n := reads32 (IsInt.word_lt bound)

theorem reads64 (bound : n < 2 ^ 64) : Reads (number fault 8) (encodeFixed64 n) n := Reads.number bound

theorem reads_chunkInfo {ci : ChunkInfo} (words : ci.Words) : Reads readChunkInfo (serializeChunkInfo ci) ci := by
  have whole : Reads readChunkInfo (serializeChunkInfo ci) { ci with lrcGroupId := intOfWord (word32 ci.lrcGroupId) } := by
    simp only [serializeChunkInfo, List.append_assoc]
    exact (reads32 words.k).bind ((reads32 words.raftIndex).bind ((reads32 words.l).bind ((reads32 words.r).bind
      ((reads32 (word32_lt _)).bind ((reads32 words.keySize).bind (reads32 words.totalSize).last)))))
  rwa [intOfWord_word32 words.lrcGroupId] at whole

/-- The part of an entry that the decoders copy. -/
def scalarsOf (e : LogEntry) : LogEntry :=
  { term := e.term
    index := e.index
    type := e.type
    chunkInfo := e.chunkInfo
    startOffset := e.startOffset
    commandSize := e.commandSize }

theorem reads_scalars {e : LogEntry} (fits : e.WireFits) : Reads readScalars (scalarImage e) (scalarsOf e) := by
  have type : e.type.word < UInt32.size := by cases e.type <;> decide
  have whole : Reads readScalars (scalarImage e) { scalarsOf e with type := .ofWord e.type.word } := by
    simp only [scalarImage, List.append_assoc]
    exact (reads32 fits.term).bind ((reads32 fits.index).bind ((reads32 type).bind ((reads_chunkInfo fits.words).bind
      ((readsInt fits.startOffset).bind (readsInt fits.commandSize).last))))
  rwa [EntryType.ofWord_word] at whole

theorem reads_slice (size : slice.length < 2 ^ 64) :
    Reads (parsePrefixLengthSlice fault) (putPrefixLengthSlice slice) slice :=
  (reads64 size).bind (Reads.block slice)

theorem reads_slice_bounded (size : slice.length < 2 ^ 64) :
    Reads parsePrefixLengthSliceWithBound (putPrefixLengthSlice slice) slice :=
  (reads64 size).bind (Reads.block slice)

theorem reads_fragment {frag : Nat × Slice} (id : frag.1 < UInt32.size) (size : frag.2.length ≤ 16 * 1024 * 1024) :
    Reads (readFragment fault) (fragmentBytes frag) frag := by
  have small : decide (16 * 1024 * 1024 < frag.2.length) = false := decide_eq_false (Nat.not_lt.mpr size)
  have bound : frag.2.length < 2 ^ 64 := Nat.lt_of_le_of_lt size (by decide)
  refine (reads32 id).bind ((reads64 bound).bind ?_)
  exact (Reads.refuseIf small).bind (Reads.block frag.2).last

theorem reads_placement {fp : FragmentPlacement} (fits : IsInt fp.fragId ∧ IsInt fp.localGroup ∧ IsInt fp.nodeId) :
    Reads readPlacement (placementBytes fp) fp := by
  obtain ⟨fragId, localGroup, nodeId⟩ := fits
  have whole : Reads readPlacement (placementBytes fp)
      { fp with localGroup := intOfWord (word32 fp.localGroup), kind := .ofWord fp.kind.word } := by
    simp only [placementBytes]
    exact (readsInt fragId).bind ((reads32 (word32_lt _)).bind ((readsInt nodeId).bind (reads32 fp.kind.word_lt).last))
  rwa [intOfWord_word32 localGroup, FragmentKind.ofWord_word] at whole

theorem reads_sliceImage (held : address < 2 ^ 64 ∧ (address = 0 ↔ slice = []))
    (size : slice.length < 2 ^ 64) : Reads readSliceImage (sliceImage address slice) (decide (slice ≠ [])) := by
  have owned : (if slice = [] then 0 else 1) < 2 ^ 64 := by split <;> decide
  have whole : Reads readSliceImage (sliceImage address slice)
      (decide (address ≠ 0 ∧ 0 < slice.length ∧ (if slice = [] then 0 else 1) % 256 ≠ 0)) := by
    exact (reads64 held.1).bind ((reads64 size).bind (reads64 owned).last)
  have same : (address ≠ 0 ∧ 0 < slice.length ∧ (if slice = [] then 0 else 1) % 256 ≠ 0) ↔ slice ≠ [] := by
    by_cases empty : slice = []
    · simp [empty]
    · simp [empty, held.2, List.length_pos_iff]
  rwa [decide_eq_decide.mpr same] at whole

theorem reads_vectorImage {α : Type} {size : Nat} {items : List α} [DecidableEq α]
    (held : address + size < 2 ^ 64 ∧ (address = 0 ↔ items = [])) :
    Reads readVectorImage (vectorImage address size) (decide (items ≠ [])) := by
  have whole : Reads readVectorImage (vectorImage address size) (decide (address ≠ 0)) := by
    exact (reads64 (Nat.lt_of_le_of_lt (Nat.le_add_right _ _) held.1)).bind ((reads64 held.1).bind (reads64 held.1).last)
  rwa [decide_eq_decide.mpr (not_congr held.2)] at whole

end Parts

end Serializer

/-- An entry that refers to no memory: it has neither bytes nor fragments nor placements. -/
def LogEntry.Bare (e : LogEntry) : Prop :=
  e.commandDataField = [] ∧ e.notEncodedField = [] ∧ e.fragmentField = [] ∧ e.fragments = [] ∧ e.fragIds = [] ∧
    e.placement = []

namespace Serializer

open ByteReader

variable {m : EntryMemory} {e : LogEntry}

theorem reads_memory (held : m.Holds e) (fits : e.WireFits) : ∃ refers,
    Reads readMemoryImage (memoryImage m e) refers ∧ (refers = false ↔ e.Bare) := by
  refine ⟨decide (e.commandDataField ≠ []) || decide (e.notEncodedField ≠ []) || decide (e.fragmentField ≠ []) ||
    decide (e.fragments ≠ []) || decide (e.fragIds ≠ []) || decide (e.placement ≠ []), ?_, ?_⟩
  · simp only [memoryImage, List.append_assoc]
    exact (reads_sliceImage held.commandData fits.commandBytes).bind
      ((reads_sliceImage held.notEncoded fits.notEncodedBytes).bind ((reads_sliceImage held.fragment fits.fragmentBytes).bind
        ((reads_vectorImage held.fragments).bind ((reads_vectorImage held.fragIds).bind
          (reads_vectorImage held.placement).last))))
  · simp only [Bool.or_eq_false_iff, decide_eq_false_iff_not, not_not, LogEntry.Bare, and_assoc]

theorem length_encodeFixed32 (n : Nat) : (encodeFixed32 n).length = 4 := LittleEndian.length_encode 4 n

theorem length_encodeFixed64 (n : Nat) : (encodeFixed64 n).length = 8 := LittleEndian.length_encode 8 n

theorem length_head : (scalarImage e).length + (memoryImage m e).length = headSize := by
  simp only [scalarImage, memoryImage, serializeChunkInfo, sliceImage, vectorImage, List.length_append,
    length_encodeFixed32, length_encodeFixed64, headSize]

/-- The entry that comes out of the bytes of `e`. -/
def received (e : LogEntry) : LogEntry :=
  finishEntry (scalarsOf e) e.notEncodedSlice e.fragmentSlice (numberedFragments e) e.placement

theorem mem_numberedFragments (fits : e.WireFits) {frag : Nat × Slice} (member : frag ∈ numberedFragments e) :
    IsInt frag.1 ∧ frag.2 ∈ e.fragments := by
  obtain ⟨⟨slice, i⟩, inside, rfl⟩ := List.mem_map.mp member
  have place : e.fragments[i]? = some slice := List.mem_zipIdx_iff_getElem?.mp inside
  have bound : i < e.fragIds.length := by
    rw [fits.numbered]
    exact (List.getElem?_eq_some_iff.mp place).1
  refine ⟨?_, List.mem_of_getElem? place⟩
  dsimp only
  rw [List.getElem?_eq_getElem bound, Option.getD_some]
  exact fits.fragIds _ (List.getElem_mem bound)

section Tail

variable (fits : e.WireFits) (sizes : ∀ frag ∈ e.fragments, frag.length ≤ 16 * 1024 * 1024)
include fits sizes

theorem reads_fragments (fault : ParseFault) : Reads (times (readFragment fault) e.fragments.length)
    ((numberedFragments e).flatMap fragmentBytes) (numberedFragments e) := by
  have each : ∀ frag ∈ numberedFragments e, Reads (readFragment fault) (fragmentBytes frag) frag := fun frag member =>
    reads_fragment (IsInt.word_lt (mem_numberedFragments fits member).1) (sizes _ (mem_numberedFragments fits member).2)
  have whole := Reads.times each
  rwa [List.map_id', numberedFragments, List.length_map, List.length_zipIdx] at whole

theorem reads_withbound (held : m.Holds e) :
    Reads deserializeLogentryWithbound (serializeLogentry m e) (received e) := by
  obtain ⟨refers, memory, _⟩ := reads_memory held fits
  have placements : Reads (times (do need .refused 16; readPlacement) e.placement.length)
      (e.placement.flatMap placementBytes) (e.placement.map id) := by
    refine Reads.times fun fp member => Reads.need ?_ (reads_placement (fits.placement fp member))
    exact le_rfl
  rw [List.map_id] at placements
  refine Reads.need ?_ ?_
  · have head : (scalarImage e).length + (memoryImage m e).length = headSize := length_head
    simp only [serializeLogentry, List.length_append]
    omega
  · simp only [serializeLogentry, List.append_assoc]
    exact (reads_scalars fits).bind (memory.bind ((reads_slice_bounded fits.notEncoded).bind ((reads_slice_bounded fits.fragment).bind
      ((reads32 fits.fragments).bind ((reads_fragments fits sizes _).bind ((reads32 fits.placements).bind
        placements.last))))))

/-- The other decoder does the same for an entry that refers to no memory. -/
theorem reads_helper (held : m.Holds e) (bare : e.Bare) :
    Reads deserializeLogentryHelper (serializeLogentry m e) (received e) := by
  obtain ⟨refers, memory, isBare⟩ := reads_memory held fits
  have ⟨_, _, _, noFragments, _, noPlacement⟩ := bare
  have frags := reads_fragments fits sizes .overrun
  have fragCount : min e.fragments.length 1024 = e.fragments.length := by simp [noFragments]
  have placementCount : min e.placement.length 256 = e.placement.length := by simp [noPlacement]
  have placements : Reads (times readPlacement e.placement.length) (e.placement.flatMap placementBytes)
      (e.placement.map id) := Reads.times fun fp member => reads_placement (fits.placement fp member)
  rw [List.map_id] at placements
  rw [← fragCount] at frags
  rw [← placementCount] at placements
  simp only [serializeLogentry, List.append_assoc]
  exact (reads_scalars fits).bind (memory.bind ((Reads.refuseIf (isBare.mpr bare)).bind ((reads_slice fits.notEncoded).bind
    ((reads_slice fits.fragment).bind ((reads32 fits.fragments).bind (frags.bind ((reads32 fits.placements).bind
      placements.last)))))))

end Tail

/-- What a receiver can ask of an entry. -/
structure SameEntry (e e' : LogEntry) : Prop where
  index : e'.index = e.index
  term : e'.term = e.term
  type : e'.type = e.type
  chunkInfo : e'.chunkInfo = e.chunkInfo
  startOffset : e'.startOffset = e.startOffset
  commandLength : e'.commandSize = e.commandSize
  commandData : e'.commandData = e.commandData
  notEncoded : e'.notEncodedSlice = e.notEncodedSlice
  fragment : e'.fragmentSlice = e.fragmentSlice
  fragments : e'.fragments = e.fragments
  fragIds : e'.fragIds = e.fragIds
  placement : e'.placement = e.placement

/-- What the setters of the receiver leave as it was. -/
structure Carried (e : LogEntry) : Prop where
  commandLength : e.type = .kNormal → e.commandSize = e.commandData.length
  count : e.fragments.length ≤ 256
  sizes : ∀ frag ∈ e.fragments, frag.length < 1024 * 1024

theorem map_snd_numberedFragments : (numberedFragments e).map Prod.snd = e.fragments := by
  rw [numberedFragments, List.map_map]
  exact List.zipIdx_map_fst 0 e.fragments

theorem map_fst_numberedFragments (fits : e.WireFits) : (numberedFragments e).map Prod.fst = e.fragIds := by
  refine List.ext_getElem (by simp [numberedFragments, fits.numbered]) fun i inside inside' => ?_
  simp [numberedFragments, List.getElem?_eq_getElem inside']

theorem kept_fragments {frags : List Slice} (count : frags.length ≤ 256) (sizes : ∀ frag ∈ frags, frag.length < 1024 * 1024) :
    ((frags.take 256).map fun frag => if frag.length < 1024 * 1024 then frag else []) = frags := by
  rw [List.take_of_length_le count]
  refine (List.map_congr_left fun frag member => ?_).trans (List.map_id _)
  exact if_pos (sizes frag member)

/-- The numbers as they were, the slices again as slices, the fragments as `SetFragments` keeps them. -/
theorem received_eq (fits : e.WireFits) : received e = { scalarsOf e with
      commandSize := if e.type = .kNormal then e.notEncodedSlice.length else e.commandSize
      commandDataField := if e.type = .kNormal then e.notEncodedSlice else []
      notEncodedField := e.notEncodedSlice
      fragmentField := e.fragmentSlice
      fragments := (e.fragments.take 256).map fun frag => if frag.length < 1024 * 1024 then frag else []
      fragIds := e.fragIds
      placement := e.placement } := by
  unfold received finishEntry
  rw [map_snd_numberedFragments, map_fst_numberedFragments fits]
  cases normal : e.type <;> simp [scalarsOf, normal, LogEntry.setNotEncodedSlice, LogEntry.setFragmentSlice,
    LogEntry.setCommandData, LogEntry.setFragments, LogEntry.setFragIds, LogEntry.setPlacement]

theorem received_same (fits : e.WireFits) (carried : Carried e) : SameEntry e (received e) := by
  rw [received_eq fits, kept_fragments carried.count carried.sizes]
  cases normal : e.type with
  | kNormal =>
    have size := carried.commandLength normal
    constructor <;> simp [scalarsOf, normal, LogEntry.commandData, LogEntry.notEncodedSlice, LogEntry.fragmentSlice]
    simpa [LogEntry.commandData, normal] using size.symm
  | kFragments =>
    constructor <;> simp [scalarsOf, normal, LogEntry.commandData, LogEntry.notEncodedSlice, LogEntry.fragmentSlice]

theorem length_putPrefixLengthSlice (slice : Slice) : (putPrefixLengthSlice slice).length = 8 + slice.length := by
  rw [putPrefixLengthSlice, List.length_append, length_encodeFixed64]

theorem length_fragmentBytes :
    ((numberedFragments e).flatMap fragmentBytes).length = (e.fragments.map fun frag => 12 + frag.length).sum := by
  have size : ∀ frag, (fragmentBytes frag).length = 12 + frag.2.length := fun frag => by
    rw [fragmentBytes, List.length_append, length_encodeFixed32, length_putPrefixLengthSlice]
    omega
  have sizes : (numberedFragments e).map (fun frag => (fragmentBytes frag).length) =
      ((numberedFragments e).map Prod.snd).map fun frag => 12 + frag.length := by
    rw [List.map_map]
    exact List.map_congr_left fun frag _ => size frag
  rw [List.length_flatMap, sizes, map_snd_numberedFragments]

theorem length_placementBytes : (e.placement.flatMap placementBytes).length = 16 * e.placement.length := by
  have size : ∀ fp, (placementBytes fp).length = 16 := fun fp => by
    simp only [placementBytes, List.length_append, length_encodeFixed32]
  induction e.placement with
  | nil => rfl
  | cons fp rest ih =>
    rw [List.flatMap_cons, List.length_append, size, ih, List.length_cons]
    omega

/-- An entry fits into the bytes that the sender sets aside for it. -/
theorem length_serializeLogentry_le : (serializeLogentry m e).length ≤ logentrySize e := by
  have head : (scalarImage e).length + (memoryImage m e).length = headSize := length_head
  have whole : (serializeLogentry m e).length = headSize + e.notEncodedSlice.length + e.fragmentSlice.length + 16 +
      4 + (e.fragments.map fun frag => 12 + frag.length).sum + 4 + 16 * e.placement.length := by
    simp only [serializeLogentry, List.length_append, length_putPrefixLengthSlice, length_encodeFixed32,
      length_fragmentBytes, length_placementBytes]
    omega
  rw [whole, logentrySize]
  omega

end Serializer

/-- The numbers in front of the entries are values of their C++ types. -/
structure AppendEntriesArgs.HeaderFits (args : AppendEntriesArgs) : Prop where
  term : args.term < UInt32.size
  groupId : args.groupId < UInt32.size
  leaderId : args.leaderId < UInt32.size
  prevLogIndex : args.prevLogIndex < UInt32.size
  prevLogTerm : args.prevLogTerm < UInt32.size
  prevK : args.prevK < UInt32.size
  leaderCommit : args.leaderCommit < UInt32.size
  entryCnt : args.entryCnt < 2 ^ 64

namespace Serializer

variable {args : AppendEntriesArgs}

open ByteReader

theorem reads_header (fits : args.HeaderFits) :
    Reads readAppendEntriesHeader (appendEntriesHeader args) { args with entries := [] } := by
  simp only [appendEntriesHeader, List.append_assoc]
  exact (reads32 fits.term).bind ((reads32 fits.groupId).bind ((reads32 fits.leaderId).bind
    ((reads32 fits.prevLogIndex).bind ((reads32 fits.prevLogTerm).bind ((reads32 fits.prevK).bind
      ((reads32 fits.leaderCommit).bind ((reads32 (by decide)).bind (reads64 fits.entryCnt).last)))))))

theorem readEntries_of_reads {α : Type} {write : α → Slice} {of : α → LogEntry} {items : List α}
    (each : ∀ item ∈ items, Reads deserializeLogentryWithbound (write item) (of item)) (rest : Slice) :
    readEntries items.length (items.flatMap write ++ rest) = .ok (items.map of) := by
  induction items with
  | nil => rfl
  | cons item items ih =>
    obtain ⟨here, later⟩ := List.forall_mem_cons.mp each
    rw [List.flatMap_cons, List.append_assoc, List.length_cons, readEntries, here (items.flatMap write ++ rest)]
    change (readEntries items.length (items.flatMap write ++ rest)).map _ = _
    rw [ih later]
    rfl

theorem length_entries_le (memory : Nat → EntryMemory) (items : List LogEntry) (start : Nat) :
    ((items.zipIdx start).flatMap fun p => serializeLogentry (memory p.2) p.1).length ≤ (items.map logentrySize).sum := by
  induction items generalizing start with
  | nil => exact le_rfl
  | cons e rest ih =>
    have here : (serializeLogentry (memory start) e).length ≤ logentrySize e := length_serializeLogentry_le
    rw [List.zipIdx_cons, List.flatMap_cons, List.length_append, List.map_cons, List.sum_cons]
    exact Nat.add_le_add here (ih (start + 1))

/-- The bytes of a request are within the buffer of the sender. -/
theorem length_serializeAppendEntries_le (memory : Nat → EntryMemory) (args : AppendEntriesArgs) :
    (serializeAppendEntries memory args).length ≤ appendEntriesSize args := by
  have header : (appendEntriesHeader args).length = 40 := by
    simp only [appendEntriesHeader, List.length_append, length_encodeFixed32, length_encodeFixed64]
  have total : (serializeAppendEntries memory args).length ≤ 40 + (args.entries.map logentrySize).sum := by
    rw [serializeAppendEntries, List.length_append, header]
    exact Nat.add_le_add_left (length_entries_le memory args.entries 0) 40
  rw [appendEntriesSize]
  omega

/-- A request is read back with the entries that come out of the bytes of its own. -/
theorem deserialize_serialize {memory : Nat → EntryMemory} (header : args.HeaderFits)
    (count : args.entryCnt = args.entries.length) (typed : ∀ e ∈ args.entries, e.WireFits)
    (held : ∀ i e, args.entries[i]? = some e → (memory i).Holds e)
    (sizes : ∀ e ∈ args.entries, ∀ frag ∈ e.fragments, frag.length ≤ 16 * 1024 * 1024) (padding : Slice) :
    deserializeAppendEntries (serializeAppendEntries memory args ++ padding) =
      .ok { args with entries := args.entries.map received } := by
  have each : ∀ item ∈ args.entries.zipIdx, Reads deserializeLogentryWithbound
      (serializeLogentry (memory item.2) item.1) (received item.1) := by
    rintro ⟨e, i⟩ member
    have at_i : args.entries[i]? = some e := List.mem_zipIdx_iff_getElem?.mp member
    have inside := List.mem_of_getElem? at_i
    exact reads_withbound (typed e inside) (sizes e inside) (held i e at_i)
  have entries := readEntries_of_reads each padding
  rw [List.length_zipIdx, ← count] at entries
  have items : args.entries.zipIdx.map (fun item => received item.1) = args.entries.map received := by
    have composed : args.entries.zipIdx.map (received ∘ Prod.fst) = (args.entries.zipIdx.map Prod.fst).map received :=
      List.map_map.symm
    rwa [List.zipIdx_map_fst] at composed
  rw [items] at entries
  unfold deserializeAppendEntries serializeAppendEntries
  rw [List.append_assoc, reads_header header]
  change (readEntries args.entryCnt _ >>= _) = _
  rw [entries]
  rfl

theorem Carried.sizes_le (carried : Carried e) : ∀ frag ∈ e.fragments, frag.length ≤ 16 * 1024 * 1024 :=
  fun frag member => Nat.le_trans (Nat.le_of_lt (carried.sizes frag member)) (by decide)

/-- What server 5 sends to server 1 of the put `fourBytes`: the key and the fragments 1 and 7. -/
def sentToOne : LogEntry :=
  ((RaftState.newLrcEntry sixServers.grouper ((LrcCluster.proposedLog.getSingleLogEntry 1).getD {}) 1 1)).getD {}

def sentMemory : EntryMemory :=
  { commandData := 4096, notEncoded := 0, fragment := 0, fragments := 8192, fragIds := 12288, placement := 16384 }

end Serializer

end FlexRaft
