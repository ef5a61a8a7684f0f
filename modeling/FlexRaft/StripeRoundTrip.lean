import FlexRaft.ApplyPayload
import FlexRaft.Lib.WordReader

namespace FlexRaft

variable {e : LogEntry} {userKey : Slice} {originalSize : Nat}

open WordReader

section Readers

variable {n : Nat} {rest : Slice}

theorem takes_readU64 (bound : n < 2 ^ 64) : Takes readU64 (appendU64 n) n := by
  have size : (appendU64 n).length = 8 := LittleEndian.length_encode 8 n
  constructor
  · intro rest
    rw [readU64, if_neg (by simp [size]), List.take_left' size, List.drop_left' size, appendU64,
      LittleEndian.decode_encode_of_lt bound]
  · intro short missing split left
    have some : 0 < missing.length := List.length_pos_iff.mpr left
    have total : short.length + missing.length = 8 := by rw [← List.length_append, split, size]
    exact if_pos (by omega)

theorem takes_readU32 (bound : n < UInt32.size) : Takes readU32 (appendU32 n) n := by
  have wide : n % UInt32.size < 2 ^ 64 := (Nat.mod_lt n (by decide)).trans (by decide)
  have whole := takes_readU64 wide
  constructor
  · intro rest
    rw [readU32, appendU32, ← appendU64, whole.reads, Option.map_some]
    dsimp only
    rw [Nat.mod_mod, Nat.mod_eq_of_lt bound]
  · intro short missing split left
    rw [readU32, whole.refuses short missing split left, Option.map_none]

theorem takes_readBytes (bytes : Slice) : Takes (readBytes bytes.length) bytes bytes := by
  constructor
  · intro rest
    rw [readBytes, if_neg (by simp), List.take_left, List.drop_left]
  · intro short missing split left
    have some : 0 < missing.length := List.length_pos_iff.mpr left
    have total : short.length + missing.length = bytes.length := by rw [← List.length_append, split]
    exact if_pos (by omega)

@[simp] theorem length_encodeFixed32 (n : Nat) : (encodeFixed32 n).length = 4 := LittleEndian.length_encode 4 n

theorem decodeFixed32_append_mod (n : Nat) (rest : Slice) : decodeFixed32 (encodeFixed32 n ++ rest) = n % UInt32.size := by
  rw [decodeFixed32, List.take_left' (length_encodeFixed32 n), encodeFixed32, LittleEndian.decode_encode]
  rfl

theorem decodeFixed32_append (bound : n < UInt32.size) (rest : Slice) : decodeFixed32 (encodeFixed32 n ++ rest) = n := by
  rw [decodeFixed32_append_mod, Nat.mod_eq_of_lt bound]

theorem decodeFixed32_lt (src : Slice) : decodeFixed32 src < UInt32.size := by
  have size : (src.take 4).length ≤ 4 := List.length_take_le 4 src
  exact (LittleEndian.decode_lt _).trans_le (Nat.pow_le_pow_right (by decide) size)

@[simp] theorem drop_encodeFixed32 (n : Nat) (rest : Slice) : (encodeFixed32 n ++ rest).drop 4 = rest :=
  List.drop_left' (length_encodeFixed32 n)

theorem decodeFixed64_encode (bound : n < 2 ^ 64) : decodeFixed64 (encodeFixed64 n) = n := by
  rw [decodeFixed64, encodeFixed64, List.take_of_length_le (LittleEndian.length_encode 8 n).le,
    LittleEndian.decode_encode_of_lt bound]

end Readers

/-- Every number fits the field it is written to. -/
structure StripePlacement.Fits (fp : StripePlacement) : Prop where
  fragId : fp.fragId < UInt32.size
  localGroup : fp.localGroup < UInt32.size
  nodeId : fp.nodeId < UInt32.size
  kind : fp.kind < UInt32.size

theorem StripePlacement.takes_read {fp : StripePlacement} (fits : fp.Fits) : Takes read fp.serialize fp := by
  have layout : fp.serialize = appendU32 fp.fragId ++ (appendU32 fp.kind ++ (appendU32 fp.localGroup ++
      (appendU32 fp.nodeId ++ []))) := by
    simp [serialize]
  rw [layout]
  refine .of_bind (takes_readU32 fits.fragId) ?_
  refine .of_bind (takes_readU32 fits.kind) ?_
  refine .of_bind (takes_readU32 fits.localGroup) ?_
  refine .of_bind (takes_readU32 fits.nodeId) ?_
  exact .nil _

theorem StripePlacement.consumes_readList {placement : List StripePlacement} (fits : ∀ fp ∈ placement, fp.Fits) :
    Consumes (readList placement.length) (placement.flatMap serialize) fun _ => some placement := by
  induction placement with
  | nil => exact .nil _
  | cons fp rest ih =>
    obtain ⟨here, later⟩ := List.forall_mem_cons.mp fits
    refine .of_bind (takes_read here) ?_
    exact (ih later).map (fp :: ·)

structure StripeLogMeta.Fits (stripe : StripeLogMeta) : Prop where
  userKey : stripe.userKey.length < UInt32.size
  stripeId : stripe.stripeId < 2 ^ 64
  entryId : stripe.entryId < 2 ^ 64
  groupId : stripe.groupId < UInt32.size
  originalSize : stripe.originalSize < UInt32.size
  encodingMode : stripe.encodingMode < 256
  k : stripe.k < UInt32.size
  l : stripe.l < UInt32.size
  r : stripe.r < UInt32.size
  m : stripe.m < UInt32.size
  count : stripe.placement.length < UInt32.size
  placement : ∀ fp ∈ stripe.placement, fp.Fits

theorem bind_of_read {α β : Type} {x : Option α} {a : α} {f : α → Option β} {b : β} (read : x = some a)
    (later : f a = some b) : (x >>= f) = some b := by
  rw [read]
  exact later

theorem StripeLogMeta.consumes_deserialize {stripe : StripeLogMeta} (fits : stripe.Fits) :
    Consumes deserialize stripe.serialize fun _ => some stripe := by
  have byte : LittleEndian.decode [UInt8.ofNat stripe.encodingMode] = stripe.encodingMode := by
    simp [LittleEndian.decode, Nat.mod_eq_of_lt fits.encodingMode]
  have layout : stripe.serialize = appendU32 stripe.userKey.length ++ (stripe.userKey ++ (appendU64 stripe.stripeId ++
      (appendU64 stripe.entryId ++ (appendU32 stripe.groupId ++ (appendU32 stripe.originalSize ++
      ([UInt8.ofNat stripe.encodingMode] ++ (appendU32 stripe.k ++ (appendU32 stripe.l ++ (appendU32 stripe.r ++
      (appendU32 stripe.m ++ (appendU32 stripe.placement.length ++
        stripe.placement.flatMap StripePlacement.serialize))))))))))) := by
    simp [serialize]
  rw [layout]
  refine .of_bind (takes_readU32 fits.userKey) ?_
  refine .of_bind (takes_readBytes _) ?_
  refine .of_bind (takes_readU64 fits.stripeId) ?_
  refine .of_bind (takes_readU64 fits.entryId) ?_
  refine .of_bind (takes_readU32 fits.groupId) ?_
  refine .of_bind (takes_readU32 fits.originalSize) ?_
  refine .of_bind (takes_readBytes [_]) ?_
  refine .of_bind (takes_readU32 fits.k) ?_
  refine .of_bind (takes_readU32 fits.l) ?_
  refine .of_bind (takes_readU32 fits.r) ?_
  refine .of_bind (takes_readU32 fits.m) ?_
  refine .of_bind (takes_readU32 fits.count) ?_
  have placed := (StripePlacement.consumes_readList fits.placement).map fun placement =>
    { stripe with encodingMode := LittleEndian.decode [UInt8.ofNat stripe.encodingMode], placement := placement }
  rw [byte] at placed
  rw [byte]
  exact placed

theorem StripeLogMeta.deserialize_serialize {stripe : StripeLogMeta} (fits : stripe.Fits) :
    deserialize stripe.serialize = some stripe :=
  ((consumes_deserialize fits).recovers rfl).reads

/-- A placement as it is written to the metadata. -/
def FragmentPlacement.toWords (fp : FragmentPlacement) : StripePlacement :=
  { fragId := fp.fragId, localGroup := word32 fp.localGroup, nodeId := fp.nodeId, kind := fp.kind.word }

theorem word32_lt (n : Int) : word32 n < UInt32.size := by
  have bound : n % 2 ^ 32 < 2 ^ 32 := Int.emod_lt_of_pos n (by decide)
  have low : 0 ≤ n % 2 ^ 32 := Int.emod_nonneg n (by decide)
  simp only [word32, UInt32.size]
  omega

theorem FragmentKind.word_lt (kind : FragmentKind) : kind.word < UInt32.size := by
  cases kind <;> decide

/-- The two ids of a placement are 32-bit words. -/
def FragmentPlacement.Fits (fp : FragmentPlacement) : Prop := fp.fragId < UInt32.size ∧ fp.nodeId < UInt32.size

theorem FragmentPlacement.Fits.toWords {fp : FragmentPlacement} (fits : fp.Fits) : fp.toWords.Fits :=
  ⟨fits.1, word32_lt fp.localGroup, fits.2, fp.kind.word_lt⟩

@[simp] theorem length_serializePlacement (fp : FragmentPlacement) : (serializePlacement fp).length = 16 := by
  simp [serializePlacement]

namespace LrcPayload

variable {frags : List (Slice × Nat)}

theorem placementAt_append {fp : FragmentPlacement} (fits : fp.Fits) (rest : Slice) :
    placementAt (serializePlacement fp ++ rest) = fp.toWords := by
  have fragId := drop_encodeFixed32 fp.nodeId
  have localGroup : ∀ rest, (encodeFixed32 fp.nodeId ++ (encodeFixed32 fp.fragId ++ rest)).drop 8 = rest := fun rest => by
    rw [show 8 = 4 + 4 from rfl, ← List.drop_drop, drop_encodeFixed32, drop_encodeFixed32]
  have kind : ∀ rest, (encodeFixed32 fp.nodeId ++ (encodeFixed32 fp.fragId ++
      (encodeFixed32 (word32 fp.localGroup) ++ rest))).drop 12 = rest := fun rest => by
    rw [show 12 = 8 + 4 from rfl, ← List.drop_drop, localGroup, drop_encodeFixed32]
  simp only [placementAt, serializePlacement, List.append_assoc, fragId, localGroup, kind,
    decodeFixed32_append fits.1, decodeFixed32_append fits.2, decodeFixed32_append (word32_lt _),
    decodeFixed32_append (FragmentKind.word_lt _), FragmentPlacement.toWords]

theorem map_placementAt {placement : List FragmentPlacement} (fits : ∀ fp ∈ placement, fp.Fits) (rest : Slice) :
    (List.range placement.length).map (fun i => placementAt ((placement.flatMap serializePlacement ++ rest).drop (i * 16))) =
      placement.map FragmentPlacement.toWords := by
  induction placement with
  | nil => rfl
  | cons fp more ih =>
    have later := ih fun fp inside => fits fp (List.mem_cons_of_mem _ inside)
    have shift : ∀ i, ((serializePlacement fp ++ (more.flatMap serializePlacement ++ rest)).drop ((i + 1) * 16)) =
        (more.flatMap serializePlacement ++ rest).drop (i * 16) := fun i => by
      rw [show (i + 1) * 16 = 16 + i * 16 by omega, ← List.drop_drop, List.drop_left' (length_serializePlacement fp)]
    rw [List.length_cons, List.range_succ_eq_map, List.map_cons, List.map_map, List.flatMap_cons, List.append_assoc,
      List.map_cons, ← later]
    congr 1
    · exact placementAt_append (fits fp List.mem_cons_self) _
    · exact List.map_congr_left fun i _ => congrArg placementAt (shift i)

theorem parsePlacements_append {placement : List FragmentPlacement} (count : placement.length < UInt32.size)
    (fits : ∀ fp ∈ placement, fp.Fits) (rest : Slice) :
    parsePlacements (encodeFixed32 placement.length ++ (placement.flatMap serializePlacement ++ rest)) =
      some (placement.map FragmentPlacement.toWords, rest) := by
  have size : (placement.flatMap serializePlacement).length = placement.length * 16 := by
    simp [List.length_flatMap]
  rw [parsePlacements, if_neg (by simp)]
  dsimp only
  rw [decodeFixed32_append count, drop_encodeFixed32, if_neg (by simp [size]), map_placementAt fits,
    List.drop_left' size]

/-- The fragments with their ids, as they are written. -/
def numbered (fragIds : List Nat) (frags : List (Slice × Nat)) : List (Nat × Slice) :=
  frags.map fun frag => ((fragIds[frag.2]?).getD frag.2, frag.1)

theorem readFragments_append {fragIds : List Nat} (ids : ∀ frag ∈ frags, (fragIds[frag.2]?).getD frag.2 < UInt32.size)
    (sizes : ∀ frag ∈ frags, frag.1.length < UInt32.size) (rest : Slice) :
    readFragments frags.length (frags.flatMap (serializeFragment fragIds) ++ rest) =
      (numbered fragIds frags, rest, rest.length) := by
  induction frags with
  | nil => rfl
  | cons frag more ih =>
    have id := ids frag List.mem_cons_self
    have size := sizes frag List.mem_cons_self
    have later := ih (fun frag inside => ids frag (List.mem_cons_of_mem _ inside))
      fun frag inside => sizes frag (List.mem_cons_of_mem _ inside)
    have whole : frag.1.take (frag.1.length % UInt32.size) = frag.1 := by
      rw [Nat.mod_eq_of_lt size, List.take_length]
    rw [List.length_cons, List.flatMap_cons, serializeFragment, whole]
    simp only [List.append_assoc]
    rw [readFragments, if_neg (by simp), drop_encodeFixed32]
    dsimp only
    rw [if_neg (by simp), drop_encodeFixed32, decodeFixed32_append size, if_neg (by simp), List.drop_left,
      List.take_left, decodeFixed32_append id, later]
    rfl

theorem parseFragments_append {fragIds : List Nat} (count : frags.length < UInt32.size)
    (ids : ∀ frag ∈ frags, (fragIds[frag.2]?).getD frag.2 < UInt32.size)
    (sizes : ∀ frag ∈ frags, frag.1.length < UInt32.size) (original : originalSize < 2 ^ 64) :
    parseFragments (encodeFixed32 frags.length ++ (frags.flatMap (serializeFragment fragIds) ++
      encodeFixed64 originalSize)) = some (numbered fragIds frags, originalSize) := by
  have size : (encodeFixed64 originalSize).length = 8 := LittleEndian.length_encode 8 originalSize
  rw [parseFragments, if_neg (by simp), decodeFixed32_append count, drop_encodeFixed32, readFragments_append ids sizes]
  dsimp only
  rw [if_pos size.ge, decodeFixed64_encode original]

end LrcPayload

/-- Every number of the payload fits the field it is written to. -/
structure LogEntry.Fits (e : LogEntry) : Prop where
  k : e.chunkInfo.k < UInt32.size
  l : e.chunkInfo.l < UInt32.size
  r : e.chunkInfo.r < UInt32.size
  placementCount : e.placement.length < UInt32.size
  placement : ∀ fp ∈ e.placement, fp.Fits
  fragmentCount : e.fragments.length < UInt32.size
  ids : ∀ id ∈ e.fragIds, id < UInt32.size
  sizes : ∀ frag ∈ e.fragments, frag.length < UInt32.size

theorem LogEntry.Fits.id_lt (fits : e.Fits) :
    ∀ frag ∈ e.fragments.zipIdx, (e.fragIds[frag.2]?).getD frag.2 < UInt32.size := by
  rintro ⟨frag, i⟩ inside
  have place : e.fragments[i]? = some frag := by simpa using List.mem_zipIdx_iff_getElem?.mp inside
  have bound := (List.getElem?_eq_some_iff.mp place).1
  have count := fits.fragmentCount
  dsimp only
  cases named : e.fragIds[i]? with
  | none =>
    rw [Option.getD_none]
    omega
  | some id => exact fits.ids id (List.mem_of_getElem? named)

theorem LogEntry.Fits.size_lt (fits : e.Fits) : ∀ frag ∈ e.fragments.zipIdx, frag.1.length < UInt32.size := by
  rintro ⟨frag, i⟩ inside
  have place : e.fragments[i]? = some frag := by simpa using List.mem_zipIdx_iff_getElem?.mp inside
  exact fits.sizes frag (List.mem_of_getElem? place)

/-- What the handler reads from the payload of an entry. -/
def LogEntry.toPayload (e : LogEntry) (userKey : Slice) (originalSize : Nat) : LrcPayload :=
  { userKey := applyUserKey e userKey
    k := e.chunkInfo.k
    l := e.chunkInfo.l
    r := e.chunkInfo.r
    placement := e.placement.map FragmentPlacement.toWords
    fragments := LrcPayload.numbered e.fragIds e.fragments.zipIdx
    originalSize := originalSize }

/-- The part of `Fits` that is read before the fragments. -/
structure LogEntry.HeadFits (e : LogEntry) : Prop where
  k : e.chunkInfo.k < UInt32.size
  l : e.chunkInfo.l < UInt32.size
  r : e.chunkInfo.r < UInt32.size
  placementCount : e.placement.length < UInt32.size
  placement : ∀ fp ∈ e.placement, fp.Fits

theorem LogEntry.Fits.head (fits : e.Fits) : e.HeadFits :=
  ⟨fits.k, fits.l, fits.r, fits.placementCount, fits.placement⟩

def LrcPayload.withFragments (p : LrcPayload) (fragments : List (Nat × Slice)) : LrcPayload := { p with fragments := fragments }

theorem LrcPayload.parse_of_parseFragments (fits : e.HeadFits) {size : Nat}
    {fragments : List (Nat × Slice)} (key : (applyUserKey e userKey).length < UInt32.size)
    (frags : parseFragments (encodeFixed32 e.fragments.length ++
      (e.fragments.zipIdx.flatMap (serializeFragment e.fragIds) ++ encodeFixed64 originalSize)) = some (fragments, size)) :
    parse (serializeLrcFragments e userKey originalSize) =
      some ((e.toPayload userKey size).withFragments fragments) := by
  have placed := parsePlacements_append fits.placementCount fits.placement (encodeFixed32 e.fragments.length ++
    (e.fragments.zipIdx.flatMap (serializeFragment e.fragIds) ++ encodeFixed64 originalSize))
  generalize tail : encodeFixed32 e.fragments.length ++ (e.fragments.zipIdx.flatMap (serializeFragment e.fragIds) ++
    encodeFixed64 originalSize) = fragmentPart at frags placed
  generalize middle : encodeFixed32 e.placement.length ++ (e.placement.flatMap serializePlacement ++ fragmentPart) =
    placementPart at placed
  have layout : serializeLrcFragments e userKey originalSize = encodeFixed32 (applyUserKey e userKey).length ++
      (applyUserKey e userKey ++ (serializeChunkInfo e.chunkInfo ++ placementPart)) := by
    rw [← middle, ← tail]
    simp [serializeLrcFragments]
  have chunkSize : (serializeChunkInfo e.chunkInfo).length = 28 := by simp [serializeChunkInfo]
  have l : (serializeChunkInfo e.chunkInfo ++ placementPart).drop 8 = encodeFixed32 e.chunkInfo.l ++
      (encodeFixed32 e.chunkInfo.r ++ ((serializeChunkInfo e.chunkInfo ++ placementPart).drop 16)) := rfl
  have r : (serializeChunkInfo e.chunkInfo ++ placementPart).drop 12 =
      encodeFixed32 e.chunkInfo.r ++ ((serializeChunkInfo e.chunkInfo ++ placementPart).drop 16) := rfl
  have k : serializeChunkInfo e.chunkInfo ++ placementPart = encodeFixed32 e.chunkInfo.k ++
      ((serializeChunkInfo e.chunkInfo ++ placementPart).drop 4) := rfl
  rw [layout, parse, if_neg (by simp)]
  dsimp only
  rw [decodeFixed32_append key, drop_encodeFixed32, if_neg (by simp), List.drop_left, List.take_left,
    if_neg (by simp [chunkSize]), List.drop_left' chunkSize]
  refine bind_of_read placed (bind_of_read frags ?_)
  rw [l, decodeFixed32_append fits.l, r, decodeFixed32_append fits.r, k, decodeFixed32_append fits.k]
  rfl

theorem LrcPayload.parse_serialize (fits : e.Fits)
    (key : (applyUserKey e userKey).length < UInt32.size) (original : originalSize < 2 ^ 64) :
    parse (serializeLrcFragments e userKey originalSize) = some (e.toPayload userKey originalSize) := by
  have count : e.fragments.zipIdx.length < UInt32.size := by simpa using fits.fragmentCount
  have frags := parseFragments_append count fits.id_lt fits.size_lt original
  rw [List.length_zipIdx] at frags
  exact parse_of_parseFragments fits.head key frags

end FlexRaft
