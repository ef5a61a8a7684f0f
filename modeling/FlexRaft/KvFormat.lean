import FlexRaft.ErasureCode
import FlexRaft.StripeRead

namespace FlexRaft

inductive RequestType
  | kPut
  | kDelete
  | kGet
  | kDetectLeader
  | kAbort
  deriving DecidableEq, Repr

namespace RequestType

def word : RequestType → Nat
  | .kPut => 1
  | .kDelete => 2
  | .kGet => 3
  | .kDetectLeader => 4
  | .kAbort => 5

def ofWord (n : Nat) : Option RequestType := [kPut, kDelete, kGet, kDetectLeader, kAbort].find? fun type => type.word = n

theorem ofWord_word (type : RequestType) : ofWord type.word = some type := by
  cases type <;> rfl

theorem word_lt (type : RequestType) : type.word < UInt32.size := by
  cases type <;> decide

end RequestType

/-- `kv::Request`; the group is not part of its raw bytes. -/
structure KvRequest where
  type : RequestType
  clientId : Nat
  sequence : Nat
  key : Slice
  value : Slice
  deriving DecidableEq, Repr

def requestHdrSize : Nat := 12

def makePrefixLengthKey (s : Slice) : Slice := encodeFixed32 s.length ++ s

/-- The string and what stands behind it. `none` where the length is negative or goes beyond the buffer. -/
def getKeyFromPrefixLengthFormat (buf : Slice) : Option (Slice × Slice) :=
  let keySize := decodeFixed32 buf
  if buf.length < 4 ∨ 2 ^ 31 ≤ keySize ∨ buf.length - 4 < keySize then none
  else some ((buf.drop 4).take keySize, (buf.drop 4).drop keySize)

/-- The first `RequestHdrSize()` bytes of the struct. -/
def KvRequest.header (req : KvRequest) : Slice :=
  encodeFixed32 req.type.word ++ encodeFixed32 req.clientId ++ encodeFixed32 req.sequence

def requestToRawBytes (req : KvRequest) : Slice :=
  req.header ++ makePrefixLengthKey req.key ++ makePrefixLengthKey req.value

/-- The twelve bytes in front of a stored value. -/
def valueHeader (k m fragId : Nat) : Slice := encodeFixed32 k ++ encodeFixed32 m ++ encodeFixed32 fragId

/-- What `server_id` out of `server_num` applies. `none` where the entry is too short or its type is none of the
enumeration, which ends in an assertion of the apply thread. -/
def raftEntryToRequest (ent : LogEntry) (serverId serverNum : Nat) : Option KvRequest :=
  let bytes := if ent.type = .kNormal then ent.commandData else ent.notEncodedSlice
  (RequestType.ofWord (decodeFixed32 bytes)).bind fun type =>
    (getKeyFromPrefixLengthFormat (bytes.drop requestHdrSize)).map fun parsed =>
      { type := type
        clientId := decodeFixed32 (bytes.drop 4)
        sequence := decodeFixed32 (bytes.drop 8)
        key := parsed.1
        value :=
          if ent.type = .kNormal then valueHeader 1 0 0 ++ parsed.2
          else valueHeader ent.chunkInfo.k (word32 (serverNum - ent.chunkInfo.k)) serverId ++ ent.fragmentSlice }

/-- A stored value taken apart. The two `int`s are 32-bit words. -/
structure DecodedString where
  k : Nat
  m : Nat
  fragId : Nat
  frag : Slice
  deriving DecidableEq, Repr

def decodeString (str : Slice) : Option DecodedString :=
  if str.length < 12 then none
  else some
    { k := decodeFixed32 str
      m := decodeFixed32 (str.drop 4)
      fragId := decodeFixed32 (str.drop 8)
      frag := str.drop 12 }

/-- What `RouteGet` takes out of an answer with `kOk`. -/
def routeGetValue (response : Slice) : Option Slice :=
  (decodeString response).bind fun format =>
    if format.k = 1 then (getKeyFromPrefixLengthFormat format.frag).map Prod.fst else none

/-- A committed request is in the log of a server as it was proposed, or as the fragment of the server in an encoding
with parameter `k`. -/
inductive EntryForm
  | full
  | fragment (k : Nat)
  deriving DecidableEq, Repr

/-- An encoding for `serverNum` servers that the buffers of the encoder can hold. -/
def EntryForm.Valid (serverNum : Nat) : EntryForm → Prop
  | .full => True
  | .fragment k => 1 ≤ k ∧ k ≤ serverNum ∧ k ≤ Encoder.kMaxK ∧ serverNum - k ≤ Encoder.kMaxM

instance EntryForm.decidableValid (serverNum : Nat) (form : EntryForm) : Decidable (form.Valid serverNum) := by
  cases form <;> unfold EntryForm.Valid <;> infer_instance

namespace KvRequest

/-- Header and key stay as they are, the value gets encoded. -/
def startOffset (req : KvRequest) : Nat := requestHdrSize + 4 + req.key.length

def fullEntry (req : KvRequest) (index : Nat) : LogEntry :=
  { index := index
    type := .kNormal
    startOffset := req.startOffset
    commandSize := (requestToRawBytes req).length
    commandDataField := requestToRawBytes req }

/-- The entry that the Raft layer of `server` hands to the channel. -/
def entry (req : KvRequest) (index server serverNum : Nat) : EntryForm → LogEntry
  | .full => req.fullEntry index
  | .fragment k =>
    RaftState.encodedEntry (req.fullEntry index) index k
      (Encoder.encodeFragment Isal.gf256 ((requestToRawBytes req).drop req.startOffset) k (serverNum - k) server)

/-- Sizes that an `int` can hold. -/
structure Fits (req : KvRequest) : Prop where
  key : req.key.length < 2 ^ 31
  value : req.value.length < 2 ^ 31

instance decidableFits (req : KvRequest) : Decidable req.Fits :=
  decidable_of_iff (req.key.length < 2 ^ 31 ∧ req.value.length < 2 ^ 31)
    ⟨fun both => ⟨both.1, both.2⟩, fun fits => ⟨fits.key, fits.value⟩⟩

end KvRequest

/-- What a put of `value` leaves in the database of `server`. -/
def storedValue (serverNum server : Nat) (value : Slice) : EntryForm → Slice
  | .full => formatFullEntryValueForStorage value
  | .fragment k =>
    valueHeader k (serverNum - k) server ++
      Encoder.encodeFragment Isal.gf256 (makePrefixLengthKey value) k (serverNum - k) server

section Strings

theorem length_valueHeader (k m fragId : Nat) : (valueHeader k m fragId).length = 12 := by
  simp [valueHeader]

theorem formatFullEntryValueForStorage_eq (value : Slice) :
    formatFullEntryValueForStorage value = valueHeader 1 0 0 ++ makePrefixLengthKey value := by
  simp [formatFullEntryValueForStorage, valueHeader, makePrefixLengthKey, List.append_assoc]

theorem getKeyFromPrefixLengthFormat_append {s : Slice} (fits : s.length < 2 ^ 31) (rest : Slice) :
    getKeyFromPrefixLengthFormat (makePrefixLengthKey s ++ rest) = some (s, rest) := by
  have size : decodeFixed32 (encodeFixed32 s.length ++ (s ++ rest)) = s.length :=
    decodeFixed32_append (fits.trans (by decide)) _
  have inside : ¬(4 + (s.length + rest.length) < 4 ∨ 2 ^ 31 ≤ s.length ∨ 4 + (s.length + rest.length) - 4 < s.length) := by
    omega
  unfold getKeyFromPrefixLengthFormat makePrefixLengthKey
  rw [List.append_assoc, size]
  simp only [List.length_append, length_encodeFixed32, drop_encodeFixed32, List.take_left, List.drop_left]
  rw [if_neg inside]

theorem decodeString_append {k m fragId : Nat} (kWord : k < UInt32.size) (mWord : m < UInt32.size)
    (fragWord : fragId < UInt32.size) (frag : Slice) :
    decodeString (valueHeader k m fragId ++ frag) = some { k := k, m := m, fragId := fragId, frag := frag } := by
  have size : ¬(valueHeader k m fragId ++ frag).length < 12 := by
    rw [List.length_append, length_valueHeader]
    omega
  have second : (valueHeader k m fragId ++ frag).drop 4 = encodeFixed32 m ++ (encodeFixed32 fragId ++ frag) := by
    simp [valueHeader, List.append_assoc]
  have third : (valueHeader k m fragId ++ frag).drop 8 = encodeFixed32 fragId ++ frag := by
    rw [show 8 = 4 + 4 from rfl, ← List.drop_drop, second, drop_encodeFixed32]
  have last : (valueHeader k m fragId ++ frag).drop 12 = frag := List.drop_left' (length_valueHeader k m fragId)
  have first : decodeFixed32 (valueHeader k m fragId ++ frag) = k := by
    unfold valueHeader
    rw [List.append_assoc, List.append_assoc]
    exact decodeFixed32_append kWord _
  unfold decodeString
  rw [if_neg size, first, second, third, last, decodeFixed32_append mWord, decodeFixed32_append fragWord]

end Strings

section Entries

variable {req : KvRequest} {n server : Nat} {form : EntryForm} {value : Slice}

theorem length_header (req : KvRequest) : req.header.length = requestHdrSize := by
  simp [KvRequest.header, requestHdrSize]

theorem requestToRawBytes_split (req : KvRequest) :
    (requestToRawBytes req).take req.startOffset = req.header ++ makePrefixLengthKey req.key ∧
      (requestToRawBytes req).drop req.startOffset = makePrefixLengthKey req.value := by
  have size : (req.header ++ makePrefixLengthKey req.key).length = req.startOffset := by
    simp only [List.length_append, length_header, makePrefixLengthKey, length_encodeFixed32, KvRequest.startOffset]
    omega
  exact ⟨List.take_left' size, List.drop_left' size⟩

theorem header_parts (req : KvRequest) (rest : Slice) :
    RequestType.ofWord (decodeFixed32 (req.header ++ rest)) = some req.type ∧
      (req.header ++ rest).drop requestHdrSize = rest := by
  constructor
  · unfold KvRequest.header
    rw [List.append_assoc, List.append_assoc, decodeFixed32_append req.type.word_lt, RequestType.ofWord_word]
  · exact List.drop_left' (length_header req)

theorem word32_sub {k : Nat} (le : k ≤ n) (small : n - k < 2 ^ 32) : word32 (n - k) = n - k := by
  unfold word32
  omega

theorem raftEntryToRequest_entry (server : Nat) (fits : req.Fits) (valid : form.Valid n) (index : Nat) :
    ∃ req', raftEntryToRequest (req.entry index server n form) server n = some req' ∧ req'.type = req.type ∧
      req'.key = req.key ∧ req'.value = storedValue n server req.value form := by
  cases form with
  | full =>
    obtain ⟨type, rest⟩ := header_parts req (makePrefixLengthKey req.key ++ makePrefixLengthKey req.value)
    have parsed := getKeyFromPrefixLengthFormat_append fits.key (makePrefixLengthKey req.value)
    have bytes : (req.entry index server n .full).commandData =
        req.header ++ (makePrefixLengthKey req.key ++ makePrefixLengthKey req.value) := List.append_assoc _ _ _
    have normal : (req.entry index server n .full).type = .kNormal := rfl
    unfold raftEntryToRequest
    simp only [normal, if_true, bytes, type, rest, parsed, Option.bind_some, Option.map_some]
    exact ⟨_, rfl, rfl, rfl, (formatFullEntryValueForStorage_eq req.value).symm⟩
  | fragment k =>
    obtain ⟨positive, le, kMax, mMax⟩ := valid
    obtain ⟨before, behind⟩ := requestToRawBytes_split req
    obtain ⟨type, rest⟩ := header_parts req (makePrefixLengthKey req.key)
    have parsed := getKeyFromPrefixLengthFormat_append fits.key []
    rw [List.append_nil] at parsed
    have bytes : (req.entry index server n (.fragment k)).notEncodedSlice = req.header ++ makePrefixLengthKey req.key := before
    have fragments : (req.entry index server n (.fragment k)).type ≠ .kNormal := by
      intro normal
      cases normal
    have size : word32 (n - k) = n - k := word32_sub le (mMax.trans_lt (by decide))
    have frag : (req.entry index server n (.fragment k)).fragmentSlice =
        Encoder.encodeFragment Isal.gf256 (makePrefixLengthKey req.value) k (n - k) server := by
      rw [← behind]
      rfl
    have info : (req.entry index server n (.fragment k)).chunkInfo.k = k := rfl
    unfold raftEntryToRequest
    simp only [if_neg fragments, bytes, type, rest, parsed, Option.bind_some, Option.map_some, info, size, frag]
    exact ⟨_, rfl, rfl, rfl, rfl⟩

/-- The parts of a stored value, as `DecodeString` finds them. -/
def storedParts (serverNum server : Nat) (value : Slice) : EntryForm → DecodedString
  | .full => { k := 1, m := 0, fragId := 0, frag := makePrefixLengthKey value }
  | .fragment k =>
    { k := k
      m := serverNum - k
      fragId := server
      frag := Encoder.encodeFragment Isal.gf256 (makePrefixLengthKey value) k (serverNum - k) server }

theorem decodeString_storedValue (valid : form.Valid n) (bound : server < n) (value : Slice) :
    decodeString (storedValue n server value form) = some (storedParts n server value form) := by
  cases form with
  | full =>
    rw [storedValue, formatFullEntryValueForStorage_eq]
    exact decodeString_append (by decide) (by decide) (by decide) _
  | fragment k =>
    obtain ⟨positive, le, kMax, mMax⟩ := valid
    have kWord : k < UInt32.size := kMax.trans_lt (by decide)
    have mWord : n - k < UInt32.size := mMax.trans_lt (by decide)
    have few : n ≤ 48 := by
      simp only [Encoder.kMaxK, Encoder.kMaxM] at kMax mMax
      omega
    exact decodeString_append kWord mWord ((bound.trans_le few).trans (by decide)) _

theorem frag_of_single (one : (storedParts n server value form).k = 1) :
    (storedParts n server value form).frag = makePrefixLengthKey value := by
  cases form with
  | full => rfl
  | fragment k =>
    obtain rfl : k = 1 := one
    rfl

theorem parts_of_several (several : 2 ≤ (storedParts n server value form).k) :
    (storedParts n server value form).fragId = server ∧
      (storedParts n server value form).frag = Encoder.encodeFragment Isal.gf256 (makePrefixLengthKey value)
        (storedParts n server value form).k (storedParts n server value form).m server := by
  cases form with
  | full => exact absurd (show 2 ≤ 1 from several) (by decide)
  | fragment k => exact ⟨rfl, rfl⟩

theorem getKey_makePrefixLengthKey (fits : value.length < 2 ^ 31) :
    getKeyFromPrefixLengthFormat (makePrefixLengthKey value) = some (value, []) := by
  have parsed := getKeyFromPrefixLengthFormat_append fits []
  rwa [List.append_nil] at parsed

theorem routeGetValue_storedValue (valid : form.Valid n) (bound : server < n)
    (fits : value.length < 2 ^ 31) (one : (storedParts n server value form).k = 1) :
    routeGetValue (storedValue n server value form) = some value := by
  unfold routeGetValue
  rw [decodeString_storedValue valid bound, Option.bind_some, if_pos one, frag_of_single one,
    getKey_makePrefixLengthKey fits]
  rfl

end Entries

end FlexRaft
