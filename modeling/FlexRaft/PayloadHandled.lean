import FlexRaft.ApplyOrder
import FlexRaft.StripeRoundTrip

namespace FlexRaft

variable {n : Nat}

theorem lookup_eq_some_iff_mem {pairs : List (Nat × Slice)} (distinct : (pairs.map Prod.fst).Nodup) {key : Nat}
    {value : Slice} : pairs.lookup key = some value ↔ (key, value) ∈ pairs := by
  induction pairs with
  | nil => simp
  | cons p rest ih =>
    obtain ⟨here, later⟩ := List.nodup_cons.mp (List.map_cons ▸ distinct)
    rw [List.lookup_cons, List.mem_cons]
    by_cases same : key = p.1
    · subst same
      have absent : (p.1, value) ∉ rest := fun inside => here (List.mem_map.mpr ⟨_, inside, rfl⟩)
      rw [beq_self_eq_true, Prod.ext_iff]
      simp only [Option.some.injEq, absent, or_false, true_and, eq_comm]
    · rw [beq_eq_false_iff_ne.mpr same]
      simp only [ih later, Prod.ext_iff, same, false_and, false_or]

theorem mem_of_full {ids : List Nat} (distinct : ids.Nodup) (below : ∀ id ∈ ids, id < n)
    (full : n ≤ ids.length) : ids.length = n ∧ ∀ id < n, id ∈ ids := by
  have inside : ids ⊆ List.range n := fun id member => List.mem_range.mpr (below id member)
  have perm : ids.Perm (List.range n) :=
    (List.subperm_of_subset distinct inside).perm_of_length_le (by simpa using full)
  exact ⟨by simpa using perm.length_eq, fun id bound => perm.mem_iff.mpr (List.mem_range.mpr bound)⟩

/-- The fragments of an entry with the ids they are written under. -/
def LogEntry.numbered (e : LogEntry) : List (Nat × Slice) := LrcPayload.numbered e.fragIds e.fragments.zipIdx

theorem LogEntry.length_numbered (e : LogEntry) : e.numbered.length = e.fragments.length := by
  simp [numbered, LrcPayload.numbered]

namespace LrcPayload

variable {p : LrcPayload}

theorem fragment_eq_some_iff (distinct : (p.fragments.map Prod.fst).Nodup) {fragId : Nat} {frag : Slice} :
    p.fragment fragId = some frag ↔ (fragId, frag) ∈ p.fragments := by
  have reversed : (p.fragments.reverse.map Prod.fst).Nodup := by
    rw [List.map_reverse]
    exact List.nodup_reverse.mpr distinct
  rw [fragment, lookup_eq_some_iff_mem reversed, List.mem_reverse]

theorem length_userKey_lt {payload : Slice} (read : parse payload = some p) : p.userKey.length < UInt32.size := by
  unfold parse at read
  split at read
  · cases read
  · dsimp only at read
    split at read
    · cases read
    · split at read
      · cases read
      · obtain ⟨placed, _, read⟩ := Option.bind_eq_some_iff.mp read
        obtain ⟨frags, _, read⟩ := Option.bind_eq_some_iff.mp read
        cases read
        exact (List.length_take_le _ _).trans_lt (decodeFixed32_lt payload)

/-- A number of fragments that is cut to zero: none is read, and the first one is taken for the size. -/
theorem parseFragments_uncounted (cut : n % UInt32.size = 0) {id : Nat} (word : id < UInt32.size)
    (frag rest : Slice) : ∃ size, size % UInt32.size = id ∧
      parseFragments (encodeFixed32 n ++ (encodeFixed32 id ++ encodeFixed32 frag.length ++ rest)) = some ([], size) := by
  have eight : (encodeFixed32 id ++ encodeFixed32 frag.length).length = 8 := by simp
  refine ⟨id + UInt32.size * LittleEndian.decode (encodeFixed32 frag.length), ?_, ?_⟩
  · rw [Nat.add_mul_mod_self_left, Nat.mod_eq_of_lt word]
  · rw [parseFragments, if_neg (by simp), decodeFixed32_append_mod, cut, drop_encodeFixed32, readFragments]
    dsimp only
    rw [if_pos (by rw [List.length_append, eight]; exact Nat.le_add_right 8 _), decodeFixed64, List.take_left' eight, LittleEndian.decode_append, length_encodeFixed32,
      encodeFixed32, LittleEndian.decode_encode_of_lt word]
    rfl

end LrcPayload

namespace StripePlacement

theorem length_of_readList {count : Nat} {p : Slice} {placement : List StripePlacement}
    (read : readList count p = some placement) : placement.length = count := by
  induction count generalizing p placement with
  | zero =>
    cases read
    rfl
  | succ count ih =>
    obtain ⟨first, _, read⟩ := Option.bind_eq_some_iff.mp read
    obtain ⟨rest, later, read⟩ := Option.bind_eq_some_iff.mp read
    cases read
    rw [List.length_cons, ih later]

end StripePlacement

theorem readU32_lt {p rest : Slice} (read : readU32 p = some (n, rest)) : n < UInt32.size := by
  obtain ⟨wide, _, same⟩ := Option.map_eq_some_iff.mp read
  cases same
  exact Nat.mod_lt _ (by decide)

namespace StripeLogMeta

/-- The size and the number of placements are read as 32-bit numbers. -/
theorem bounds_of_deserialize {data : Slice} {stripe : StripeLogMeta} (read : deserialize data = some stripe) :
    stripe.originalSize < UInt32.size ∧ stripe.placement.length < UInt32.size := by
  unfold deserialize at read
  obtain ⟨_, _, read⟩ := Option.bind_eq_some_iff.mp read
  obtain ⟨_, _, read⟩ := Option.bind_eq_some_iff.mp read
  obtain ⟨_, _, read⟩ := Option.bind_eq_some_iff.mp read
  obtain ⟨_, _, read⟩ := Option.bind_eq_some_iff.mp read
  obtain ⟨_, _, read⟩ := Option.bind_eq_some_iff.mp read
  obtain ⟨_, size, read⟩ := Option.bind_eq_some_iff.mp read
  obtain ⟨_, _, read⟩ := Option.bind_eq_some_iff.mp read
  obtain ⟨_, _, read⟩ := Option.bind_eq_some_iff.mp read
  obtain ⟨_, _, read⟩ := Option.bind_eq_some_iff.mp read
  obtain ⟨_, _, read⟩ := Option.bind_eq_some_iff.mp read
  obtain ⟨_, _, read⟩ := Option.bind_eq_some_iff.mp read
  obtain ⟨_, count, read⟩ := Option.bind_eq_some_iff.mp read
  obtain ⟨_, placed, read⟩ := Option.bind_eq_some_iff.mp read
  cases read
  refine ⟨readU32_lt size, ?_⟩
  rw [StripePlacement.length_of_readList placed]
  exact readU32_lt count

/-- What is left of the size in 32 bits. -/
def cut (stripe : StripeLogMeta) : StripeLogMeta := { stripe with originalSize := stripe.originalSize % UInt32.size }

theorem serialize_cut (stripe : StripeLogMeta) : stripe.cut.serialize = stripe.serialize := by
  simp only [serialize, cut, appendU32, Nat.mod_mod]

end StripeLogMeta

namespace ApplyFsm

/-- The message carries the payload of an LRC entry, and every field holds a value of its type. The fragments have
distinct ids. -/
structure Carries (fsm : ApplyFsm) (m : MsgApplyCommitted) (e : LogEntry) (userKey : Slice) (originalSize : Nat) : Prop where
  data : m.data = serializeForApply e userKey originalSize
  encoded : e.isLrcEncoded = true
  key : userKey ≠ []
  distinct : (e.numbered.map Prod.fst).Nodup
  ids : ∀ p ∈ e.numbered, p.1 < UInt32.size
  sizes : ∀ p ∈ e.numbered, p.2.length < UInt32.size
  k : e.chunkInfo.k < UInt32.size
  l : e.chunkInfo.l < UInt32.size
  r : e.chunkInfo.r < UInt32.size
  placement : ∀ fp ∈ e.placement, fp.Fits
  size : originalSize < 2 ^ 64
  groupId : fsm.groupId < UInt32.size
  encMode : fsm.encMode < 256
  stripeId : m.stripeId < 2 ^ 64
  entryId : m.entryId < 2 ^ 64

/-- The fragment is placed on the node and the entry has it. -/
def Holds (fsm : ApplyFsm) (e : LogEntry) (fragId : Nat) (frag : Slice) : Prop :=
  (∃ fp ∈ e.placement, fp.nodeId = fsm.nodeId ∧ fp.fragId = fragId) ∧ (fragId, frag) ∈ e.numbered

/-- Handling the message writes the metadata record of the key and the fragments held here, and nothing else. -/
structure Inverts (fsm : ApplyFsm) (m : MsgApplyCommitted) (e : LogEntry) (userKey : Slice) (originalSize : Nat) : Prop where
  record : ∀ db : Database, ∃ stripe,
    (db.write (fsm.writes m) (stripeMetaDbKey fsm.groupId userKey)).bind StripeLogMeta.deserialize = some stripe ∧
      stripe.k = e.chunkInfo.k ∧ stripe.l = e.chunkInfo.l ∧ stripe.r = e.chunkInfo.r ∧
      stripe.placement = e.placement.map FragmentPlacement.toWords ∧ stripe.originalSize = originalSize
  fragments : ∀ (db : Database) (fragId : Nat) (frag : Slice), fsm.Holds e fragId frag →
    db.write (fsm.writes m) (fragDbKey fsm.groupId m.stripeId fragId) = some frag
  others : ∀ (db : Database) (key : Slice), key ≠ stripeMetaDbKey fsm.groupId userKey →
    (∀ fragId frag, fsm.Holds e fragId frag → key ≠ fragDbKey fsm.groupId m.stripeId fragId) →
    db.write (fsm.writes m) key = db key

/-- The numbers that the payload and the record hold in 32 bits fit. The number of fragments may be cut to zero on a
node that holds none of them, if the id of the first one happens to be the size. -/
structure Countable (fsm : ApplyFsm) (e : LogEntry) (userKey : Slice) (originalSize : Nat) : Prop where
  key : userKey.length < UInt32.size
  placement : e.placement.length < UInt32.size
  size : originalSize < UInt32.size
  fragments : e.fragments.length < UInt32.size ∨
    (∀ fp ∈ e.placement, fp.nodeId ≠ fsm.nodeId) ∧ e.numbered.head?.map Prod.fst = some originalSize

section Handling

variable {fsm : ApplyFsm} {m : MsgApplyCommitted} {e : LogEntry} {userKey : Slice} {originalSize : Nat}

theorem Carries.bytes (carries : fsm.Carries m e userKey originalSize) :
    m.data = kApplyMagic ++ encodeFixed32 1 ++ 3 :: serializeLrcFragments e userKey originalSize := by
  simp [carries.data, serializeForApply, carries.encoded]

theorem Carries.framed (carries : fsm.Carries m e userKey originalSize) : Framed m 3 := .of_eq carries.bytes

theorem Carries.payload_eq (carries : fsm.Carries m e userKey originalSize) :
    payload? m = LrcPayload.parse (serializeLrcFragments e userKey originalSize) := by
  obtain ⟨length, magic, version, kind⟩ := carries.framed
  rw [payload?, if_pos ⟨length, magic, version, kind⟩, carries.bytes]
  rfl

theorem Carries.applyUserKey_eq (carries : fsm.Carries m e userKey originalSize) : applyUserKey e userKey = userKey :=
  if_neg fun empty => carries.key empty.1

theorem Carries.headFits (carries : fsm.Carries m e userKey originalSize) (count : e.placement.length < UInt32.size) :
    e.HeadFits :=
  ⟨carries.k, carries.l, carries.r, count, carries.placement⟩

/-- With all counts in range the handler reads what was written. -/
theorem Carries.payload_of_counted (carries : fsm.Carries m e userKey originalSize) (key : userKey.length < UInt32.size)
    (placed : e.placement.length < UInt32.size) (counted : e.fragments.length < UInt32.size) :
    payload? m = some (e.toPayload userKey originalSize) := by
  have count : e.fragments.zipIdx.length < UInt32.size := by simpa using counted
  have ids : ∀ frag ∈ e.fragments.zipIdx, (e.fragIds[frag.2]?).getD frag.2 < UInt32.size := fun frag inside =>
    carries.ids _ (List.mem_map_of_mem inside)
  have sizes : ∀ frag ∈ e.fragments.zipIdx, frag.1.length < UInt32.size := fun frag inside =>
    carries.sizes _ (List.mem_map_of_mem inside)
  have frags := LrcPayload.parseFragments_append count ids sizes carries.size
  rw [List.length_zipIdx] at frags
  rw [carries.payload_eq]
  exact LrcPayload.parse_of_parseFragments (carries.headFits placed) (carries.applyUserKey_eq.symm ▸ key) frags

/-- There are no more distinct ids than 32-bit words. With that many, the count is cut to zero. -/
theorem Carries.payload_of_uncounted (carries : fsm.Carries m e userKey originalSize) (key : userKey.length < UInt32.size)
    (placed : e.placement.length < UInt32.size) (uncounted : UInt32.size ≤ e.fragments.length) :
    (∀ id < UInt32.size, ∃ frag, (id, frag) ∈ e.numbered) ∧ ∃ size,
      e.numbered.head?.map Prod.fst = some (size % UInt32.size) ∧
      payload? m = some ((e.toPayload userKey size).withFragments []) := by
  have words : ∀ id ∈ e.numbered.map Prod.fst, id < UInt32.size := by
    intro id member
    obtain ⟨p, inside, rfl⟩ := List.mem_map.mp member
    exact carries.ids p inside
  obtain ⟨full, all⟩ := mem_of_full carries.distinct words (by rwa [List.length_map, e.length_numbered])
  rw [List.length_map, e.length_numbered] at full
  refine ⟨fun id bound => ?_, ?_⟩
  · obtain ⟨p, inside, rfl⟩ := List.mem_map.mp (all id bound)
    exact ⟨p.2, inside⟩
  · cases indexed : e.fragments.zipIdx with
    | nil =>
      have none : e.fragments.zipIdx.length = 0 := by rw [indexed, List.length_nil]
      rw [List.length_zipIdx, full] at none
      exact absurd none (by decide)
    | cons first rest =>
      have numbered : e.numbered = LrcPayload.numbered e.fragIds (first :: rest) := by rw [LogEntry.numbered, indexed]
      have word : (e.fragIds[first.2]?).getD first.2 < UInt32.size := by
        refine carries.ids (_, first.1) ?_
        rw [numbered]
        exact List.mem_cons_self
      have cut : e.fragments.length % UInt32.size = 0 := by rw [full, Nat.mod_self]
      obtain ⟨size, same, read⟩ := LrcPayload.parseFragments_uncounted cut word first.1 (first.1.take (first.1.length % UInt32.size) ++
          (rest.flatMap (serializeFragment e.fragIds) ++ encodeFixed64 originalSize))
      refine ⟨size, ?_, ?_⟩
      · rw [numbered, same]
        rfl
      · rw [carries.payload_eq]
        refine LrcPayload.parse_of_parseFragments (carries.headFits placed) (carries.applyUserKey_eq.symm ▸ key) ?_
        rw [indexed, ← read, List.flatMap_cons, serializeFragment]
        simp only [List.append_assoc]

variable {frags : List (Nat × Slice)} {size : Nat}

theorem Carries.record_eq (carries : fsm.Carries m e userKey originalSize)
    (payload : payload? m = some ((e.toPayload userKey size).withFragments frags))
    (key : userKey.length < UInt32.size) (count : e.placement.length < UInt32.size) (db : Database) :
    (db.write (fsm.writes m) (stripeMetaDbKey fsm.groupId userKey)).bind StripeLogMeta.deserialize =
      some (fsm.stripeMeta m (e.toPayload userKey size)).cut := by
  have zero : 0 < UInt32.size := by decide
  have sameKey : ((e.toPayload userKey size).withFragments frags).userKey = userKey := carries.applyUserKey_eq
  have placement : ∀ fp ∈ e.placement.map FragmentPlacement.toWords, fp.Fits := by
    intro words listed
    obtain ⟨fp, inside, rfl⟩ := List.mem_map.mp listed
    exact (carries.placement fp inside).toWords
  have keySize : (applyUserKey e userKey).length < UInt32.size := by rwa [carries.applyUserKey_eq]
  have fits : (fsm.stripeMeta m (e.toPayload userKey size)).cut.Fits :=
    ⟨keySize, carries.stripeId, carries.entryId, carries.groupId, Nat.mod_lt _ zero, carries.encMode, carries.k,
      carries.l, carries.r, zero, (List.length_map _).trans_lt count, placement⟩
  rw [writes_of_payload payload, write_stripeWrites_meta, if_pos sameKey, Option.bind_some, ← StripeLogMeta.serialize_cut]
  exact StripeLogMeta.deserialize_serialize fits

/-- The handler inverts the payload if it reads the size and the fragments held here. -/
theorem Carries.inverts_of_read (carries : fsm.Carries m e userKey originalSize)
    (payload : payload? m = some ((e.toPayload userKey size).withFragments frags))
    (key : userKey.length < UInt32.size) (count : e.placement.length < UInt32.size)
    (same : size % UInt32.size = originalSize) (distinct : (frags.map Prod.fst).Nodup)
    (held : ∀ fp ∈ e.placement, fp.nodeId = fsm.nodeId → ∀ frag, (fp.fragId, frag) ∈ frags ↔ (fp.fragId, frag) ∈ e.numbered) :
    fsm.Inverts m e userKey originalSize := by
  have read : ∀ {fragId frag}, ((e.toPayload userKey size).withFragments frags).fragment fragId = some frag ↔
      (fragId, frag) ∈ frags := LrcPayload.fragment_eq_some_iff distinct
  refine ⟨fun db => ?_, fun db fragId frag holds => ?_, fun db other differs unheld => ?_⟩
  · exact ⟨_, carries.record_eq payload key count db, rfl, rfl, rfl, rfl, same⟩
  · obtain ⟨⟨fp, placed, here, rfl⟩, inside⟩ := holds
    have words : ∀ fp ∈ e.placement.map FragmentPlacement.toWords, fp.fragId < UInt32.size := by
      intro words listed
      obtain ⟨fp, inside, rfl⟩ := List.mem_map.mp listed
      exact (carries.placement fp inside).1
    have listed : fp.toWords ∈ ((e.toPayload userKey size).withFragments frags).placement := List.mem_map_of_mem placed
    have found := read.mpr ((held fp placed here frag).mpr inside)
    rw [writes_of_payload payload]
    have own : fp.toWords.nodeId = fsm.nodeId := here
    exact write_stripeWrites_fragment db words listed own found
  · rw [writes_of_payload payload]
    refine Database.write_of_forall_ne db fun q written => ?_
    rcases List.mem_cons.mp written with rfl | fragment
    · intro own
      rw [← own] at differs
      exact differs (congrArg (stripeMetaDbKey fsm.groupId) carries.applyUserKey_eq)
    · obtain ⟨words, listed, here, found, written⟩ := mem_localFragments.mp fragment
      obtain ⟨fp, placed, rfl⟩ := List.mem_map.mp listed
      have inside := (held fp placed here q.2).mp (read.mp found)
      rw [← written]
      exact (unheld fp.fragId q.2 ⟨⟨fp, placed, here, rfl⟩, inside⟩).symm

theorem write_fragment_of_unread (payload : payload? m = some ((e.toPayload userKey size).withFragments []))
    (fragId : Nat) : Database.write (fun _ => none) (fsm.writes m) (fragDbKey fsm.groupId m.stripeId fragId) = none := by
  rw [writes_of_payload payload]
  refine Database.write_of_forall_ne _ fun q written => ?_
  rcases List.mem_cons.mp written with rfl | fragment
  · exact (fragDbKey_ne_stripeMetaDbKey _ _ _).symm
  · obtain ⟨_, _, _, found, _⟩ := mem_localFragments.mp fragment
    cases found

theorem Carries.countable_of_inverts (carries : fsm.Carries m e userKey originalSize)
    (inverts : fsm.Inverts m e userKey originalSize) : fsm.Countable e userKey originalSize := by
  obtain ⟨stripe, read, _, _, _, placed, sized⟩ := inverts.record fun _ => none
  obtain ⟨value, stored, decoded⟩ := Option.bind_eq_some_iff.mp read
  obtain ⟨sizeBound, countBound⟩ := StripeLogMeta.bounds_of_deserialize decoded
  rw [sized] at sizeBound
  rw [placed, List.length_map] at countBound
  have key : userKey.length < UInt32.size := by
    cases payload : payload? m with
    | none =>
      rw [carries.framed.writes_eq, if_pos rfl, payload] at stored
      cases stored
    | some p =>
      rw [writes_of_payload payload, write_stripeWrites_meta] at stored
      split at stored
      · rename_i same
        rw [← same]
        exact LrcPayload.length_userKey_lt (carries.payload_eq.symm.trans payload)
      · cases stored
  refine ⟨key, countBound, sizeBound, ?_⟩
  rcases Nat.lt_or_ge e.fragments.length UInt32.size with counted | uncounted
  · exact Or.inl counted
  · right
    obtain ⟨all, size, first, payload⟩ := carries.payload_of_uncounted key countBound uncounted
    constructor
    · intro fp member here
      obtain ⟨frag, inside⟩ := all fp.fragId (carries.placement fp member).1
      have held := inverts.fragments (fun _ => none) fp.fragId frag ⟨⟨fp, member, here, rfl⟩, inside⟩
      rw [write_fragment_of_unread payload] at held
      cases held
    · have record := carries.record_eq payload key countBound fun _ => none
      rw [read] at record
      rw [first, ← sized, Option.some.inj record]
      rfl

theorem Carries.inverts_of_countable (carries : fsm.Carries m e userKey originalSize)
    (countable : fsm.Countable e userKey originalSize) : fsm.Inverts m e userKey originalSize := by
  obtain ⟨key, placed, small, fragments⟩ := countable
  rcases Nat.lt_or_ge e.fragments.length UInt32.size with counted | uncounted
  · have payload := carries.payload_of_counted key placed counted
    exact carries.inverts_of_read payload key placed (Nat.mod_eq_of_lt small) carries.distinct fun _ _ _ _ => Iff.rfl
  · obtain ⟨away, named⟩ := fragments.resolve_left (Nat.not_lt.mpr uncounted)
    obtain ⟨_, size, first, payload⟩ := carries.payload_of_uncounted key placed uncounted
    have same : size % UInt32.size = originalSize := Option.some.inj (first.symm.trans named)
    exact carries.inverts_of_read payload key placed same List.nodup_nil fun fp member here => absurd here (away fp member)

theorem inverts_iff_countable (carries : fsm.Carries m e userKey originalSize) :
    fsm.Inverts m e userKey originalSize ↔ fsm.Countable e userKey originalSize :=
  ⟨carries.countable_of_inverts, carries.inverts_of_countable⟩

end Handling

/-- Two fragments out of order; the one of node 1 is missing. -/
def twoFragments : LogEntry :=
  { chunkInfo := { k := 2, l := 2, r := 2, raftIndex := 7, lrcGroupId := 0 }
    fragments := [[1, 2], [3]]
    fragIds := [5, 3]
    placement := [⟨3, 0, 0, .kData⟩, ⟨4, 1, 1, .kData⟩, ⟨5, -1, 0, .kGlobalParity⟩] }

def groupNine : ApplyFsm :=
  { groupId := 9, nodeId := 0, encMode := 2, applyStripePacked := fun _ => [], applyStripeCommand := fun _ _ => [] }

def messageOf (originalSize : Nat) : MsgApplyCommitted :=
  { entryId := 7, stripeId := 7, groupId := 9, data := serializeForApply twoFragments [97] originalSize }

theorem carries_messageOf {originalSize : Nat} (size : originalSize < 2 ^ 64) :
    groupNine.Carries (messageOf originalSize) twoFragments [97] originalSize := by
  have seven : 7 < 2 ^ 64 := by decide
  have placement : ∀ fp ∈ twoFragments.placement, fp.Fits := by
    unfold FragmentPlacement.Fits
    decide
  exact ⟨rfl, by decide, by decide, by decide, by decide, by decide, by decide, by decide, by decide, placement, size,
    by decide, by decide, seven, seven⟩

theorem inverts_iff_countable_twoFragments :
    groupNine.Carries (messageOf 3) twoFragments [97] 3 ∧ groupNine.Countable twoFragments [97] 3 ∧
      groupNine.Inverts (messageOf 3) twoFragments [97] 3 := by
  have carries : groupNine.Carries (messageOf 3) twoFragments [97] 3 := carries_messageOf (by decide)
  have countable : groupNine.Countable twoFragments [97] 3 := ⟨by decide, by decide, by decide, Or.inl (by decide)⟩
  refine ⟨carries, countable, ?_⟩
  rw [inverts_iff_countable carries]
  exact countable

/-- A value of four gibibytes: the record says that it is empty. -/
theorem size_cut_in_record : groupNine.Carries (messageOf (2 ^ 32)) twoFragments [97] (2 ^ 32) ∧
      ((Database.write (fun _ => none) (groupNine.writes (messageOf (2 ^ 32))) (stripeMetaDbKey 9 [97])).bind
        StripeLogMeta.deserialize).map StripeLogMeta.originalSize = some 0 ∧
      ¬ groupNine.Inverts (messageOf (2 ^ 32)) twoFragments [97] (2 ^ 32) := by
  have carries : groupNine.Carries (messageOf (2 ^ 32)) twoFragments [97] (2 ^ 32) := carries_messageOf (by decide)
  have record := carries.record_eq (carries.payload_of_counted (by decide) (by decide) (by decide)) (by decide) (by decide)
    fun _ => none
  refine ⟨carries, ?_, fun inverts => absurd (carries.countable_of_inverts inverts).size (by decide)⟩
  change ((Database.write _ _ (stripeMetaDbKey groupNine.groupId _)).bind _).map _ = _
  rw [record]
  rfl

end ApplyFsm

end FlexRaft
