import FlexRaft.StripeEncode
import FlexRaft.StripeFraming
import FlexRaft.ApplyOrder

namespace FlexRaft

namespace StripeEncodeResult

/-- `enc.meta` with the key and the ids of the command. -/
def keyed (result : StripeEncodeResult) (groupId entryId : Nat) (userKey : Slice) (size : Nat) : StripeLogMeta :=
  { result.stripe with
    stripeId := entryId
    entryId := entryId
    userKey := userKey
    groupId := groupId
    originalSize := size }

/-- All fragments that have a place, not only those of the node. -/
def allFrags (result : StripeEncodeResult) : List PackedNodeFragment :=
  result.stripe.placement.filterMap fun fp =>
    if fp.fragId < 2 ^ 31 then (result.allFragments[fp.fragId]?).map fun bytes => { fragId := fp.fragId, bytes := bytes }
    else none

/-- What `ApplyStripeCommand` writes in one go: the merged format, the index of the fragments, and the format that
`TryStripeGet` reads. -/
def batch (result : StripeEncodeResult) (groupId entryId : Nat) (userKey : Slice) (size : Nat) : List (Slice × Slice) :=
  let stripe := result.keyed groupId entryId userKey size
  let primaryKey := makeStripePrimaryKey groupId userKey
  (primaryKey, serializeMergedFragStore stripe result.allFrags) ::
    result.allFrags.map (fun f => (makeFragIndexKey groupId f.fragId, primaryKey)) ++
    (stripeMetaDbKey groupId userKey, stripe.serialize) ::
    result.allFrags.map fun f => (fragDbKey groupId entryId f.fragId, f.bytes)

section Batch

variable {result : StripeEncodeResult} {groupId entryId size : Nat} {userKey : Slice}

theorem mem_batch {q : Slice × Slice} (member : q ∈ result.batch groupId entryId userKey size) :
    q.1 = makeStripePrimaryKey groupId userKey ∨ (∃ fragId, q.1 = makeFragIndexKey groupId fragId) ∨
      q = (stripeMetaDbKey groupId userKey, (result.keyed groupId entryId userKey size).serialize) ∨
      ∃ f ∈ result.allFrags, q = (fragDbKey groupId entryId f.fragId, f.bytes) := by
  rcases List.mem_append.mp member with front | back
  · rcases List.mem_cons.mp front with rfl | index
    · exact Or.inl rfl
    · obtain ⟨f, _, rfl⟩ := List.mem_map.mp index
      exact Or.inr (Or.inl ⟨f.fragId, rfl⟩)
  · rcases List.mem_cons.mp back with rfl | fragment
    · exact Or.inr (Or.inr (Or.inl rfl))
    · obtain ⟨f, inside, rfl⟩ := List.mem_map.mp fragment
      exact Or.inr (Or.inr (Or.inr ⟨f, inside, rfl⟩))

theorem write_batch_meta (db : Database) : db.write (result.batch groupId entryId userKey size)
    (stripeMetaDbKey groupId userKey) = some (result.keyed groupId entryId userKey size).serialize := by
  have member : (stripeMetaDbKey groupId userKey, (result.keyed groupId entryId userKey size).serialize) ∈
      result.batch groupId entryId userKey size := List.mem_append_right _ List.mem_cons_self
  refine Database.write_of_mem db member fun q written same => ?_
  rcases mem_batch written with primary | ⟨fragId, index⟩ | rfl | ⟨f, _, rfl⟩
  · exact absurd (primary.symm.trans same) (makeStripePrimaryKey_ne_stripeMetaDbKey _)
  · exact absurd (index.symm.trans same) (makeFragIndexKey_ne_stripeMetaDbKey _ _)
  · rfl
  · exact absurd same (fragDbKey_ne_stripeMetaDbKey _ _ _)

theorem write_batch_fragment (db : Database) {fp : StripePlacement} (placed : fp ∈ result.stripe.placement)
    (int : fp.fragId < 2 ^ 31) {bytes : Slice} (found : result.allFragments[fp.fragId]? = some bytes) :
    db.write (result.batch groupId entryId userKey size) (fragDbKey groupId entryId fp.fragId) = some bytes := by
  have words : 2 ^ 31 < UInt32.size := by decide
  have listed : { fragId := fp.fragId, bytes := bytes } ∈ result.allFrags := by
    refine List.mem_filterMap.mpr ⟨fp, placed, ?_⟩
    rw [if_pos int, found]
    rfl
  have member : (fragDbKey groupId entryId fp.fragId, bytes) ∈ result.batch groupId entryId userKey size := by
    refine List.mem_append_right _ (List.mem_cons_of_mem _ ?_)
    exact List.mem_map.mpr ⟨_, listed, rfl⟩
  refine Database.write_of_mem db member fun q written same => ?_
  rcases mem_batch written with primary | ⟨fragId, index⟩ | rfl | ⟨f, inside, rfl⟩
  · exact absurd (primary.symm.trans same) (makeStripePrimaryKey_ne_fragDbKey _ _ _)
  · exact absurd (index.symm.trans same) (makeFragIndexKey_ne_fragDbKey _ _ _ _ _)
  · exact absurd same.symm (fragDbKey_ne_stripeMetaDbKey _ _ _)
  · obtain ⟨fp', _, made⟩ := List.mem_filterMap.mp inside
    split at made
    · rename_i int'
      obtain ⟨bytes', found', rfl⟩ := Option.map_eq_some_iff.mp made
      have id : fp'.fragId = fp.fragId := fragDbKey_inj (int'.trans words) (int.trans words) same
      rw [id, found] at found'
      exact (Option.some.inj found').symm
    · cases made

end Batch

end StripeEncodeResult

/-- How `ApplyStripeCommand` ends. -/
inductive StripeApplyResult
  | threw (error : PlacementError)
  | overrun
  | refused
  | written (batch : List (Slice × Slice))
  deriving DecidableEq, Repr

def applyStripeCommand (lib : StripeLibraries) (groupId : Nat) (mode : EncodingMode) (clusterN : Int) (entryId : Nat)
    (cmdBytes : Slice) : StripeApplyResult :=
  match StripeWriteCommand.deserialize cmdBytes with
  | none => .refused
  | some cmd =>
    match EncodeStripeCall.encodeStripePayload lib
      { mode := mode, n := clusterN, groupId := groupId, eid := entryId, data := cmd.userValue } with
    | .threw error => .threw error
    | .overrun => .overrun
    | .failed => .refused
    | .encoded result => .written (result.batch groupId entryId cmd.userKey cmd.userValue.length)

/-- A command that was written whole is applied as its value is encoded. -/
theorem applyStripeCommand_serialize {cmd : StripeWriteCommand} (sized : cmd.Sized) {lib : StripeLibraries}
    {call : EncodeStripeCall} (value : call.data = cmd.userValue) {result : StripeEncodeResult}
    (encoded : call.encodeStripePayload lib = .encoded result) :
    applyStripeCommand lib call.groupId call.mode call.n call.eid cmd.serialize =
      .written (result.batch call.groupId call.eid cmd.userKey call.data.length) := by
  have whole := ((StripeWriteCommand.consumes_deserialize sized).recovers rfl).reads
  rw [applyStripeCommand, whole]
  dsimp only
  rw [← value, encoded]

end FlexRaft
