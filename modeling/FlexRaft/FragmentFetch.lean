import FlexRaft.StripeGet

namespace FlexRaft

variable {stripeId fragId : Nat}

/-- A record that applying a put writes: the metadata that `TryStripeGet` reads, a fragment, and the merged format with
the index of its fragments. -/
inductive StripeRecord
  | metadata (stripe : StripeLogMeta)
  | fragment (groupId stripeId fragId : Nat) (bytes : Slice)
  | merged (groupId : Nat) (userKey value : Slice)
  | fragIndex (groupId fragId : Nat) (primaryKey : Slice)
  deriving DecidableEq, Repr

namespace StripeRecord

def pair : StripeRecord → Slice × Slice
  | .metadata stripe => (stripeMetaDbKey stripe.groupId stripe.userKey, stripe.serialize)
  | .fragment groupId stripeId fragId bytes => (fragDbKey groupId stripeId fragId, bytes)
  | .merged groupId userKey value => (makeStripePrimaryKey groupId userKey, value)
  | .fragIndex groupId fragId primaryKey => (makeFragIndexKey groupId fragId, primaryKey)

/-- The ids are values of their types. -/
def Fits : StripeRecord → Prop
  | .metadata stripe => stripe.Fits
  | .fragment _ stripeId fragId _ => stripeId < 2 ^ 64 ∧ fragId < UInt32.size
  | _ => True

/-- The database of a node that has written these records, in this order. -/
def database (records : List StripeRecord) : Database := Database.write (fun _ => none) (records.map pair)

/-- The bytes, if the record is this fragment. -/
def bytesOf (groupId stripeId fragId : Nat) : StripeRecord → Option Slice
  | .fragment g s f bytes => if g = groupId ∧ s = stripeId ∧ f = fragId then some bytes else none
  | _ => none

/-- The bytes of a fragment as they were stored last. -/
def storedFragment (groupId stripeId fragId : Nat) (records : List StripeRecord) : Option Slice :=
  (records.filterMap (bytesOf groupId stripeId fragId)).getLast?

variable {groupId stripeId fragId : Nat} {records : List StripeRecord}

theorem database_append (records : List StripeRecord) (r : StripeRecord) (key : Slice) :
    database (records ++ [r]) key = if key = r.pair.1 then some r.pair.2 else database records key := by
  rw [database, Database.write, List.map_append, List.foldl_append]
  rfl

theorem pair_fst_eq_fragDbKey {r : StripeRecord} (fits : r.Fits) (bound : fragId < UInt32.size)
    (same : r.pair.1 = fragDbKey groupId stripeId fragId) : ∃ bytes, r = .fragment groupId stripeId fragId bytes := by
  cases r with
  | metadata => exact absurd same.symm (fragDbKey_ne_stripeMetaDbKey _ _ _)
  | fragment g s f bytes =>
    obtain ⟨rfl, rfl, rfl⟩ := eq_of_fragDbKey_eq fits.2 bound same
    exact ⟨bytes, rfl⟩
  | merged => exact absurd same (makeStripePrimaryKey_ne_fragDbKey _ _ _)
  | fragIndex => exact absurd same (makeFragIndexKey_ne_fragDbKey _ _ _ _ _)

theorem database_fragDbKey (fits : ∀ r ∈ records, r.Fits) (bound : fragId < UInt32.size) :
    database records (fragDbKey groupId stripeId fragId) = storedFragment groupId stripeId fragId records := by
  induction records using List.reverseRecOn with
  | nil => rfl
  | append_singleton records r ih =>
    have earlier := ih fun r member => fits r (List.mem_append_left _ member)
    rw [database_append, storedFragment, List.filterMap_append, earlier]
    split
    · rename_i same
      obtain ⟨bytes, rfl⟩ := pair_fst_eq_fragDbKey (fits r (by simp)) bound same.symm
      simp [bytesOf, pair]
    · rename_i other
      have none : bytesOf groupId stripeId fragId r = none := by
        cases r with
        | fragment g s f bytes =>
          refine if_neg ?_
          rintro ⟨rfl, rfl, rfl⟩
          exact other rfl
        | _ => rfl
      rw [List.filterMap_cons_none none, List.filterMap_nil, List.append_nil, storedFragment]

theorem lt_of_storedFragment (fits : ∀ r ∈ records, r.Fits) {bytes : Slice}
    (stored : storedFragment groupId stripeId fragId records = some bytes) : stripeId < 2 ^ 64 := by
  obtain ⟨r, member, found⟩ := List.mem_filterMap.mp (List.mem_of_getLast? stored)
  cases r with
  | fragment g s f other =>
    obtain ⟨-, rfl, -⟩ := (Option.ite_none_right_eq_some.mp found).1
    exact (fits _ member).1
  | _ => cases found

theorem database_stripeMetaDbKey {key : Slice}
    (absent : ∀ stripe, .metadata stripe ∈ records → stripe.groupId = groupId → stripe.userKey ≠ key) :
    database records (stripeMetaDbKey groupId key) = none := by
  refine Database.write_of_forall_ne _ fun q written same => ?_
  obtain ⟨r, member, rfl⟩ := List.mem_map.mp written
  cases r with
  | metadata stripe =>
    obtain ⟨group, user⟩ := eq_of_stripeMetaDbKey_eq same
    exact absent stripe member group user
  | fragment => exact fragDbKey_ne_stripeMetaDbKey _ _ _ same
  | merged => exact makeStripePrimaryKey_ne_stripeMetaDbKey _ same
  | fragIndex => exact makeFragIndexKey_ne_stripeMetaDbKey _ _ same

end StripeRecord

open StripeRecord

/-- A node answers every `GetValue` for a fragment that it stores with the bytes of the fragment, whatever has been put
under these user keys of the group, and whatever in other groups. -/
def FetchesFragments (groupId : Nat) (keys : Slice → Prop) : Prop :=
  ∀ (nodes : StripeNodes) (node depth : Nat) (records : List StripeRecord), nodes.groupId = groupId →
    nodes.dbs node = database records → (∀ r ∈ records, r.Fits) →
    (∀ stripe, .metadata stripe ∈ records → stripe.groupId = groupId → keys stripe.userKey) →
    ∀ stripeId fragId bytes, fragId < UInt32.size → storedFragment groupId stripeId fragId records = some bytes →
      nodes.getValue node (fragDbKey groupId stripeId fragId)
        (nodes.tryStripeGet (depth + 1) node (fragDbKey groupId stripeId fragId)) = some (some bytes)

/-- Records of different fragments or different user keys never share a key. -/
structure KeysApart : Prop where
  fragment : ∀ g s f g' s' f', f < UInt32.size → f' < UInt32.size → fragDbKey g s f = fragDbKey g' s' f' →
    g = g' ∧ s = s' ∧ f = f'
  metadata : ∀ g key g' key', stripeMetaDbKey g key = stripeMetaDbKey g' key' → g = g' ∧ key = key'
  kinds : ∀ g s f g' key, fragDbKey g s f ≠ stripeMetaDbKey g' key

theorem keysApart : KeysApart where
  fragment := fun _ _ _ _ _ _ bound bound' => eq_of_fragDbKey_eq bound bound'
  metadata := fun _ _ _ _ => eq_of_stripeMetaDbKey_eq
  kinds := fun _ _ _ _ _ => fragDbKey_ne_stripeMetaDbKey _ _ _

/-- A stripe of one fragment on node 0. -/
def singleStripe (groupId stripeId : Nat) (userKey : Slice) : StripeLogMeta :=
  { userKey, stripeId, entryId := stripeId, groupId, originalSize := 1, encodingMode := 2, k := 1, l := 1, r := 0, m := 0
    placement := [{ fragId := 0, localGroup := 0, nodeId := 0, kind := 0 }] }

/-- A node stores a fragment, and a put under the key of this fragment. -/
def shadowing (groupId stripeId fragId other : Nat) : List StripeRecord :=
  [.fragment groupId stripeId fragId [1], .fragment groupId other 0 [2],
    .metadata (singleStripe groupId other (fragDbKey groupId stripeId fragId))]

theorem length_fragDbKey_lt {groupId : Nat} (group : groupId < UInt32.size) (stripe : stripeId < 2 ^ 64)
    (frag : fragId < UInt32.size) : (fragDbKey groupId stripeId fragId).length < UInt32.size := by
  have digits {n : Nat} (word : n < 10 ^ 20) : (toDecimal n).length ≤ 20 := by
    rw [toDecimal, List.length_map, Nat.length_toDigits_le_iff (by decide) (by decide)]
    exact word
  have int : (intToDecimal fragId).length ≤ 21 := by
    unfold intToDecimal
    split
    · exact (digits (frag.trans (by decide))).trans (by decide)
    · rw [List.length_append]
      exact Nat.add_le_add_left (digits (by omega)) 1
  have group := digits (group.trans (by decide))
  have stripe := digits (stripe.trans (by decide))
  simp only [fragDbKey, List.length_append]
  simp only [ascii, List.length_map, UInt32.size]
  change 9 + _ + 1 + _ + 1 + _ < _
  omega

theorem shadowing_fits {groupId other : Nat} (group : groupId < UInt32.size) (stripe : stripeId < 2 ^ 64)
    (frag : fragId < UInt32.size) (small : other < 2 ^ 64) : ∀ r ∈ shadowing groupId stripeId fragId other, r.Fits := by
  have one : 1 < UInt32.size := by decide
  have zero : 0 < UInt32.size := by decide
  have fits : (singleStripe groupId other (fragDbKey groupId stripeId fragId)).Fits :=
    ⟨length_fragDbKey_lt group stripe frag, small, small, group, one, (by decide : 2 < 256), one, one, zero, zero, one,
      List.forall_mem_singleton.mpr ⟨zero, zero, zero, zero⟩⟩
  exact List.forall_mem_cons.mpr ⟨⟨stripe, frag⟩, List.forall_mem_cons.mpr ⟨⟨small, zero⟩, List.forall_mem_singleton.mpr fits⟩⟩

theorem getValue_shadowed {groupId other : Nat} (group : groupId < UInt32.size) (stripe : stripeId < 2 ^ 64)
    (frag : fragId < UInt32.size) (small : other < 2 ^ 64) (apart : stripeId ≠ other) {nodes : StripeNodes}
    (same : nodes.groupId = groupId) (stored : nodes.dbs 0 = database (shadowing groupId stripeId fragId other)) :
    nodes.getValue 0 (fragDbKey groupId stripeId fragId)
      (nodes.tryStripeGet 1 0 (fragDbKey groupId stripeId fragId)) = some (some [2]) := by
  have records := shadowing_fits group stripe frag small
  have fits := records (.metadata (singleStripe groupId other (fragDbKey groupId stripeId fragId))) (by simp [shadowing])
  have read : nodes.dbs 0 (fragDbKey groupId other 0) = some [2] := by
    rw [stored, database_fragDbKey records (by decide)]
    simp [shadowing, storedFragment, List.filterMap_cons, bytesOf, apart]
  have found : nodes.dbs 0 (stripeMetaDbKey groupId (fragDbKey groupId stripeId fragId)) =
      some (singleStripe groupId other (fragDbKey groupId stripeId fragId)).serialize := by
    rw [stored, shadowing, show ∀ a b c : StripeRecord, [a, b, c] = [a, b] ++ [c] from fun _ _ _ => rfl, database_append]
    exact if_pos rfl
  have collected : nodes.collect (nodes.tryStripeGet 0) 0 other
      ((singleStripe groupId other (fragDbKey groupId stripeId fragId)).placement.takeWhile fun fp => fp.kind = 0) [] =
        some [(0, [2])] := by
    change nodes.collect _ 0 other [{ fragId := 0, localGroup := 0, nodeId := 0, kind := 0 }] [] = _
    rw [StripeNodes.collect, StripeNodes.fetchFrag, if_pos rfl, same, read]
    rfl
  rw [StripeNodes.tryStripeGet, same, found, Option.bind_some, StripeLogMeta.deserialize_serialize fits]
  dsimp only
  rw [show (singleStripe groupId other (fragDbKey groupId stripeId fragId)).stripeId = other from rfl, collected]
  rfl

end FlexRaft
