import FlexRaft.StripeRoundTrip

namespace FlexRaft

open WordReader

theorem takes_readMagic {magic : Slice} (four : magic.length = 4) : Takes (readMagic magic) magic () := by
  constructor
  · intro rest
    have enough : ¬ (magic ++ rest).length < 4 := by
      rw [List.length_append]
      omega
    have front : ¬ (magic ++ rest).take 4 ≠ magic := not_not.mpr (List.take_left' four)
    rw [readMagic, if_neg (not_or.mpr ⟨enough, front⟩), List.drop_left' four]
  · intro short missing split left
    have some : 0 < missing.length := List.length_pos_iff.mpr left
    have total : short.length + missing.length = 4 := by rw [← List.length_append, split, four]
    exact if_pos (Or.inl (by omega))

namespace StripeWriteCommand

/-- Every field holds a value of its type, and the two sizes fit in 32 bits. -/
structure Sized (cmd : StripeWriteCommand) : Prop where
  groupId : cmd.groupId < UInt32.size
  encodingMode : cmd.encodingMode < 256
  userKey : cmd.userKey.length < UInt32.size
  userValue : cmd.userValue.length < UInt32.size

theorem consumes_deserialize {cmd : StripeWriteCommand} (sized : cmd.Sized) :
    Consumes deserialize cmd.serialize fun _ => some cmd := by
  have byte : LittleEndian.decode [UInt8.ofNat cmd.encodingMode] = cmd.encodingMode := by
    simp [LittleEndian.decode, Nat.mod_eq_of_lt sized.encodingMode]
  have layout : cmd.serialize = kStripeMagic ++ (appendU32 cmd.groupId ++ ([UInt8.ofNat cmd.encodingMode] ++
      (appendU32 cmd.userKey.length ++ (cmd.userKey ++ (appendU32 cmd.userValue.length ++ (cmd.userValue ++ [])))))) := by
    simp [serialize]
  rw [layout]
  refine .of_bind (takes_readMagic rfl) ?_
  refine .of_bind (takes_readU32 sized.groupId) ?_
  refine .of_bind (takes_readBytes [_]) ?_
  refine .of_bind (takes_readU32 sized.userKey) ?_
  refine .of_bind (takes_readBytes _) ?_
  refine .of_bind (takes_readU32 sized.userValue) ?_
  refine .of_bind (takes_readBytes _) ?_
  rw [byte]
  exact .nil _

end StripeWriteCommand

namespace PackedNodeFragment

structure Fits (f : PackedNodeFragment) : Prop where
  fragId : f.fragId < UInt32.size
  bytes : f.bytes.length < UInt32.size

theorem takes_read {f : PackedNodeFragment} (fits : f.Fits) : Takes read f.serialize f := by
  have layout : f.serialize = appendU32 f.fragId ++ (appendU32 f.bytes.length ++ (f.bytes ++ [])) := by simp [serialize]
  rw [layout]
  refine .of_bind (takes_readU32 fits.fragId) ?_
  refine .of_bind (takes_readU32 fits.bytes) ?_
  refine .of_bind (takes_readBytes _) ?_
  exact .nil _

theorem consumes_readList {frags : List PackedNodeFragment} (fits : ∀ f ∈ frags, f.Fits) :
    Consumes (readList frags.length) (frags.flatMap serialize) fun _ => some frags := by
  induction frags with
  | nil => exact .nil _
  | cons f rest ih =>
    obtain ⟨here, later⟩ := List.forall_mem_cons.mp fits
    refine .of_bind (takes_read here) ?_
    exact (ih later).map (f :: ·)

end PackedNodeFragment

section Packs

variable {magic : Slice} {stripe : StripeLogMeta} {frags : List PackedNodeFragment}

theorem packFragments_eq (magic : Slice) (stripe : StripeLogMeta) (frags : List PackedNodeFragment) :
    packFragments magic stripe frags = magic ++ (appendU32 stripe.serialize.length ++ (stripe.serialize ++
      (appendU32 frags.length ++ frags.flatMap PackedNodeFragment.serialize))) := by
  simp [packFragments]

theorem consumes_unpackFragments (four : magic.length = 4) (fits : stripe.Fits) (count : frags.length < UInt32.size)
    (each : ∀ f ∈ frags, f.Fits) (small : stripe.serialize.length < UInt32.size) :
    Consumes (unpackFragments magic) (packFragments magic stripe frags) fun _ => some (stripe, frags) := by
  rw [packFragments_eq]
  refine .of_bind (takes_readMagic four) ?_
  refine .of_bind (takes_readU32 small) ?_
  refine .of_bind (takes_readBytes _) ?_
  refine .of_some (StripeLogMeta.deserialize_serialize fits) ?_
  refine .of_bind (takes_readU32 count) ?_
  exact (PackedNodeFragment.consumes_readList each).map fun frags => (stripe, frags)

/-- The size of the metadata is cut to 32 bits, and a part of the metadata is refused. -/
theorem unpackFragments_of_large (four : magic.length = 4) (fits : stripe.Fits)
    (large : UInt32.size ≤ stripe.serialize.length) : unpackFragments magic (packFragments magic stripe frags) = none := by
  have cut : stripe.serialize.length % UInt32.size < UInt32.size := Nat.mod_lt _ (by decide)
  have same : appendU32 stripe.serialize.length = appendU32 (stripe.serialize.length % UInt32.size) := by
    rw [appendU32, appendU32, Nat.mod_mod]
  rw [packFragments_eq, unpackFragments, (takes_readMagic four).reads, Option.bind_eq_bind, Option.bind_some]
  dsimp only
  rw [same, (takes_readU32 cut).reads, Option.bind_eq_bind, Option.bind_some]
  dsimp only
  generalize stripe.serialize.length % UInt32.size = metaLen at cut
  have short : metaLen ≤ stripe.serialize.length := by omega
  have split : stripe.serialize.take metaLen ++ stripe.serialize.drop metaLen = stripe.serialize := List.take_append_drop _ _
  have left : stripe.serialize.drop metaLen ≠ [] := by
    rw [ne_eq, List.drop_eq_nil_iff]
    omega
  rw [readBytes, if_neg (by rw [List.length_append]; omega), List.take_append_of_le_length short, Option.bind_eq_bind,
    Option.bind_some]
  dsimp only
  rw [(StripeLogMeta.consumes_deserialize fits).refuses _ _ split left]
  rfl

/-- What was packed comes back exactly if the size of the metadata fits as well. -/
theorem recovers_unpackFragments_iff (four : magic.length = 4) (fits : stripe.Fits) (count : frags.length < UInt32.size)
    (each : ∀ f ∈ frags, f.Fits) : Recovers (unpackFragments magic) (packFragments magic stripe frags) (stripe, frags) ↔
      stripe.serialize.length < UInt32.size := by
  constructor
  · intro recovers
    by_contra large
    cases recovers.reads.symm.trans (unpackFragments_of_large four fits (Nat.not_lt.mp large))
  · intro small
    exact (consumes_unpackFragments four fits count each small).recovers rfl

theorem stripe_formats_recover {cmd : StripeWriteCommand} (sized : cmd.Sized) (fits : stripe.Fits)
    (count : frags.length < UInt32.size) (each : ∀ f ∈ frags, f.Fits) :
    Recovers StripeWriteCommand.deserialize cmd.serialize cmd ∧
      Recovers StripeLogMeta.deserialize stripe.serialize stripe ∧
      (Recovers unpackNodeFragments (packNodeFragments stripe frags) (stripe, frags) ↔
        stripe.serialize.length < UInt32.size) ∧
      (Recovers deserializeMergedFragStore (serializeMergedFragStore stripe frags) (stripe, frags) ↔
        stripe.serialize.length < UInt32.size) := by
  refine ⟨?_, ?_, ?_, ?_⟩
  · exact (StripeWriteCommand.consumes_deserialize sized).recovers rfl
  · exact (StripeLogMeta.consumes_deserialize fits).recovers rfl
  · exact recovers_unpackFragments_iff rfl fits count each
  · exact recovers_unpackFragments_iff rfl fits count each

end Packs

def putOfOneByte : StripeWriteCommand := { groupId := 3, userKey := [97], userValue := [1], encodingMode := 2 }

def stripeOfOneByte : StripeLogMeta :=
  { userKey := [97], stripeId := 5, entryId := 5, groupId := 3, originalSize := 1, encodingMode := 2, k := 4, l := 2, r := 6,
    m := 0, placement := [⟨0, 0, 2, 0⟩] }

def fragmentOfOneByte : List PackedNodeFragment := [⟨0, [1]⟩, ⟨5, []⟩]

theorem stripe_formats_recover_oneByte : putOfOneByte.Sized ∧ stripeOfOneByte.Fits ∧ (∀ f ∈ fragmentOfOneByte, f.Fits) ∧
    Recovers StripeWriteCommand.deserialize putOfOneByte.serialize putOfOneByte ∧
    Recovers unpackNodeFragments (packNodeFragments stripeOfOneByte fragmentOfOneByte) (stripeOfOneByte, fragmentOfOneByte) ∧
    Recovers deserializeMergedFragStore (serializeMergedFragStore stripeOfOneByte fragmentOfOneByte)
      (stripeOfOneByte, fragmentOfOneByte) := by
  have sized : putOfOneByte.Sized := ⟨by decide, by decide, by decide, by decide⟩
  have placed : ∀ fp ∈ stripeOfOneByte.placement, fp.Fits := by
    intro fp member
    rw [List.mem_singleton.mp member]
    exact ⟨by decide, by decide, by decide, by decide⟩
  have fits : stripeOfOneByte.Fits := ⟨by decide, by decide, by decide, by decide, by decide, by decide, by decide,
    by decide, by decide, by decide, by decide, placed⟩
  have each : ∀ f ∈ fragmentOfOneByte, f.Fits := by
    refine List.forall_mem_cons.mpr ⟨⟨by decide, by decide⟩, List.forall_mem_cons.mpr ⟨⟨by decide, by decide⟩, ?_⟩⟩
    exact List.forall_mem_nil _
  have small : stripeOfOneByte.serialize.length < UInt32.size := by decide
  obtain ⟨command, _, packed, merged⟩ := stripe_formats_recover sized fits (by decide) each
  exact ⟨sized, fits, each, command, packed.mpr small, merged.mpr small⟩

end FlexRaft
