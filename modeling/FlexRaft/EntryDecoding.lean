import FlexRaft.ErasureCode
import FlexRaft.Cluster

namespace FlexRaft

namespace Encoder

open GF256 CauchyCode Isal

section Scaled

variable {a : GF256}

/-- A buffer with every byte multiplied by a constant. -/
def scaled (a : GF256) (slice : Slice) : Slice := slice.map fun b => toByte (a * ofByte b)

theorem length_scaled (a : GF256) (slice : Slice) : (scaled a slice).length = slice.length := List.length_map _

theorem scaled_byte {b : UInt8} : toByte (a * ofByte b) = b ↔ a = 1 ∨ b = 0 := by
  constructor
  · intro same
    have product : a * ofByte b = ofByte b := by
      rw [← ofByte_toByte (a * ofByte b), same]
    rcases mul_left_eq_self₀.mp product with one | zero
    · exact Or.inl one
    · exact Or.inr (congrArg toByte zero)
  · rintro (rfl | rfl)
    · rw [one_mul, toByte_ofByte]
    · rw [show ofByte 0 = 0 from rfl, mul_zero]
      rfl

theorem scaled_eq_self {slice : Slice} : scaled a slice = slice ↔ a = 1 ∨ ∀ b ∈ slice, b = 0 := by
  have bytes : scaled a slice = slice ↔ ∀ b ∈ slice, toByte (a * ofByte b) = b := by
    unfold scaled
    nth_rewrite 2 [← List.map_id slice]
    exact List.map_inj_left
  rw [bytes]
  constructor
  · intro fixed
    by_cases one : a = 1
    · exact Or.inl one
    · exact Or.inr fun b member => (scaled_byte.mp (fixed b member)).resolve_left one
  · rintro (one | zero) b member
    · exact scaled_byte.mpr (Or.inl one)
    · exact scaled_byte.mpr (Or.inr (zero b member))

end Scaled

section SingleFragment

variable {slice : Slice} {m : Nat} {fragments : OrdMap Slice} {i : Nat}

theorem inverse_fin_one (A : Matrix (Fin 1) (Fin 1) GF256) : inverse A 0 0 = (A 0 0)⁻¹ := by
  unfold inverse
  rw [Matrix.adjugate_subsingleton, Matrix.det_fin_one, Matrix.smul_apply, Matrix.one_apply_eq, smul_eq_mul, mul_one]

theorem ecEncodeData_one (weights : Fin 1 → GF256) (slice : Slice) :
    ecEncodeData 1 weights [slice] = scaled (weights 0) slice := by
  refine List.ext_getElem ?_ ?_
  · rw [length_scaled]
    exact length_ecEncodeData (List.cons_ne_nil _ _) (fun other member => by rw [List.mem_singleton.mp member])
  · intro place inside inside'
    rw [length_scaled] at inside'
    simp only [ecEncodeData, scaled, List.getElem_map, List.getElem_range, Finset.univ_unique, Finset.sum_singleton]
    rw [← List.getD_eq_getElem slice 0 inside']
    rfl

/-- Cauchy row `i` has the inverse of `i`, so that decoding multiplies by `i` what was stored as it is. -/
theorem recover_one (parity : 1 ≤ i) (n : Nat) (slice : Slice) :
    gf256.recover 1 n [i] [slice] 0 = scaled (ofIndex i) slice := by
  have entry : rowMatrix ofIndex 1 (fun j => [i].getD j 0) 0 0 = (ofIndex i)⁻¹ := by
    change row ofIndex 1 i 0 = (ofIndex i)⁻¹
    unfold row
    rw [if_neg (by omega)]
    change (ofIndex i - 0)⁻¹ = _
    rw [sub_zero]
  simp only [gf256, Nat.one_pos, dif_pos]
  rw [ecEncodeData_one]
  congr 1
  exact (inverse_fin_one _).trans (by rw [entry, inv_inv])

/-- The first fragment alone decides: number 0 is copied, any other is taken for a Cauchy row. -/
theorem decodeSliceHelper_one {frag : Slice} {rest : OrdMap Slice}
    (held : FragmentsOf slice 1 m ((i, frag) :: rest)) (ascending : OrdMap.Ascending ((i, frag) :: rest)) :
    decodeSliceHelper gf256 ((i, frag) :: rest) 1 (1 + m) =
      .decoded (scaled (if i = 0 then 1 else ofIndex i) slice) := by
  obtain rfl : frag = slice := (held.value _ List.mem_cons_self).2
  have sizes : ((i, frag) :: rest).any (fun p => decide (p.1 < 1) && decide (p.2.length ≠ frag.length)) = false := by
    simp only [List.any_eq_false]
    intro p member
    have value : p.2 = frag := (held.value p member).2
    simp [value]
  have row : decodedRow gf256 ((i, frag) :: rest) 1 (1 + m) 0 = scaled (if i = 0 then 1 else ofIndex i) frag := by
    unfold decodedRow
    by_cases first : i = 0
    · subst first
      rw [if_pos rfl, scaled_eq_self.mpr (Or.inl rfl)]
      rfl
    · have missing : OrdMap.find ((i, frag) :: rest) 0 = none := by
        unfold OrdMap.find
        rw [Option.map_eq_none_iff, List.find?_eq_none]
        intro p member zero
        have zero : p.1 = 0 := by simpa using zero
        rcases List.mem_cons.mp member with rfl | later
        · exact first zero
        · have above : i < p.1 := (List.pairwise_cons.mp ascending).1 p later
          omega
      rw [missing, if_neg first]
      exact recover_one (by omega) (1 + m) frag
  unfold decodeSliceHelper
  rw [if_neg Nat.one_ne_zero, if_neg (by rw [List.length_cons]; omega)]
  dsimp only [List.head?_cons, Option.map_some, Option.getD_some]
  rw [sizes]
  simp only [Bool.false_eq_true, if_false, List.range_one, List.map_singleton, List.flatten_singleton, row]

/-- With one data fragment the payload comes back from the fragments 0 and 1 only, or if it is all zeros. -/
theorem decodeSliceHelper_one_iff (held : FragmentsOf slice 1 m fragments) (ascending : fragments.Ascending)
    (room : 1 + m ≤ 256) (enough : 1 ≤ fragments.length) :
    decodeSliceHelper gf256 fragments 1 (1 + m) = .decoded slice ↔
      (∃ id ∈ fragments.keys, id ≤ 1) ∨ ∀ b ∈ slice, b = 0 := by
  rcases fragments with _ | ⟨⟨i, frag⟩, rest⟩
  · exact absurd enough (by decide)
  have bound : i < 256 := (held.value _ List.mem_cons_self).1.trans_le room
  have smallest : (∃ id ∈ OrdMap.keys ((i, frag) :: rest), id ≤ 1) ↔ i ≤ 1 := by
    constructor
    · rintro ⟨id, member, small⟩
      obtain ⟨p, inside, rfl⟩ := List.mem_map.mp member
      rcases List.mem_cons.mp inside with rfl | later
      · exact small
      · have above : i < p.1 := (List.pairwise_cons.mp ascending).1 p later
        omega
    · intro small
      exact ⟨i, List.mem_cons_self, small⟩
  have factor : (if i = 0 then 1 else ofIndex i) = (1 : GF256) ↔ i ≤ 1 := by
    split
    · rename_i zero
      exact iff_of_true rfl (by omega)
    · rename_i positive
      constructor
      · intro one
        have same : i = 1 := ofIndex_injective bound (by decide) one
        omega
      · intro small
        obtain rfl : i = 1 := by omega
        rfl
  rw [decodeSliceHelper_one held ascending, DecodeResult.decoded.injEq, scaled_eq_self, factor, smallest]

end SingleFragment

/-- Where the fragments hold what decoding needs. -/
def Decodes (slice : Slice) (k : Nat) (ids : List Nat) : Prop := 2 ≤ k ∨ (∃ id ∈ ids, id ≤ 1) ∨ ∀ b ∈ slice, b = 0

section AnyFragments

variable {slice : Slice} {k m : Nat} {fragments : OrdMap Slice}

theorem padded_one (slice : Slice) : padded slice 1 = slice := by
  unfold padded fragmentSize
  simp

theorem ascending_sublist (part : fragments.Sublist (encodeSlice gf256 slice k m)) : fragments.Ascending := by
  have whole : OrdMap.Ascending (encodeSlice gf256 slice k m) := by
    unfold encodeSlice
    exact List.pairwise_map.mpr List.pairwise_lt_range
  exact whole.sublist part

theorem decodeSliceHelper_iff (positive : 1 ≤ k) (room : k + m ≤ 256)
    (part : fragments.Sublist (encodeSlice gf256 slice k m)) (enough : k ≤ fragments.length) :
    decodeSliceHelper gf256 fragments k (k + m) = .decoded (padded slice k) ↔ Decodes slice k fragments.keys := by
  have held := fragmentsOf_sublist part
  unfold Decodes
  by_cases several : 2 ≤ k
  · exact iff_of_true (held.decodeSliceHelper_eq several room enough) (Or.inl several)
  · obtain rfl : k = 1 := by omega
    rw [padded_one, decodeSliceHelper_one_iff held (ascending_sublist part) room enough, or_iff_right several]

theorem decodeSliceHelper_eq_decodeSlice_iff (positive : 1 ≤ k) (room : k + m ≤ 256)
    (part : fragments.Sublist (encodeSlice gf256 slice k m)) (enough : k ≤ fragments.length) :
    decodeSliceHelper gf256 fragments k (k + m) = decodeSlice gf256 fragments k m ↔ Decodes slice k fragments.keys := by
  unfold decodeSlice
  split
  · rename_i one
    subst one
    have held := fragmentsOf_sublist part
    have first : (fragments.head?.map Prod.snd).getD [] = padded slice 1 := by
      rw [padded_one]
      cases fragments with
      | nil => exact absurd enough (by decide)
      | cons p rest => exact (held.value p List.mem_cons_self).2
    rw [first]
    exact decodeSliceHelper_iff positive room part enough
  · exact iff_of_true rfl (Or.inl (by omega))

/-- Decoding always comes to an end. Its first bytes are the payload only if the others are the padding. -/
theorem decodeSliceHelper_decoded (positive : 1 ≤ k) (room : k + m ≤ 256)
    (part : fragments.Sublist (encodeSlice gf256 slice k m)) (enough : k ≤ fragments.length) :
    ∃ data, decodeSliceHelper gf256 fragments k (k + m) = .decoded data ∧
      (data.take slice.length = slice ↔ data = padded slice k) := by
  have held := fragmentsOf_sublist part
  by_cases several : 2 ≤ k
  · refine ⟨_, held.decodeSliceHelper_eq several room enough, ?_⟩
    exact iff_of_true List.take_left rfl
  · obtain rfl : k = 1 := by omega
    have ascending := ascending_sublist part
    rcases fragments with _ | ⟨⟨i, frag⟩, rest⟩
    · exact absurd enough (by decide)
    refine ⟨_, decodeSliceHelper_one held ascending, ?_⟩
    rw [padded_one, List.take_of_length_le (length_scaled _ _).le]

end AnyFragments

end Encoder

namespace RaftState

open Encoder Isal

variable {leader s : RaftState} {raftIndex k : Nat} {ent : LogEntry} {encoded collected : Stripe}
  {fragments : OrdMap Slice} {data : Slice}

theorem fragments_of_encodeRaftEntry (held : leader.lm.getSingleLogEntry raftIndex = some ent)
    (encodes : leader.encodeRaftEntry raftIndex k = some encoded) :
    (1 ≤ k ∧ k ≤ leader.getClusterServerNumber) ∧ ent.startOffset ≤ ent.commandData.length ∧
    encoded.fragments = (encodeSlice leader.config.isal (ent.commandData.drop ent.startOffset) k
      (leader.getClusterServerNumber - k)).mapValues (encodedEntry ent raftIndex k) := by
  unfold encodeRaftEntry at encodes
  rw [held] at encodes
  split at encodes
  · cases encodes
  · rename_i valid
    dsimp only at encodes
    split at encodes
    · cases encodes
    · rename_i inside
      cases encodes
      exact ⟨⟨by omega, by omega⟩, by omega, rfl⟩

theorem collected_fragments (held : leader.lm.getSingleLogEntry raftIndex = some ent)
    (encodes : leader.encodeRaftEntry raftIndex k = some encoded)
    (part : collected.collectedFragments.Sublist encoded.fragments) :
    ∃ fragments : OrdMap Slice, collected.collectedFragments = fragments.mapValues (encodedEntry ent raftIndex k) ∧
      fragments.Sublist (encodeSlice leader.config.isal (ent.commandData.drop ent.startOffset) k
        (leader.getClusterServerNumber - k)) := by
  rw [(fragments_of_encodeRaftEntry held encodes).2.2] at part
  obtain ⟨fragments, sublist, same⟩ := List.sublist_map_iff.mp part
  exact ⟨fragments, same, sublist⟩

theorem mapValues_fragmentSlice
    (same : collected.collectedFragments = fragments.mapValues (encodedEntry ent raftIndex k)) :
    collected.collectedFragments.mapValues LogEntry.fragmentSlice = fragments := by
  rw [same]
  unfold OrdMap.mapValues
  rw [List.map_map]
  exact List.map_id _

theorem findFullEntryInStripe_fragments
    (same : collected.collectedFragments = fragments.mapValues (encodedEntry ent raftIndex k)) :
    findFullEntryInStripe collected = none := by
  unfold findFullEntryInStripe
  rw [Option.map_eq_none_iff, List.find?_eq_none, same]
  intro p member
  obtain ⟨q, -, rfl⟩ := List.mem_map.mp member
  simp [encodedEntry]

/-- The bytes in front of the offset and the decoded ones make up the command exactly if the decoded ones begin with
the payload. -/
theorem command_of_decoded {command : Slice} {offset : Nat} (inside : offset ≤ command.length) :
    (command.take offset ++ data).take command.length = command ↔
      data.take (command.drop offset).length = command.drop offset := by
  have length : (command.take offset).length = offset := List.length_take_of_le inside
  have rest : command.length - offset = (command.drop offset).length := List.length_drop.symm
  rw [List.take_append, length, List.take_of_length_le (by omega), rest]
  constructor
  · intro whole
    have split : command.take offset ++ data.take (command.drop offset).length = command.take offset ++ command.drop offset :=
      whole.trans (List.take_append_drop offset command).symm
    exact List.append_cancel_left split
  · intro payload
    rw [payload, List.take_append_drop]

theorem decodingRaftEntry_fragments
    (same : collected.collectedFragments = fragments.mapValues (encodedEntry ent raftIndex k))
    (own : s.id ∈ collected.collectedFragments.keys)
    (decodes : decodeSliceHelper s.config.isal fragments k s.getClusterServerNumber = .decoded data) :
    ∃ e, s.decodingRaftEntry collected = .decoded e ∧
      e.commandData = (ent.commandData.take ent.startOffset ++ data).take ent.commandSize ∧
      e.commandSize = e.commandData.length := by
  have input := mapValues_fragmentSlice same
  have there : ∃ frag, collected.collectedFragments.find s.id = some (encodedEntry ent raftIndex k frag) := by
    rw [same, OrdMap.find_mapValues]
    obtain ⟨p, member, key⟩ := List.mem_map.mp own
    rw [same] at member
    obtain ⟨q, inside, rfl⟩ := List.mem_map.mp member
    cases found : fragments.find s.id with
    | some frag => exact ⟨frag, rfl⟩
    | none =>
      unfold OrdMap.find at found
      rw [Option.map_eq_none_iff, List.find?_eq_none] at found
      exact absurd (by simpa using key) (found q inside)
  obtain ⟨frag, found⟩ := there
  unfold decodingRaftEntry
  rw [findFullEntryInStripe_fragments same, found, input]
  dsimp only [Option.getD_some]
  rw [show (encodedEntry ent raftIndex k frag).chunkInfo.k = k from rfl, decodes]
  exact ⟨_, rfl, rfl, rfl⟩

/-- An entry with one byte, which `k = 1` stores on all servers as it is. -/
def copiedEntry : LogEntry := { term := 1, index := 1, commandSize := 1, commandDataField := [1] }

/-- Server `id` of three. -/
def copyServer (id : Nat) : RaftState :=
  newRaftState { (ClusterConfig.threeServers 1).serverConfig id with isal := gf256 } none { entries := [copiedEntry] }
    (.zero id)

/-- What server `id` has collected if nobody else has answered. -/
def copyStripe (id : Nat) : Stripe :=
  { raftIndex := 1, raftTerm := 1, collectedFragments := [(id, encodedEntry copiedEntry 1 1 [1])] }

theorem copyServer_encodes : (copyServer 0).encodeRaftEntry 1 1 = some
    { raftIndex := 1
      raftTerm := 1
      fragments := (List.range 3).map fun i => (i, encodedEntry copiedEntry 1 1 [1]) } := rfl

end RaftState

end FlexRaft
