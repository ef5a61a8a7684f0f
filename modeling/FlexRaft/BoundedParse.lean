import FlexRaft.Lib.BoundedReader
import FlexRaft.WireRoundTrip

namespace FlexRaft

namespace Serializer

section Machine

open BoundedReader

/-- `ParsePrefixLengthSliceWithBound`. The sum is one of 64 bits. An array of as many bytes as there are addresses
cannot be allocated. -/
def parsePrefixLengthSliceInBound : BoundedReader ParseFault Slice := do
  let len ← left
  check .refused 8
  let size ← number .overrun 8
  refuseIf .refused (decide (len < (size + 8) % 2 ^ 64))
  refuseIf .unallocated (decide (2 ^ 64 ≤ size + 8))
  take .overrun size

def readFragmentInBound : BoundedReader ParseFault (Nat × Slice) := do
  check .refused 4
  let fragId ← number .overrun 4
  check .refused 8
  let size ← number .overrun 8
  refuseIf .refused (decide (16 * 1024 * 1024 < size))
  check .refused size
  let data ← take .overrun size
  pure (fragId, data)

def readPlacementInBound : BoundedReader ParseFault FragmentPlacement := do
  check .refused 16
  let fragId ← number .overrun 4
  let localGroup ← number .overrun 4
  let nodeId ← number .overrun 4
  let kind ← number .overrun 4
  pure { fragId, localGroup := intOfWord localGroup, nodeId, kind := .ofWord kind }

/-- The object at the start of an entry, of which the numbers are copied. -/
def readHead : ByteReader ParseFault LogEntry := do
  let scalars ← readScalars
  let _memory ← readMemoryImage
  pure scalars

/-- `deserialize_logentry_withbound` as it runs: with `len` as a counter of 64 bits, in a memory that may reach beyond
the bound. -/
def deserializeLogentryInBound : BoundedReader ParseFault LogEntry := do
  check .refused headSize
  let scalars ← within .overrun headSize readHead
  let notEncoded ← parsePrefixLengthSliceInBound
  let frag ← parsePrefixLengthSliceInBound
  -- no check that the count is there
  let fragCount ← number .overrun 4
  let frags ← times readFragmentInBound fragCount
  let placementCount ← number .overrun 4
  let placement ← times readPlacementInBound placementCount
  pure (finishEntry scalars notEncoded frag frags placement)

end Machine

section Follows

open BoundedReader

theorem fixed_readMemoryImage : ByteReader.Fixed 144 readMemoryImage := by
  have slice : ByteReader.Fixed 24 readSliceImage :=
    (ByteReader.Fixed.number 8).bind fun _ => (ByteReader.Fixed.number 8).bind fun _ =>
      (ByteReader.Fixed.number 8).bind fun _ => ByteReader.Fixed.pure _
  have vector : ByteReader.Fixed 24 readVectorImage :=
    (ByteReader.Fixed.number 8).bind fun _ => (ByteReader.Fixed.number 8).bind fun _ =>
      (ByteReader.Fixed.number 8).bind fun _ => ByteReader.Fixed.pure _
  exact slice.bind fun _ => slice.bind fun _ => slice.bind fun _ => vector.bind fun _ => vector.bind fun _ =>
    vector.bind fun _ => ByteReader.Fixed.pure _

theorem fixed_readHead : ByteReader.Fixed headSize readHead := by
  have four : ByteReader.Fixed 4 (ByteReader.number ParseFault.overrun 4) := ByteReader.Fixed.number 4
  have chunkInfo : ByteReader.Fixed 28 readChunkInfo :=
    four.bind fun _ => four.bind fun _ => four.bind fun _ => four.bind fun _ => four.bind fun _ => four.bind fun _ =>
      four.bind fun _ => ByteReader.Fixed.pure _
  have scalars : ByteReader.Fixed 48 readScalars :=
    four.bind fun _ => four.bind fun _ => four.bind fun _ => chunkInfo.bind fun _ => four.bind fun _ => four.bind fun _ =>
      ByteReader.Fixed.pure _
  exact scalars.bind fun _ => fixed_readMemoryImage.bind fun _ => ByteReader.Fixed.pure _

/-- What the check of a slice amounts to where `len` bytes are left. -/
theorem parseSlice_run {src : Slice} (size : src.length < 2 ^ 64) : (do
      let n ← ByteReader.number .refused 8
      ByteReader.refuseIf .refused (decide (src.length < (n + 8) % 2 ^ 64))
      ByteReader.refuseIf .unallocated (decide (2 ^ 64 ≤ n + 8))
      ByteReader.block .overrun n : ByteReader ParseFault Slice).run src = parsePrefixLengthSliceWithBound.run src := by
  unfold parsePrefixLengthSliceWithBound
  rw [StateT.run_bind, StateT.run_bind]
  rw [ByteReader.run_number]
  by_cases short : src.length < 8
  · rw [if_pos short]
    rfl
  rw [if_neg short]
  have rest : (src.drop 8).length = src.length - 8 := List.length_drop
  have bound : LittleEndian.decode (src.take 8) < 2 ^ 64 := by
    have low := LittleEndian.decode_lt (src.take 8)
    rw [List.length_take_of_le (Nat.le_of_not_lt short)] at low
    exact low
  generalize LittleEndian.decode (src.take 8) = n at bound
  change StateT.run (do
      ByteReader.refuseIf .refused (decide (src.length < (n + 8) % 2 ^ 64))
      ByteReader.refuseIf .unallocated (decide (2 ^ 64 ≤ n + 8))
      ByteReader.block .overrun n : ByteReader ParseFault Slice) (src.drop 8) =
    (ByteReader.block (if n + 8 < 2 ^ 64 then .refused else .unallocated) n).run (src.drop 8)
  by_cases wraps : n + 8 < 2 ^ 64
  · rw [if_pos wraps, Nat.mod_eq_of_lt wraps, decide_eq_false (Nat.not_le.mpr wraps)]
    by_cases beyond : src.length < n + 8
    · rw [decide_eq_true beyond, ByteReader.run_block, if_pos (by omega)]
      rfl
    · rw [decide_eq_false beyond, ByteReader.run_block, if_neg (by omega)]
      exact if_neg (show ¬ (src.drop 8).length < n by omega)
  · have small : ¬ src.length < (n + 8) % 2 ^ 64 := by omega
    rw [if_neg wraps, decide_eq_false small, decide_eq_true (Nat.le_of_not_lt wraps), ByteReader.run_block, if_pos (by omega)]
    rfl

theorem follows_slice : Follows .overrun parsePrefixLengthSliceInBound parsePrefixLengthSliceWithBound := by
  intro before src beyond size
  rw [← parseSlice_run size]
  refine Follows.checkedNumber_bind ParseFault.refused 8 (fun n => ?_) before src beyond size
  exact (Follows.refuseIf ParseFault.refused _).bind fun _ => (Follows.refuseIf ParseFault.unallocated _).bind fun _ => Follows.take n

theorem follows_fragment : Follows .overrun readFragmentInBound (readFragment .refused) := by
  refine Follows.checkedNumber_bind ParseFault.refused 4 fun fragId => ?_
  refine Follows.checkedNumber_bind ParseFault.refused 8 fun size => ?_
  refine (Follows.refuseIf ParseFault.refused _).bind fun _ => ?_
  have whole := (Follows.checked ParseFault.refused size : Follows .overrun _ _).bind fun data => Follows.pure (fragId, data)
  rwa [bind_assoc] at whole

theorem follows_placement : Follows .overrun readPlacementInBound (do ByteReader.need .refused 16; readPlacement) :=
  (Follows.check ParseFault.refused 16).bind fun _ => (Follows.number 4).bind fun _ => (Follows.number 4).bind fun _ =>
    (Follows.number 4).bind fun _ => (Follows.number 4).bind fun _ => Follows.pure _

/-- What follows the fragments. -/
def readPlacements (scalars : LogEntry) (notEncoded frag : Slice) (frags : List (Nat × Slice)) : ByteReader ParseFault LogEntry := do
  let placementCount ← ByteReader.number .overrun 4
  let placement ← ByteReader.times (do ByteReader.need .refused 16; readPlacement) placementCount
  pure (finishEntry scalars notEncoded frag frags placement)

/-- What follows the slices. -/
def readLists (scalars : LogEntry) (notEncoded frag : Slice) : ByteReader ParseFault LogEntry := do
  let fragCount ← ByteReader.number .overrun 4
  let frags ← ByteReader.times (readFragment .refused) fragCount
  readPlacements scalars notEncoded frag frags

/-- What follows the object. -/
def readBody (scalars : LogEntry) : ByteReader ParseFault LogEntry := do
  let notEncoded ← parsePrefixLengthSliceWithBound
  let frag ← parsePrefixLengthSliceWithBound
  readLists scalars notEncoded frag

theorem withbound_eq : deserializeLogentryWithbound = (do ByteReader.need .refused headSize; readHead) >>= readBody := by
  simp only [deserializeLogentryWithbound, readHead, readBody, readLists, readPlacements, bind_assoc, pure_bind]

/-- The parser with its counter is the reader of the bytes within the bound, as long as that one does not run behind them. -/
theorem follows_withbound : Follows .overrun deserializeLogentryInBound deserializeLogentryWithbound := by
  have whole := (Follows.within fixed_readHead ParseFault.refused : Follows .overrun _ _).bind fun scalars =>
    follows_slice.bind fun notEncoded => follows_slice.bind fun frag => (Follows.number 4).bind fun fragCount =>
      (follows_fragment.times fragCount).bind fun frags => (Follows.number 4).bind fun placementCount =>
        (follows_placement.times placementCount).bind fun placement =>
          Follows.pure (finishEntry scalars notEncoded frag frags placement)
  rw [bind_assoc] at whole
  rw [withbound_eq]
  exact whole

end Follows

end Serializer

end FlexRaft
