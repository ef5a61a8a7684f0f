import FlexRaft.RaftType
import FlexRaft.Lib.OrdMap

namespace FlexRaft

/-- The two ways the encoder uses ISA-L: `ec_encode_data` with the Cauchy rows under the
identity (parity fragment `j` of `k` data fragments out of `k + m`), and the same call with the
inverse of the rows `rows` (data fragment `row` out of the `k` fragments that stand in these rows). -/
structure Isal where
  parity : (k m : Nat) → (data : List Slice) → (j : Nat) → Slice
  recover : (k n : Nat) → (rows : List Nat) → (input : List Slice) → (row : Nat) → Slice

namespace Encoder

/-- Fragment `i` of the padded payload. -/
def dataFragment (slice : Slice) (k i : Nat) : Slice :=
  let fragmentSize := (slice.length + k - 1) / k
  let padded := slice ++ List.replicate (fragmentSize * k - slice.length) 0
  (padded.drop (i * fragmentSize)).take fragmentSize

/-- Fragment number `i` of `EncodeSlice(slice, k, m)`. -/
def encodeFragment (isal : Isal) (slice : Slice) (k m i : Nat) : Slice :=
  if k = 1 then slice
  else if i < k then dataFragment slice k i
  else isal.parity k m ((List.range k).map (dataFragment slice k)) (i - k)

def encodeSlice (isal : Isal) (slice : Slice) (k m : Nat) : OrdMap Slice :=
  (List.range (k + m)).map fun i => (i, encodeFragment isal slice k m i)

theorem encodeSlice_find {isal : Isal} {slice : Slice} {k m i : Nat} (bound : i < k + m) :
    (encodeSlice isal slice k m).find i = some (encodeFragment isal slice k m i) :=
  OrdMap.find_map_range _ bound

/-- `DecodeSliceHelper` runs into an assertion, gives up, or writes `k` fragments of data. -/
inductive DecodeResult
  | stop
  | failed
  | decoded (data : Slice)
  deriving DecidableEq, Repr

/-- Data row `row`: copied if its fragment is there, else computed from the first `k` fragments. -/
def decodedRow (isal : Isal) (fragments : OrdMap Slice) (k n row : Nat) : Slice :=
  match fragments.find row with
  | some slice => slice
  | none => isal.recover k n (fragments.keys.take k) ((fragments.map Prod.snd).take k) row

def decodeSliceHelper (isal : Isal) (fragments : OrdMap Slice) (k n : Nat) : DecodeResult :=
  if k = 0 then .stop
  else if fragments.length < k then .failed
  else
    let fragmentSize := (fragments.head?.map fun p => p.2.length).getD 0
    if fragments.any fun p => decide (p.1 < k) && decide (p.2.length ≠ fragmentSize) then .stop
    else .decoded ((List.range k).map (decodedRow isal fragments k n)).flatten

end Encoder

end FlexRaft
