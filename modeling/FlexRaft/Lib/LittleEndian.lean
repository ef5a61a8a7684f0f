import Mathlib.Data.Nat.ModEq
import Mathlib.Tactic.Ring

namespace LittleEndian

/-- The lowest `width` bytes of a number, the least significant one first. -/
def encode : Nat → Nat → List UInt8
  | 0, _ => []
  | width + 1, n => UInt8.ofNat n :: encode width (n / 256)

def decode : List UInt8 → Nat
  | [] => 0
  | b :: rest => b.toNat + 256 * decode rest

@[simp] theorem length_encode (width n : Nat) : (encode width n).length = width := by
  induction width generalizing n with
  | zero => rfl
  | succ width ih => simp [encode, ih]

theorem decode_encode (width n : Nat) : decode (encode width n) = n % 256 ^ width := by
  induction width generalizing n with
  | zero => simp [encode, decode, Nat.mod_one]
  | succ width ih =>
    have low : (UInt8.ofNat n).toNat = n % 256 := by simp
    rw [encode, decode, ih, low, pow_succ', Nat.mod_mul]

theorem decode_encode_of_lt {width n : Nat} (bound : n < 256 ^ width) : decode (encode width n) = n := by
  rw [decode_encode, Nat.mod_eq_of_lt bound]

/-- The low bytes, then the high ones. -/
theorem encode_add (low high n : Nat) : encode (low + high) n = encode low n ++ encode high (n / 256 ^ low) := by
  induction low generalizing n with
  | zero => rw [Nat.zero_add, pow_zero, Nat.div_one, encode, List.nil_append]
  | succ low ih => rw [Nat.add_right_comm, encode, ih, encode, List.cons_append, Nat.div_div_eq_div_mul, pow_succ']

theorem decode_append (low high : List UInt8) : decode (low ++ high) = decode low + 256 ^ low.length * decode high := by
  induction low with
  | nil => simp [decode]
  | cons b rest ih =>
    rw [List.cons_append, decode, decode, ih, List.length_cons, pow_succ']
    ring

theorem decode_lt (bytes : List UInt8) : decode bytes < 256 ^ bytes.length := by
  induction bytes with
  | nil => exact Nat.one_pos
  | cons b rest ih =>
    have low : b.toNat < 256 := b.toNat_lt
    rw [decode, List.length_cons, pow_succ']
    omega

theorem encode_decode (bytes : List UInt8) : encode bytes.length (decode bytes) = bytes := by
  induction bytes with
  | nil => rfl
  | cons b rest ih =>
    have low : b.toNat < 256 := b.toNat_lt
    have byte : UInt8.ofNat (b.toNat + 256 * decode rest) = b := by
      apply UInt8.toNat_inj.mp
      rw [UInt8.toNat_ofNat', Nat.add_mul_mod_self_left, Nat.mod_eq_of_lt low]
    have later : (b.toNat + 256 * decode rest) / 256 = decode rest := by omega
    rw [decode, List.length_cons, encode, byte, later, ih]

theorem encode_mod (width n : Nat) : encode width (n % 256 ^ width) = encode width n := by
  have same := encode_decode (encode width n)
  rwa [length_encode, decode_encode] at same

end LittleEndian
