import Mathlib.Algebra.CharP.Lemmas
import Mathlib.Algebra.CharP.Two
import Mathlib.Tactic.Abel
import Mathlib.Tactic.Ring

/-- The field with 256 elements, as polynomials over two elements modulo `X ^ 8 + X ^ 4 + X ^ 3 + X ^ 2 + 1`. -/
structure GF256 where
  bits : BitVec 8
  deriving DecidableEq, Repr

namespace GF256

def ofByte (b : UInt8) : GF256 := ⟨b.toBitVec⟩

def toByte (a : GF256) : UInt8 := ⟨a.bits⟩

@[simp] theorem toByte_ofByte (b : UInt8) : (ofByte b).toByte = b := rfl

@[simp] theorem ofByte_toByte (a : GF256) : ofByte a.toByte = a := rfl

/-- The element whose coefficients are the bits of `n`. -/
def ofIndex (n : Nat) : GF256 := ⟨BitVec.ofNat 8 n⟩

instance : Zero GF256 := ⟨⟨0⟩⟩

instance : One GF256 := ⟨⟨1⟩⟩

instance : Add GF256 := ⟨fun a b => ⟨a.bits ^^^ b.bits⟩⟩

theorem add_def (a b : GF256) : a + b = ⟨a.bits ^^^ b.bits⟩ := rfl

theorem zero_def : (0 : GF256) = ⟨0⟩ := rfl

section Additive

variable (a b c : GF256)

protected theorem add_assoc : a + b + c = a + (b + c) := by
  simp only [add_def, BitVec.xor_assoc]

protected theorem add_comm : a + b = b + a := by
  simp only [add_def, BitVec.xor_comm]

protected theorem zero_add : 0 + a = a := by
  simp [add_def, zero_def]

protected theorem add_self : a + a = 0 := by
  simp [add_def, zero_def]

end Additive

instance : Neg GF256 := ⟨fun a => a⟩

instance : Sub GF256 := ⟨fun a b => a + b⟩

instance : AddCommGroup GF256 where
  add_assoc := GF256.add_assoc
  zero_add := GF256.zero_add
  add_zero a := (GF256.add_comm a 0).trans (GF256.zero_add a)
  add_comm := GF256.add_comm
  neg_add_cancel := GF256.add_self
  sub_eq_add_neg _ _ := rfl
  nsmul := nsmulRec
  zsmul := zsmulRec

/-- Multiplication by `X`. -/
def xtime (a : GF256) : GF256 := ⟨a.bits <<< 1⟩ + if a.bits.msb then ⟨0x1d⟩ else 0

theorem xtime_add (a b : GF256) : xtime (a + b) = xtime a + xtime b := by
  have shift : (⟨(a + b).bits <<< 1⟩ : GF256) = ⟨a.bits <<< 1⟩ + ⟨b.bits <<< 1⟩ := by
    simp only [add_def, BitVec.shiftLeft_xor_distrib]
  have top : (a + b).bits.msb = (a.bits.msb ^^ b.bits.msb) := BitVec.msb_xor
  have twice : (⟨0x1d⟩ : GF256) + ⟨0x1d⟩ = 0 := rfl
  unfold xtime
  rw [shift, top]
  -- A bit that leaves at the top of both leaves the sum unreduced.
  cases a.bits.msb <;> cases b.bits.msb
  · simp
  · simp only [Bool.false_xor, if_true, Bool.false_eq_true, if_false]
    abel
  · simp only [Bool.xor_false, if_true, Bool.false_eq_true, if_false]
    abel
  · simp only [Bool.xor_self, if_true, Bool.false_eq_true, if_false, add_zero]
    rw [add_add_add_comm, twice, add_zero]

/-- The first `n` rounds of the multiplication of polynomials: for each coefficient of `b` a shifted `a` is added. -/
def mulRounds : Nat → GF256 → BitVec 8 → GF256
  | 0, _, _ => 0
  | n + 1, a, b => (if b.getLsbD 0 then a else 0) + mulRounds n (xtime a) (b >>> 1)

instance : Mul GF256 := ⟨fun a b => mulRounds 8 a b.bits⟩

theorem mulRounds_add_left (n : Nat) (a a' : GF256) (b : BitVec 8) :
    mulRounds n (a + a') b = mulRounds n a b + mulRounds n a' b := by
  induction n generalizing a a' b with
  | zero => exact (add_zero 0).symm
  | succ n ih =>
    rw [mulRounds, mulRounds, mulRounds, xtime_add, ih]
    cases b.getLsbD 0
    · simp
    · simp only [if_true]
      abel

theorem mulRounds_xor (n : Nat) (a : GF256) (b b' : BitVec 8) :
    mulRounds n a (b ^^^ b') = mulRounds n a b + mulRounds n a b' := by
  induction n generalizing a b b' with
  | zero => exact (add_zero 0).symm
  | succ n ih =>
    rw [mulRounds, mulRounds, mulRounds, BitVec.ushiftRight_xor_distrib, BitVec.getLsbD_xor, ih]
    cases b.getLsbD 0 <;> cases b'.getLsbD 0
    · simp
    · simp only [Bool.false_xor, if_true, Bool.false_eq_true, if_false]
      abel
    · simp only [Bool.xor_false, if_true, Bool.false_eq_true, if_false]
      abel
    · simp only [Bool.xor_self, if_true, Bool.false_eq_true, if_false, zero_add]
      rw [add_add_add_comm, GF256.add_self, zero_add]

protected theorem add_mul (a b c : GF256) : (a + b) * c = a * c + b * c := mulRounds_add_left 8 a b c.bits

protected theorem mul_add (a b c : GF256) : a * (b + c) = a * b + a * c := mulRounds_xor 8 a b.bits c.bits

/-- The powers of `X` below the modulus. -/
def monomial (i : Fin 8) : GF256 := ⟨1 <<< i.val⟩

/-- What is kept by sums holds if it holds for the powers of `X`. -/
theorem induction_sums {P : GF256 → Prop} (zero : P 0) (add : ∀ a b, P a → P b → P (a + b))
    (monomials : ∀ i, P (monomial i)) (a : GF256) : P a := by
  have parts : ∀ bits : BitVec 8, (⟨bits⟩ : GF256) =
      ((List.finRange 8).map fun i : Fin 8 => if bits.getLsbD i.val then monomial i else 0).foldr (· + ·) 0 := by
    decide +kernel
  have sums : ∀ terms : List GF256, (∀ t ∈ terms, P t) → P (terms.foldr (· + ·) 0) := by
    intro terms
    induction terms with
    | nil => exact fun _ => zero
    | cons t rest ih =>
      exact fun each => add _ _ (each t List.mem_cons_self) (ih fun u inside => each u (List.mem_cons_of_mem t inside))
  obtain ⟨bits⟩ := a
  rw [parts bits]
  refine sums _ fun t inside => ?_
  obtain ⟨i, _, rfl⟩ := List.mem_map.mp inside
  split
  · exact monomials i
  · exact zero

protected theorem zero_mul (a : GF256) : 0 * a = 0 := by
  have twice := GF256.add_mul 0 0 a
  rw [add_zero] at twice
  exact left_eq_add.mp twice

protected theorem mul_zero (a : GF256) : a * 0 = 0 := by
  have twice := GF256.mul_add a 0 0
  rw [add_zero] at twice
  exact left_eq_add.mp twice

protected theorem mul_comm (a b : GF256) : a * b = b * a := by
  have basis : ∀ i j, monomial i * monomial j = monomial j * monomial i := by decide +kernel
  induction a using induction_sums with
  | zero => rw [GF256.zero_mul, GF256.mul_zero]
  | add a a' ih ih' => rw [GF256.add_mul, GF256.mul_add, ih, ih']
  | monomials i =>
    induction b using induction_sums with
    | zero => rw [GF256.zero_mul, GF256.mul_zero]
    | add b b' ih ih' => rw [GF256.mul_add, GF256.add_mul, ih, ih']
    | monomials j => exact basis i j

protected theorem mul_assoc (a b c : GF256) : a * b * c = a * (b * c) := by
  have basis : ∀ i j k, monomial i * monomial j * monomial k = monomial i * (monomial j * monomial k) := by decide +kernel
  induction a using induction_sums with
  | zero => simp only [GF256.zero_mul]
  | add a a' ih ih' => rw [GF256.add_mul, GF256.add_mul, GF256.add_mul, ih, ih']
  | monomials i =>
    induction b using induction_sums with
    | zero => simp only [GF256.zero_mul, GF256.mul_zero]
    | add b b' ih ih' => rw [GF256.mul_add, GF256.add_mul, GF256.add_mul, GF256.mul_add, ih, ih']
    | monomials j =>
      induction c using induction_sums with
      | zero => simp only [GF256.mul_zero]
      | add c c' ih ih' => rw [GF256.mul_add, GF256.mul_add, GF256.mul_add, ih, ih']
      | monomials k => exact basis i j k

protected theorem one_mul (a : GF256) : 1 * a = a := by
  have basis : ∀ i, 1 * monomial i = monomial i := by decide +kernel
  induction a using induction_sums with
  | zero => exact GF256.mul_zero 1
  | add a b ih ih' => rw [GF256.mul_add, ih, ih']
  | monomials i => exact basis i

instance : CommRing GF256 where
  left_distrib := GF256.mul_add
  right_distrib := GF256.add_mul
  zero_mul := GF256.zero_mul
  mul_zero := GF256.mul_zero
  mul_assoc := GF256.mul_assoc
  one_mul := GF256.one_mul
  mul_one a := (GF256.mul_comm a 1).trans (GF256.one_mul a)
  mul_comm := GF256.mul_comm
  neg_add_cancel := GF256.add_self
  zsmul := zsmulRec

/-- `a ^ 254`, the product of the powers with the exponents 2, 4, up to 128. -/
def invPower (a : GF256) : GF256 :=
  let a2 := a * a
  let a4 := a2 * a2
  let a8 := a4 * a4
  let a16 := a8 * a8
  let a32 := a16 * a16
  let a64 := a32 * a32
  a2 * a4 * a8 * a16 * a32 * a64 * (a64 * a64)

instance : Inv GF256 := ⟨invPower⟩

instance : Nontrivial GF256 := ⟨0, 1, by decide⟩

instance : CharP GF256 2 := CharTwo.of_one_ne_zero_of_two_eq_zero one_ne_zero (by decide)

theorem invPower_eq (a : GF256) : invPower a = a ^ 254 := by
  unfold invPower
  ring

theorem pow_card (a : GF256) : a ^ 256 = a := by
  have basis : ∀ i, let s := fun a : GF256 => a * a
      s (s (s (s (s (s (s (s (monomial i)))))))) = monomial i := by decide +kernel
  induction a using induction_sums with
  | zero => exact zero_pow (by decide)
  | add a b ih ih' => rw [show 256 = 2 ^ 8 by decide, add_pow_char_pow, show 2 ^ 8 = 256 by decide, ih, ih']
  | monomials i =>
    refine Eq.trans ?_ (basis i)
    dsimp only
    ring

theorem eq_zero_or_one {e : GF256} (square : e * e = e) : e = 0 ∨ e = 1 := by
  have all : ∀ bits : BitVec 8, (⟨bits⟩ : GF256) * ⟨bits⟩ = ⟨bits⟩ → (⟨bits⟩ : GF256) = 0 ∨ (⟨bits⟩ : GF256) = 1 := by
    decide +kernel
  exact all e.bits square

theorem pow_sub_one {a : GF256} (nonzero : a ≠ 0) : a ^ 255 = 1 := by
  have square : a ^ 255 * a ^ 255 = a ^ 255 :=
    calc a ^ 255 * a ^ 255 = a ^ 256 * a ^ 254 := by ring
      _ = a * a ^ 254 := by rw [pow_card]
      _ = a ^ 255 := by ring
  have whole : a ^ 256 = a * a ^ 255 := by ring
  rw [pow_card] at whole
  rcases eq_zero_or_one square with zero | one
  · rw [zero, mul_zero] at whole
    exact absurd whole nonzero
  · exact one

instance : Field GF256 where
  exists_pair_ne := ⟨0, 1, by decide⟩
  mul_inv_cancel a nonzero := by
    change a * invPower a = 1
    rw [invPower_eq, ← pow_succ', pow_sub_one nonzero]
  inv_zero := by decide +kernel
  nnqsmul := _
  nnqsmul_def _ _ := rfl
  qsmul := _
  qsmul_def _ _ := rfl

theorem ofIndex_injective {m n : Nat} (small : m < 256) (small' : n < 256) (same : ofIndex m = ofIndex n) : m = n := by
  have bits : BitVec.ofNat 8 m = BitVec.ofNat 8 n := congrArg GF256.bits same
  have words := congrArg BitVec.toNat bits
  rwa [BitVec.toNat_ofNat, BitVec.toNat_ofNat, Nat.mod_eq_of_lt small, Nat.mod_eq_of_lt small'] at words

end GF256
