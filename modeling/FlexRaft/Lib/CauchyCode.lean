import Mathlib.LinearAlgebra.Lagrange
import Mathlib.LinearAlgebra.Matrix.NonsingularInverse
import Mathlib.LinearAlgebra.Matrix.ToLinearEquiv

/-! Systematic codes whose parities are the rows of a Cauchy matrix. -/

namespace CauchyCode

open Polynomial

variable {K : Type*} [Field K]

section Kernel

variable {ι : Type*} [DecidableEq ι] {s : Finset ι} {y v : ι → K} {j : ι}

/-- The numerator of `∑ v j / (X - y j)`. -/
noncomputable def numerator (s : Finset ι) (y v : ι → K) : K[X] :=
  ∑ j ∈ s, C (v j) * ∏ i ∈ s.erase j, (X - C (y i))

theorem eval_numerator {x : K} (apart : ∀ j ∈ s, x ≠ y j) :
    (numerator s y v).eval x = (∏ i ∈ s, (x - y i)) * ∑ j ∈ s, (x - y j)⁻¹ * v j := by
  rw [numerator, eval_finsetSum, Finset.mul_sum]
  refine Finset.sum_congr rfl fun j inside => ?_
  have nonzero : x - y j ≠ 0 := sub_ne_zero.mpr (apart j inside)
  rw [eval_mul, eval_C, eval_prod, ← Finset.mul_prod_erase s (fun i => x - y i) inside]
  simp only [eval_sub, eval_X, eval_C]
  field_simp

theorem eval_numerator_self (inside : j ∈ s) : (numerator s y v).eval (y j) = v j * ∏ i ∈ s.erase j, (y j - y i) := by
  rw [numerator, eval_finsetSum, Finset.sum_eq_single j]
  · simp [eval_prod]
  · intro i member other
    have factor : j ∈ s.erase i := Finset.mem_erase.mpr ⟨Ne.symm other, inside⟩
    rw [eval_mul, eval_prod, Finset.prod_eq_zero factor (by simp), mul_zero]
  · exact fun missing => absurd inside missing

theorem degree_numerator_lt : (numerator s y v).degree < s.card := by
  refine (degree_sum_le _ _).trans_lt ?_
  rw [Finset.sup_lt_iff (by exact_mod_cast WithBot.bot_lt_coe s.card)]
  intro j inside
  have product : (∏ i ∈ s.erase j, (X - C (y i))).degree ≤ ((s.erase j).card : WithBot ℕ) := by
    rw [degree_prod]
    simp
  have bound : (C (v j) * ∏ i ∈ s.erase j, (X - C (y i))).degree ≤ ((s.erase j).card : WithBot ℕ) := by
    refine (degree_mul_le _ _).trans ((add_le_add degree_C_le product).trans ?_)
    rw [zero_add]
  refine bound.trans_lt ?_
  rw [Finset.card_erase_of_mem inside]
  have positive := Finset.card_pos.mpr ⟨j, inside⟩
  exact_mod_cast Nat.sub_lt positive Nat.one_pos

/-- As many points as there are columns determine the coefficients. -/
theorem eq_zero_of_sums (distinct : Set.InjOn y s) {points : Finset K} (enough : s.card ≤ points.card)
    (apart : ∀ x ∈ points, ∀ j ∈ s, x ≠ y j) (sums : ∀ x ∈ points, ∑ j ∈ s, (x - y j)⁻¹ * v j = 0)
    (inside : j ∈ s) : v j = 0 := by
  have vanishes : numerator s y v = 0 := by
    refine eq_zero_of_degree_lt_of_eval_finset_eq_zero points ?_ fun x member => ?_
    · exact degree_numerator_lt.trans_le (by exact_mod_cast enough)
    · rw [eval_numerator (apart x member), sums x member, mul_zero]
  have value := eval_numerator_self (y := y) (v := v) inside
  rw [vanishes, eval_zero] at value
  refine (mul_eq_zero.mp value.symm).resolve_right ?_
  refine Finset.prod_ne_zero_iff.mpr fun i member => sub_ne_zero.mpr fun same => ?_
  obtain ⟨other, member⟩ := Finset.mem_erase.mp member
  exact other (distinct member inside same.symm)

end Kernel

/-- Row `i` of the matrix: the identity over the Cauchy rows. -/
def row (point : Nat → K) (k i : Nat) (j : Fin k) : K :=
  if i < k then if i = j then 1 else 0 else (point i - point j)⁻¹

/-- The symbol that row `i` makes of the data. -/
def symbol (point : Nat → K) (k : Nat) (data : Fin k → K) (i : Nat) : K := ∑ j, row point k i j * data j

section Rows

variable {point : Nat → K} {k n : Nat} {data : Fin k → K}

theorem symbol_of_lt {i : Nat} (bound : i < k) : symbol point k data i = data ⟨i, bound⟩ := by
  rw [symbol, Finset.sum_eq_single ⟨i, bound⟩]
  · simp [row, bound]
  · intro j _ other
    have apart : i ≠ j.val := fun same => other (Fin.ext same.symm)
    simp [row, bound, apart]
  · exact fun missing => absurd (Finset.mem_univ _) missing

/-- Any `k` of the symbols determine the data. -/
theorem eq_zero_of_symbols (distinct : ∀ i < n, ∀ j < n, point i = point j → i = j) (dimension : k ≤ n)
    {rows : Finset Nat} (below : ∀ i ∈ rows, i < n) (enough : k ≤ rows.card)
    (zero : ∀ i ∈ rows, symbol point k data i = 0) : data = 0 := by
  classical
  have known : ∀ j : Fin k, j.val ∈ rows → data j = 0 := by
    intro j member
    have value := zero j member
    rwa [symbol_of_lt j.isLt] at value
  -- The columns whose own symbol is missing, and the points of the parities.
  let missing : Finset (Fin k) := Finset.univ.filter fun j => j.val ∉ rows
  let parities : Finset Nat := rows.filter fun i => k ≤ i
  have count : missing.card ≤ (parities.image point).card := by
    have images : (parities.image point).card = parities.card := by
      refine Finset.card_image_of_injOn fun i member j member' same => ?_
      exact distinct i (below i (Finset.mem_filter.mp member).1) j (below j (Finset.mem_filter.mp member').1) same
    have parts : (rows.filter fun i => i < k).card + parities.card = rows.card := by
      have split := Finset.card_filter_add_card_filter_not (s := rows) fun i => i < k
      simpa only [Nat.not_lt, parities] using split
    have columns : (Finset.univ.filter fun j : Fin k => j.val ∈ rows).card + missing.card = k := by
      rw [Finset.card_filter_add_card_filter_not, Finset.card_univ, Fintype.card_fin]
    have same : (Finset.univ.filter fun j : Fin k => j.val ∈ rows).card = (rows.filter fun i => i < k).card := by
      refine Finset.card_bij (fun j _ => j.val) (fun j member => ?_) (fun _ _ _ _ same => Fin.ext same) fun i member => ?_
      · exact Finset.mem_filter.mpr ⟨(Finset.mem_filter.mp member).2, j.isLt⟩
      · obtain ⟨inside, bound⟩ := Finset.mem_filter.mp member
        exact ⟨⟨i, bound⟩, Finset.mem_filter.mpr ⟨Finset.mem_univ _, inside⟩, rfl⟩
    omega
  have sums : ∀ x ∈ parities.image point, ∑ j ∈ missing, (x - point j.val)⁻¹ * data j = 0 := by
    intro x member
    obtain ⟨i, parity, rfl⟩ := Finset.mem_image.mp member
    obtain ⟨inside, above⟩ := Finset.mem_filter.mp parity
    have whole := zero i inside
    simp only [symbol, row, Nat.not_lt.mpr above, if_false] at whole
    rw [← Finset.sum_subset (Finset.subset_univ missing)] at whole
    · exact whole
    · intro j _ outside
      rw [known j (by simpa [missing] using outside), mul_zero]
  funext j
  by_cases member : j.val ∈ rows
  · exact known j member
  · refine eq_zero_of_sums (y := fun j : Fin k => point j.val) ?_ count ?_ sums (by simpa [missing] using member)
    · intro i _ i' _ same
      exact Fin.ext (distinct i (i.isLt.trans_le dimension) i' (i'.isLt.trans_le dimension) same)
    · intro x member i _ same
      obtain ⟨r, parity, rfl⟩ := Finset.mem_image.mp member
      obtain ⟨inside, above⟩ := Finset.mem_filter.mp parity
      have index := distinct r (below r inside) i (i.isLt.trans_le dimension) same
      have bound := i.isLt
      omega

/-- The matrix of `k` chosen rows. -/
def rowMatrix (point : Nat → K) (k : Nat) (ids : Fin k → Nat) : Matrix (Fin k) (Fin k) K := fun i => row point k (ids i)

theorem det_rowMatrix_ne_zero (distinct : ∀ i < n, ∀ j < n, point i = point j → i = j) (dimension : k ≤ n)
    {ids : Fin k → Nat} (below : ∀ i, ids i < n) (injective : Function.Injective ids) :
    (rowMatrix point k ids).det ≠ 0 := by
  intro singular
  obtain ⟨v, nonzero, kernel⟩ := Matrix.exists_mulVec_eq_zero_iff.mpr singular
  have inside : ∀ i ∈ Finset.univ.image ids, i < n := by
    intro i member
    obtain ⟨j, _, rfl⟩ := Finset.mem_image.mp member
    exact below j
  have enough : k ≤ (Finset.univ.image ids).card := by
    rw [Finset.card_image_of_injective _ injective, Finset.card_univ, Fintype.card_fin]
  refine nonzero (eq_zero_of_symbols distinct dimension inside enough fun i member => ?_)
  obtain ⟨j, _, rfl⟩ := Finset.mem_image.mp member
  exact congrFun kernel j

end Rows

/-- The inverse of a matrix whose determinant is not zero. -/
def inverse {k : Nat} (A : Matrix (Fin k) (Fin k) K) : Matrix (Fin k) (Fin k) K := A.det⁻¹ • A.adjugate

/-- The inverse of the chosen rows gives the data back from their symbols. -/
theorem inverse_symbols {point : Nat → K} {k : Nat} {ids : Fin k → Nat} (regular : (rowMatrix point k ids).det ≠ 0)
    (data : Fin k → K) (i : Fin k) :
    ∑ j, inverse (rowMatrix point k ids) i j * symbol point k data (ids j) = data i := by
  have cancels : inverse (rowMatrix point k ids) * rowMatrix point k ids = 1 := by
    rw [inverse, Matrix.smul_mul, Matrix.adjugate_mul, smul_smul, inv_mul_cancel₀ regular, one_smul]
  have applied : Matrix.mulVec (inverse (rowMatrix point k ids)) (Matrix.mulVec (rowMatrix point k ids) data) = data := by
    rw [Matrix.mulVec_mulVec, cancels, Matrix.one_mulVec]
  exact congrFun applied i

end CauchyCode
