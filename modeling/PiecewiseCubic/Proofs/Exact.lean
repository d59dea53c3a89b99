import Mathlib
import PiecewiseCubic.Scalar

/-! # Exact scalars — the algorithms over the real numbers

    Read over the reals, every operation of an algorithm is the exact one and
    its elementary functions are the true ones.  There are no undefined
    numbers, so comparisons are those of a linear order and equality tests
    decide equality. -/

namespace PiecewiseCubic

/-- The real number of a numeral; words that name no number stand for zero. -/
noncomputable def Numeral.toReal : Numeral → ℝ
  | .undefined => 0
  | .infinite _ => 0
  | .finite negative d =>
      (if negative then -1 else 1) * (d.coefficient * (10 : ℝ) ^ d.exponent)

/-- The real number of a natural one.  Zero and one are told apart so that
    they are those of the field by definition. -/
noncomputable def Exact.ofNat : ℕ → ℝ
  | 0 => 0
  | 1 => 1
  | n + 2 => ((n + 2 : ℕ) : ℝ)

noncomputable instance : Scalar ℝ where
  decLt := Real.decidableLT
  decLe := Real.decidableLE
  ofNat := Exact.ofNat
  ofScientific := OfScientific.ofScientific
  abs := fun x => |x|
  sqrt := Real.sqrt
  cbrt := fun x => if x < 0 then -(-x) ^ (1 / 3 : ℝ) else x ^ (1 / 3 : ℝ)
  cos := Real.cos
  acos := Real.arccos
  pi := Real.pi
  pow := fun x n => x ^ n
  copySign := fun a b => if b < 0 then -|a| else |a|
  isFinite := fun _ => true
  ofNumeral := Numeral.toReal

namespace Exact

/-- The number of a natural one is the natural one. -/
theorem ofNat_eq (n : ℕ) : Exact.ofNat n = n := by
  match n with
  | 0 => exact Nat.cast_zero.symm
  | 1 => exact Nat.cast_one.symm
  | n + 2 => rfl

/-- The larger of two reals is their maximum. -/
theorem max_eq (a b : ℝ) : Scalar.max a b = max a b := by
  show (if a < b then b else a) = max a b
  by_cases h : a < b
  · rw [if_pos h, max_eq_right h.le]
  · rw [if_neg h, max_eq_left (not_lt.mp h)]

/-- The smaller of two reals is their minimum. -/
theorem min_eq (a b : ℝ) : Scalar.min a b = min a b := by
  show (if b < a then b else a) = min a b
  by_cases h : b < a
  · rw [if_pos h, min_eq_right h.le]
  · rw [if_neg h, min_eq_left (not_lt.mp h)]

/-- A number between the bounds is left where it is. -/
theorem clamp_eq {x lo hi : ℝ} (h₀ : lo ≤ x) (h₁ : x ≤ hi) :
    Scalar.clamp x lo hi = x := by
  rw [Scalar.clamp, max_eq, min_eq, max_eq_left h₀, min_eq_left h₁]

/-- A number is moved between the bounds. -/
theorem clamp_mem {lo hi : ℝ} (h : lo ≤ hi) (x : ℝ) :
    lo ≤ Scalar.clamp x lo hi ∧ Scalar.clamp x lo hi ≤ hi := by
  rw [Scalar.clamp, max_eq, min_eq]
  exact ⟨le_min (le_max_right x lo) h, min_le_right _ _⟩

/-- Two numbers are moved to one place if both are beyond one bound, and only
    then. -/
theorem clamp_eq_clamp_iff {a b lo hi : ℝ} (h : lo < hi) (hne : a ≠ b) :
    Scalar.clamp a lo hi = Scalar.clamp b lo hi
      ↔ max a b ≤ lo ∨ hi ≤ min a b := by
  wlog hlt : a < b generalizing a b with hswap
  · rw [eq_comm, max_comm, min_comm]
    exact hswap hne.symm (hne.lt_or_gt.resolve_left hlt)
  rw [Scalar.clamp, Scalar.clamp, max_eq, max_eq, min_eq, min_eq,
    max_eq_right hlt.le, min_eq_left hlt.le]
  constructor
  · intro heq
    by_contra! hinside
    obtain ⟨hb, ha⟩ := hinside
    have hleft : min (max a lo) hi = max a lo :=
      min_eq_left (max_lt ha h).le
    have hright : min (max b lo) hi = min b hi := by
      rw [max_eq_left hb.le]
    rw [hleft, hright] at heq
    exact (max_lt (lt_min hlt ha) (lt_min hb h)).ne heq
  · rintro (hb | ha)
    · rw [max_eq_right (hlt.le.trans hb), max_eq_right hb]
    · rw [min_eq_right (ha.trans (le_max_left a lo)),
        min_eq_right (ha.trans (hlt.le.trans (le_max_left b lo)))]

end Exact

end PiecewiseCubic
