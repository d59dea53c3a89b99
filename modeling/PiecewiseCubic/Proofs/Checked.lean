import PiecewiseCubic.Proofs.Exact

/-! # Checked scalars — the algorithms where some operations have no result

    A checked scalar is a real number or nothing.  Quotients by zero, square
    roots of negative numbers and angles of numbers that are no cosine are
    nothing, and so is each result that depends on one.  Comparisons with it
    fail.  An algorithm that answers numbers here has divided by no zero on
    the way to them. -/

namespace PiecewiseCubic

/-- A real number, or the result of an operation that has none. -/
inductive Checked where
  | undefined
  | number (x : ℝ)

namespace Checked

/-- An operation on numbers. -/
def lift (f : ℝ → ℝ) : Checked → Checked
  | .undefined => .undefined
  | .number x => .number (f x)

open Classical in
/-- An operation on the numbers with a property. -/
noncomputable def liftOn (p : ℝ → Prop) (f : ℝ → ℝ) : Checked → Checked
  | .undefined => .undefined
  | .number x => if p x then .number (f x) else .undefined

/-- An operation on two numbers. -/
def lift₂ (f : ℝ → ℝ → ℝ) : Checked → Checked → Checked
  | .number x, .number y => .number (f x y)
  | _, _ => .undefined

/-- The quotient of two numbers of which the second is not zero. -/
noncomputable def quotient : Checked → Checked → Checked
  | .number x, .number y => if y = 0 then .undefined else .number (x / y)
  | _, _ => .undefined

/-- A relation between two numbers. -/
def Related (r : ℝ → ℝ → Prop) : Checked → Checked → Prop
  | .number x, .number y => r x y
  | _, _ => False

/-- The number that a numeral spells. -/
noncomputable def ofNumeral : Numeral → Checked
  | .undefined => .undefined
  | .infinite _ => .undefined
  | .finite negative d => .number (Scalar.ofNumeral (.finite negative d))

open Classical in
noncomputable instance : Scalar Checked where
  add := lift₂ (· + ·)
  sub := lift₂ (· - ·)
  mul := lift₂ (· * ·)
  div := quotient
  neg := lift (- ·)
  lt := Related (· < ·)
  le := Related (· ≤ ·)
  beq := fun a b => decide (Related (· = ·) a b)
  decLt := fun _ _ => propDecidable _
  decLe := fun _ _ => propDecidable _
  ofNat := fun n => .number (Scalar.ofNat n)
  ofScientific := fun m s e => .number (Scalar.ofScientific m s e)
  abs := lift Scalar.abs
  sqrt := liftOn (0 ≤ ·) Scalar.sqrt
  cbrt := lift Scalar.cbrt
  cos := lift Scalar.cos
  acos := liftOn (fun x => -1 ≤ x ∧ x ≤ 1) Scalar.acos
  pi := .number Scalar.pi
  pow := fun a n => lift (Scalar.pow · n) a
  copySign := lift₂ Scalar.copySign
  isFinite := fun a => decide (a ≠ .undefined)
  ofNumeral := ofNumeral

variable (a : Checked) (x y : ℝ)

theorem undefined_ne_number : undefined ≠ number x := nofun

@[simp]
theorem number_sub : (number x - number y : Checked) = number (x - y) := rfl

@[simp]
theorem number_mul : (number x * number y : Checked) = number (x * y) := rfl

theorem number_div {y : ℝ} (h : y ≠ 0) :
    (number x / number y : Checked) = number (x / y) := if_neg h

theorem div_number_zero : (a / number 0 : Checked) = undefined := by
  cases a with
  | undefined => rfl
  | number x => exact if_pos rfl

theorem add_undefined : (a + undefined : Checked) = undefined := by
  cases a <;> rfl

theorem undefined_mul : (undefined * a : Checked) = undefined := rfl

theorem sub_undefined : (a - undefined : Checked) = undefined := by
  cases a <;> rfl

theorem undefined_div : (undefined / a : Checked) = undefined := rfl

theorem number_beq_iff : (number x == number y) = true ↔ x = y := by
  classical
  show decide (Related (· = ·) (number x) (number y)) = true
    ↔ Related (· = ·) (number x) (number y)
  exact decide_eq_true_iff

theorem number_beq : (number x == number y) = (x == y) :=
  Bool.eq_iff_iff.mpr ((number_beq_iff x y).trans beq_iff_eq.symm)

theorem ite_number_beq {β : Type} (u v : β) :
    (if (number x == number y) = true then u else v)
      = if x = y then u else v :=
  if_congr (number_beq_iff x y) rfl rfl

theorem ite_number_lt {β : Type} (u v : β) :
    (if number x < number y then u else v) = if x < y then u else v :=
  if_congr Iff.rfl rfl rfl

/-! ## Operations that have a result -/

theorem isFinite_number : Scalar.isFinite (number x) = true := by
  classical
  exact decide_eq_true (undefined_ne_number x).symm

variable {x}

theorem sqrt_number (h : 0 ≤ x) : Scalar.sqrt (number x) = number √x :=
  if_pos h

theorem acos_number (h : -1 ≤ x ∧ x ≤ 1) :
    Scalar.acos (number x) = number (Real.arccos x) := if_pos h

theorem clamp_number (x lo hi : ℝ) :
    Scalar.clamp (number x) (number lo) (number hi)
      = number (Scalar.clamp x lo hi) := by
  have hmax : Scalar.max (number x) (number lo) = number (Scalar.max x lo) :=
    (ite_number_lt x lo _ _).trans (apply_ite number _ _ _).symm
  rw [Scalar.clamp, hmax]
  exact (ite_number_lt hi _ _ _).trans (apply_ite number _ _ _).symm

end Checked

end PiecewiseCubic
