import PiecewiseCubic.Proofs.Exact

/-! # Lawful scalars — what comparisons and arithmetic promise

    Doubles and reals have these laws in common.  Comparisons order the
    defined scalars and fail where an undefined one takes part.  Defined
    scalars that do not come before one another are the same number, even if
    they are written differently, as the zeros of both signs are; sums,
    differences, products and dividends do not tell them apart. -/

namespace PiecewiseCubic

open Scalar

namespace Scalar

variable {α : Type} [Scalar α]

/-- A scalar that equals itself, as all but the undefined ones do. -/
def Defined (a : α) : Prop := isUndefined a = false

instance (a : α) : Decidable (Defined a) :=
  inferInstanceAs (Decidable (isUndefined a = false))

/-- Two scalars that are one number, or one and the same undefined value. -/
def Same (a b : α) : Prop := a = b ∨ (a == b) = true

theorem Same.refl (a : α) : Same a a := Or.inl rfl

end Scalar

/-- Scalars whose comparisons are those of numbers. -/
class LawfulScalar (α : Type) [Scalar α] : Prop where
  lt_irrefl : ∀ a : α, ¬ a < a
  lt_trans : ∀ {a b c : α}, a < b → b < c → a < c
  /-- Only defined scalars come before one another. -/
  defined_of_lt : ∀ {a b : α}, a < b → Defined a ∧ Defined b
  /-- Of two scalars in order, a defined one is behind the first or before the
      second. -/
  lt_or_lt : ∀ {a b c : α}, a < b → Defined c → a < c ∨ c < b
  le_iff : ∀ {a b : α}, a ≤ b ↔ Defined a ∧ Defined b ∧ ¬ b < a
  beq_iff : ∀ {a b : α},
    (a == b) = true ↔ Defined a ∧ Defined b ∧ ¬ a < b ∧ ¬ b < a
  same_add : ∀ {a a' b b' : α}, Same a a' → Same b b' →
    Same (a + b) (a' + b')
  same_sub : ∀ {a a' b b' : α}, Same a a' → Same b b' →
    Same (a - b) (a' - b')
  same_mul : ∀ {a a' b b' : α}, Same a a' → Same b b' →
    Same (a * b) (a' * b')
  same_div : ∀ {a a' : α} (b : α), Same a a' → Same (a / b) (a' / b)

/-- Scalars that are one number with their sum with zero. -/
class NeutralZero (α : Type) [Scalar α] : Prop where
  same_zero_add : ∀ a : α, Same (0 + a) a

/-- Scalars of which an undefined one leaves nothing defined of a sum, a
    difference or a quotient that it begins, nor of any product. -/
class AbsorbingUndefined (α : Type) [Scalar α] : Prop where
  not_defined_add : ∀ {a : α} (b : α), ¬ Defined a → ¬ Defined (a + b)
  not_defined_sub : ∀ {a : α} (b : α), ¬ Defined a → ¬ Defined (a - b)
  not_defined_mul : ∀ {a : α} (b : α), ¬ Defined a → ¬ Defined (a * b)
  not_defined_mul_right : ∀ {a : α} (b : α), ¬ Defined a → ¬ Defined (b * a)
  not_defined_div : ∀ {a : α} (b : α), ¬ Defined a → ¬ Defined (a / b)

namespace LawfulScalar

section Laws

variable {α : Type} [Scalar α] [LawfulScalar α] {a b c : α}

theorem not_lt_of_lt (h : a < b) : ¬ b < a :=
  fun h' => lt_irrefl a (lt_trans h h')

theorem beq_comm (a b : α) : (a == b) = (b == a) := by
  rw [Bool.eq_iff_iff, beq_iff, beq_iff]
  tauto

/-- Defined scalars are one number unless one comes before the other. -/
theorem same_of_not_lt (ha : Defined a) (hb : Defined b) (hab : ¬ a < b)
    (hba : ¬ b < a) : Same a b := Or.inr (beq_iff.mpr ⟨ha, hb, hab, hba⟩)

/-- Defined scalars that do not equal one another are in one order or the
    other. -/
theorem lt_or_lt_of_beq_eq_false (ha : Defined a) (hb : Defined b)
    (h : (a == b) = false) : a < b ∨ b < a := by
  by_contra hne
  rw [not_or] at hne
  rw [beq_iff.mpr ⟨ha, hb, hne.1, hne.2⟩] at h
  exact absurd h (by decide)

/-! ## The order that undefined scalars end -/

omit [LawfulScalar α] in
theorem notBehind_iff :
    notBehind a b = true
      ↔ ¬ b < a ∧ (isUndefined a = true → isUndefined b = true) := by
  rw [notBehind]
  by_cases h : b < a <;> cases isUndefined a <;> cases isUndefined b
    <;> simp [h]

omit [LawfulScalar α] in
theorem notBehind_iff_of_defined (ha : Defined a) :
    notBehind a b = true ↔ ¬ b < a := by
  rw [notBehind_iff, ha]
  simp

theorem notBehind_self (a : α) : notBehind a a = true :=
  notBehind_iff.mpr ⟨lt_irrefl a, id⟩

theorem notBehind_of_lt (h : a < b) : notBehind a b = true :=
  (notBehind_iff_of_defined (defined_of_lt h).1).mpr (not_lt_of_lt h)

theorem notBehind_trans (hab : notBehind a b = true)
    (hbc : notBehind b c = true) : notBehind a c = true := by
  rw [notBehind_iff] at hab hbc ⊢
  refine ⟨fun h => ?_, fun ha => hbc.2 (hab.2 ha)⟩
  obtain ⟨hc, -⟩ := defined_of_lt h
  -- what is before an undefined scalar's place is defined
  have hb : Defined b := by
    cases hb : isUndefined b with
    | false => exact hb
    | true => exact absurd (hbc.2 hb) (by rw [hc]; decide)
  exact (lt_or_lt h hb).elim hbc.1 hab.1

theorem notBehind_total (a b : α) :
    (notBehind a b || notBehind b a) = true := by
  rw [Bool.or_eq_true, notBehind_iff, notBehind_iff]
  by_cases hlt : b < a
  · obtain ⟨hb, -⟩ := defined_of_lt hlt
    exact Or.inr ⟨not_lt_of_lt hlt, by rw [hb]; exact nofun⟩
  · cases ha : isUndefined a with
    | false => exact Or.inl ⟨hlt, nofun⟩
    | true =>
        refine Or.inr ⟨fun h => ?_, fun _ => rfl⟩
        exact absurd (defined_of_lt h).1 (by rw [Defined, ha]; decide)

end Laws

end LawfulScalar

/-! ## The reals -/

namespace Exact

/-- No real is undefined. -/
theorem defined (x : ℝ) : Defined x := by
  rw [Defined, isUndefined, beq_self_eq_true]
  rfl

/-- Reals that are one number are equal. -/
theorem same_iff {x y : ℝ} : Same x y ↔ x = y := by
  rw [Same, beq_iff_eq, or_self]

end Exact

instance : LawfulScalar ℝ where
  lt_irrefl := fun x => lt_irrefl x
  lt_trans := fun h h' => lt_trans h h'
  defined_of_lt := fun {x y} _ => ⟨Exact.defined x, Exact.defined y⟩
  lt_or_lt := fun {_ _ z} h _ => (LT.lt.lt_or_gt h z).symm
  le_iff := fun {x y} =>
    ⟨fun h => ⟨Exact.defined x, Exact.defined y, not_lt.mpr h⟩,
      fun h => not_lt.mp h.2.2⟩
  beq_iff := fun {x y} => by
    rw [beq_iff_eq]
    refine ⟨?_, fun h => le_antisymm (not_lt.mp h.2.2.2) (not_lt.mp h.2.2.1)⟩
    rintro rfl
    exact ⟨Exact.defined x, Exact.defined x, lt_irrefl x, lt_irrefl x⟩
  same_add := fun h h' => by
    rw [Exact.same_iff] at *
    rw [h, h']
  same_sub := fun h h' => by
    rw [Exact.same_iff] at *
    rw [h, h']
  same_mul := fun h h' => by
    rw [Exact.same_iff] at *
    rw [h, h']
  same_div := fun y h => by
    rw [Exact.same_iff] at *
    rw [h]

instance : NeutralZero ℝ where
  same_zero_add := fun x => Exact.same_iff.mpr (zero_add x)

end PiecewiseCubic
