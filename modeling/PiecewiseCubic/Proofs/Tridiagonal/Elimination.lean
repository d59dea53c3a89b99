import PiecewiseCubic.Proofs.Exact
import PiecewiseCubic.Tridiagonal.Elimination

/-! # Elimination is exact

    One step of the elimination takes the first unknown out of a system
    without changing what its other unknowns can be.  Hence a list that the
    elimination answers is the only solution, and where it answers nothing
    the system without right-hand sides has a solution other than zero. -/

namespace PiecewiseCubic

/-- Unknowns, the pivot's own first, satisfy a pivot; a missing one is
    zero. -/
def Pivot.Holds (p : Pivot ℝ) (xs : List ℝ) : Prop :=
  p.diag * xs.getD 0 0 + p.right * xs.getD 1 0 = p.rhs

/-- Unknowns, that of the row before first, satisfy an equation; a missing
    one is zero. -/
def Equation.Holds (e : Equation ℝ) (xs : List ℝ) : Prop :=
  e.left * xs.getD 0 0 + e.diag * xs.getD 1 0 + e.right * xs.getD 2 0 = e.rhs

/-- A pivot with zero on its right-hand side. -/
def Pivot.homogeneous (p : Pivot ℝ) : Pivot ℝ := { p with rhs := 0 }

/-- An equation with zero on its right-hand side. -/
def Equation.homogeneous (e : Equation ℝ) : Equation ℝ := { e with rhs := 0 }

/-- What is left of `next` when `cur` is the pivot. -/
noncomputable def Pivot.reduce (cur : Pivot ℝ) (next : Equation ℝ) :
    Pivot ℝ where
  diag := next.diag - next.left / cur.diag * cur.right
  right := next.right
  rhs := next.rhs - next.left / cur.diag * cur.rhs

/-- What is left of `cur` when `next` is the pivot. -/
noncomputable def Pivot.exchange (cur : Pivot ℝ) (next : Equation ℝ) :
    Pivot ℝ where
  diag := cur.right - cur.diag / next.left * next.diag
  right := -(cur.diag / next.left) * next.right
  rhs := cur.rhs - cur.diag / next.left * next.rhs

namespace Tridiagonal

/-- Unknowns satisfy equations, the first of which is that of the second
    unknown. -/
def SatisfyAll : List (Equation ℝ) → List ℝ → Prop
  | [], xs => xs.length = 1
  | e :: es, xs => e.Holds xs ∧ SatisfyAll es xs.tail

/-- Unknowns satisfy a pivot and the equations behind it. -/
def Solves (cur : Pivot ℝ) (eqs : List (Equation ℝ)) (xs : List ℝ) : Prop :=
  cur.Holds xs ∧ SatisfyAll eqs xs

/-- There is one unknown more than equations behind the pivot. -/
theorem SatisfyAll.length_eq {eqs : List (Equation ℝ)} {xs : List ℝ}
    (h : SatisfyAll eqs xs) : xs.length = eqs.length + 1 := by
  induction eqs generalizing xs with
  | nil => exact h
  | cons e es ih =>
      have htail : xs.tail.length = es.length + 1 := ih h.2
      rw [List.length_tail] at htail
      rw [List.length_cons]
      omega

/-- The equations hold one by one. -/
theorem satisfyAll_iff {eqs : List (Equation ℝ)} {xs : List ℝ} :
    SatisfyAll eqs xs ↔ xs.length = eqs.length + 1
      ∧ ∀ (i : ℕ) (h : i < eqs.length), (eqs[i]).Holds (xs.drop i) := by
  induction eqs generalizing xs with
  | nil => simp [SatisfyAll]
  | cons e es ih =>
      constructor
      · rintro ⟨hfirst, hrest⟩
        obtain ⟨-, hrows⟩ := ih.mp hrest
        refine ⟨SatisfyAll.length_eq ⟨hfirst, hrest⟩, ?_⟩
        intro i hi
        cases i with
        | zero => exact hfirst
        | succ i =>
            have hrow := hrows i (Nat.lt_of_succ_lt_succ hi)
            rw [List.drop_tail] at hrow
            exact hrow
      · rintro ⟨hlen, hrows⟩
        refine ⟨hrows 0 (Nat.zero_lt_succ _), ih.mpr ⟨?_, ?_⟩⟩
        · rw [List.length_tail, hlen, List.length_cons]
          omega
        · intro i hi
          have hrow := hrows (i + 1) (Nat.succ_lt_succ hi)
          rw [List.drop_tail]
          exact hrow

/-- The unknown of a pivot equation is found from the two behind it. -/
theorem backSubstitute_eq (diag right second rhs : ℝ) {xs : List ℝ}
    (h : xs ≠ []) :
    backSubstitute diag right second rhs xs
      = (rhs - right * xs.getD 0 0 - second * xs.getD 1 0) / diag :: xs := by
  rcases xs with _ | ⟨x₁, _ | ⟨x₂, xs⟩⟩
  · exact absurd rfl h
  · show (rhs - right * x₁) / diag :: [x₁]
      = (rhs - right * x₁ - second * 0) / diag :: [x₁]
    rw [mul_zero, sub_zero]
  · rfl

/-- **A STEP WITHOUT EXCHANGE** takes out the first unknown. -/
theorem solves_reduce {cur : Pivot ℝ} {next : Equation ℝ}
    {rest : List (Equation ℝ)} {x : ℝ} {ys : List ℝ} (h : cur.diag ≠ 0) :
    Solves cur (next :: rest) (x :: ys) ↔
      x = (cur.rhs - cur.right * ys.getD 0 0 - 0 * ys.getD 1 0) / cur.diag
        ∧ Solves (cur.reduce next) rest ys := by
  have hcur : cur.Holds (x :: ys) ↔
      x = (cur.rhs - cur.right * ys.getD 0 0 - 0 * ys.getD 1 0)
        / cur.diag := by
    show cur.diag * x + cur.right * ys.getD 0 0 = cur.rhs ↔ _
    rw [eq_div_iff h]
    constructor <;> intro e <;> linear_combination e
  have hnext (hx : cur.Holds (x :: ys)) :
      next.Holds (x :: ys) ↔ (cur.reduce next).Holds ys := by
    replace hx : cur.diag * x + cur.right * ys.getD 0 0 = cur.rhs := hx
    show next.left * x + next.diag * ys.getD 0 0 + next.right * ys.getD 1 0
        = next.rhs
      ↔ (next.diag - next.left / cur.diag * cur.right) * ys.getD 0 0
          + next.right * ys.getD 1 0
        = next.rhs - next.left / cur.diag * cur.rhs
    have hf : next.left / cur.diag * cur.diag = next.left :=
      div_mul_cancel₀ _ h
    constructor <;> intro e
    · linear_combination e - next.left / cur.diag * hx + x * hf
    · linear_combination e + next.left / cur.diag * hx - x * hf
  constructor
  · rintro ⟨hx, hn, hrest⟩
    exact ⟨hcur.mp hx, (hnext hx).mp hn, hrest⟩
  · rintro ⟨hx, hn, hrest⟩
    have hx' := hcur.mpr hx
    exact ⟨hx', (hnext hx').mpr hn, hrest⟩

/-- **A STEP WITH EXCHANGE** takes out the first unknown. -/
theorem solves_exchange {cur : Pivot ℝ} {next : Equation ℝ}
    {rest : List (Equation ℝ)} {x : ℝ} {ys : List ℝ} (h : next.left ≠ 0) :
    Solves cur (next :: rest) (x :: ys) ↔
      x = (next.rhs - next.diag * ys.getD 0 0 - next.right * ys.getD 1 0)
          / next.left
        ∧ Solves (cur.exchange next) rest ys := by
  have hnext : next.Holds (x :: ys) ↔
      x = (next.rhs - next.diag * ys.getD 0 0 - next.right * ys.getD 1 0)
        / next.left := by
    show next.left * x + next.diag * ys.getD 0 0 + next.right * ys.getD 1 0
      = next.rhs ↔ _
    rw [eq_div_iff h]
    constructor <;> intro e <;> linear_combination e
  have hcur (hx : next.Holds (x :: ys)) :
      cur.Holds (x :: ys) ↔ (cur.exchange next).Holds ys := by
    replace hx : next.left * x + next.diag * ys.getD 0 0
      + next.right * ys.getD 1 0 = next.rhs := hx
    show cur.diag * x + cur.right * ys.getD 0 0 = cur.rhs
      ↔ (cur.right - cur.diag / next.left * next.diag) * ys.getD 0 0
          + -(cur.diag / next.left) * next.right * ys.getD 1 0
        = cur.rhs - cur.diag / next.left * next.rhs
    have hf : cur.diag / next.left * next.left = cur.diag :=
      div_mul_cancel₀ _ h
    constructor <;> intro e
    · linear_combination e - cur.diag / next.left * hx + x * hf
    · linear_combination e + cur.diag / next.left * hx - x * hf
  constructor
  · rintro ⟨hc, hn, hrest⟩
    exact ⟨hnext.mp hn, (hcur hn).mp hc, hrest⟩
  · rintro ⟨hx, hc, hrest⟩
    have hn := hnext.mpr hx
    exact ⟨(hcur hn).mpr hc, hn, hrest⟩

/-! ## What a step does -/

/-- What one step makes of a pivot and the next equation: the pivot that it
    goes on with, and the equation that the first unknown is found from. -/
inductive Step (cur : Pivot ℝ) (next : Equation ℝ) :
    Pivot ℝ → Equation ℝ → Prop where
  | reduce (ne : cur.diag ≠ 0) :
      Step cur next (cur.reduce next) ⟨cur.diag, cur.right, 0, cur.rhs⟩
  | exchange (ne : next.left ≠ 0) : Step cur next (cur.exchange next) next

/-- **ONE STEP** takes out the first unknown. -/
theorem Step.solves_iff {cur p : Pivot ℝ} {next e : Equation ℝ}
    (step : Step cur next p e) {rest : List (Equation ℝ)} {x : ℝ}
    {ys : List ℝ} :
    Solves cur (next :: rest) (x :: ys) ↔
      x = (e.rhs - e.diag * ys.getD 0 0 - e.right * ys.getD 1 0) / e.left
        ∧ Solves p rest ys := by
  cases step with
  | reduce ne => exact solves_reduce ne
  | exchange ne => exact solves_exchange ne

/-- The same step without right-hand sides. -/
theorem Step.homogeneous {cur p : Pivot ℝ} {next e : Equation ℝ}
    (step : Step cur next p e) :
    Step cur.homogeneous next.homogeneous p.homogeneous e.homogeneous := by
  cases step with
  | reduce ne =>
      have hp : (cur.reduce next).homogeneous
          = cur.homogeneous.reduce next.homogeneous := by
        simp [Pivot.reduce, Pivot.homogeneous, Equation.homogeneous]
      rw [hp]
      exact .reduce ne
  | exchange ne =>
      have hp : (cur.exchange next).homogeneous
          = cur.homogeneous.exchange next.homogeneous := by
        simp [Pivot.exchange, Pivot.homogeneous, Equation.homogeneous]
      rw [hp]
      exact .exchange ne

theorem eliminate_nil (cur : Pivot ℝ) :
    eliminate cur [] = if cur.diag = 0 then none
      else some [cur.rhs / cur.diag] := by
  rw [eliminate]
  simp only [beq_iff_eq]
  rfl

/-- The two kinds of steps, and where the elimination stops. -/
theorem eliminate_cons_eq (cur : Pivot ℝ) (next : Equation ℝ)
    (rest : List (Equation ℝ)) :
    eliminate cur (next :: rest) =
      if |next.left| ≤ |cur.diag| then
        if cur.diag = 0 then none
        else (eliminate (cur.reduce next) rest).map
          (backSubstitute cur.diag cur.right 0 cur.rhs)
      else (eliminate (cur.exchange next) rest).map
        (backSubstitute next.left next.diag next.right next.rhs) := by
  rw [eliminate]
  simp only [beq_iff_eq]
  rfl

/-- A coefficient that is larger than another one is not zero. -/
theorem ne_zero_of_not_abs_le {a b : ℝ} (h : ¬ |a| ≤ |b|) : a ≠ 0 := by
  rintro rfl
  rw [abs_zero] at h
  exact h (abs_nonneg b)

/-- The elimination stops where the first unknown occurs in neither equation;
    otherwise it takes a step. -/
theorem eliminate_cons (cur : Pivot ℝ) (next : Equation ℝ)
    (rest : List (Equation ℝ)) :
    (cur.diag = 0 ∧ next.left = 0 ∧ eliminate cur (next :: rest) = none)
      ∨ ∃ p e, Step cur next p e ∧ eliminate cur (next :: rest)
        = (eliminate p rest).map
          (backSubstitute e.left e.diag e.right e.rhs) := by
  rw [eliminate_cons_eq]
  split_ifs with hle hd
  · rw [hd, abs_zero] at hle
    exact Or.inl ⟨hd, abs_nonpos_iff.mp hle, rfl⟩
  · exact Or.inr ⟨_, _, .reduce hd, rfl⟩
  · exact Or.inr ⟨_, _, .exchange (ne_zero_of_not_abs_le hle), rfl⟩

/-- A system with equations behind its pivot has two unknowns at least. -/
theorem Solves.eq_cons {cur : Pivot ℝ} {next : Equation ℝ}
    {rest : List (Equation ℝ)} {xs : List ℝ}
    (h : Solves cur (next :: rest) xs) : ∃ x ys, xs = x :: ys := by
  have hlen : xs.length = rest.length + 2 := SatisfyAll.length_eq h.2
  cases xs with
  | nil => exact nomatch hlen
  | cons x ys => exact ⟨x, ys, rfl⟩

/-! ## What the elimination answers -/

/-- A system of one equation is solved by its quotient. -/
theorem solves_nil_iff {cur : Pivot ℝ} (hd : cur.diag ≠ 0) (ys : List ℝ) :
    Solves cur [] ys ↔ ys = [cur.rhs / cur.diag] := by
  constructor
  · rintro ⟨hp, hlen⟩
    obtain ⟨y, rfl⟩ := List.length_eq_one_iff.mp hlen
    have hy : cur.diag * y + cur.right * 0 = cur.rhs := hp
    rw [List.singleton_inj, eq_div_iff hd]
    linear_combination hy
  · rintro rfl
    refine ⟨?_, rfl⟩
    show cur.diag * (cur.rhs / cur.diag) + cur.right * 0 = cur.rhs
    rw [mul_div_cancel₀ _ hd, mul_zero, add_zero]

/-- **ELIMINATION ANSWERS THE SOLUTION**, and there is no other. -/
theorem solves_iff_of_eliminate {cur : Pivot ℝ} {eqs : List (Equation ℝ)}
    {xs : List ℝ} (h : eliminate cur eqs = some xs) (ys : List ℝ) :
    Solves cur eqs ys ↔ ys = xs := by
  induction eqs generalizing cur xs ys with
  | nil =>
      rw [eliminate_nil] at h
      split_ifs at h with hd
      obtain rfl := Option.some.inj h
      exact solves_nil_iff hd ys
  | cons next rest ih =>
      rcases eliminate_cons cur next rest with
        ⟨-, -, hnone⟩ | ⟨p, e, step, heq⟩
      · rw [hnone] at h
        exact nomatch h
      rw [heq] at h
      obtain ⟨zs, hzs, rfl⟩ := Option.map_eq_some_iff.mp h
      have hne : zs ≠ [] := by
        rintro rfl
        exact nomatch eliminate_length _ _ hzs
      rw [backSubstitute_eq e.left e.diag e.right e.rhs hne]
      constructor
      · intro hys
        obtain ⟨y, ys, rfl⟩ := hys.eq_cons
        obtain ⟨hy, hrest⟩ := step.solves_iff.mp hys
        obtain rfl := (ih hzs ys).mp hrest
        rw [hy]
      · rintro rfl
        exact step.solves_iff.mpr ⟨rfl, (ih hzs zs).mpr rfl⟩

/-- Zeros satisfy equations without right-hand sides. -/
theorem satisfyAll_zeros (eqs : List (Equation ℝ)) :
    SatisfyAll (eqs.map Equation.homogeneous)
      (List.replicate (eqs.length + 1) 0) := by
  induction eqs with
  | nil => rfl
  | cons e es ih =>
      refine ⟨?_, ih⟩
      simp [Equation.Holds, Equation.homogeneous, List.replicate_succ]

/-- An unknown that occurs in no equation is free. -/
theorem solves_one_zeros {cur : Pivot ℝ} {next : Equation ℝ}
    (hd : cur.diag = 0) (hl : next.left = 0) (rest : List (Equation ℝ)) :
    Solves cur.homogeneous ((next :: rest).map Equation.homogeneous)
      (1 :: List.replicate (rest.length + 1) 0) := by
  refine ⟨?_, ?_, satisfyAll_zeros rest⟩
  · simp [Pivot.Holds, Pivot.homogeneous, hd, List.replicate_succ]
  · simp [Equation.Holds, Equation.homogeneous, hl, List.replicate_succ]

/-- **WHERE ELIMINATION STOPS** the system without right-hand sides has a
    solution other than zero. -/
theorem exists_solves_of_eliminate_eq_none {cur : Pivot ℝ}
    {eqs : List (Equation ℝ)} (h : eliminate cur eqs = none) :
    ∃ xs, Solves cur.homogeneous (eqs.map Equation.homogeneous) xs
      ∧ ∃ x ∈ xs, x ≠ 0 := by
  induction eqs generalizing cur with
  | nil =>
      rw [eliminate_nil] at h
      split_ifs at h with hd
      refine ⟨[1], ⟨?_, rfl⟩, 1, List.mem_singleton_self _, one_ne_zero⟩
      show cur.diag * 1 + cur.right * 0 = 0
      rw [hd, zero_mul, mul_zero, add_zero]
  | cons next rest ih =>
      rcases eliminate_cons cur next rest with
        ⟨hd, hl, -⟩ | ⟨p, e, step, heq⟩
      · exact ⟨_, solves_one_zeros hd hl rest, 1, List.mem_cons_self ..,
          one_ne_zero⟩
      · rw [heq] at h
        obtain ⟨ys, hys, y, hy, hy0⟩ := ih (Option.map_eq_none_iff.mp h)
        exact ⟨_, step.homogeneous.solves_iff.mpr ⟨rfl, hys⟩, y,
          List.mem_cons_of_mem _ hy, hy0⟩

end Tridiagonal

end PiecewiseCubic
