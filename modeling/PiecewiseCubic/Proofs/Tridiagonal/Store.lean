import PiecewiseCubic.Proofs.Double
import PiecewiseCubic.Tridiagonal.Session

/-! # A matrix as a store of its elements

    An edit replaces one element of a matrix, which it names by two whole
    numbers, or adds to it.  (A truth value in the place of the second one
    names no element, but a whole diagonal.)  The matrix is compared with a
    full table of all elements, on which an edit that is accepted acts in the
    one place that it names.  Each element of the pattern is stored in a place
    of its own, so a write there is seen by that element and by no other one;
    one edit thus keeps matrix and table alike, and by induction any row of
    edits does, accepted or refused.  Places that are stored for no element,
    the outer ends of the diagonals, are never written. -/

namespace PiecewiseCubic.Tridiagonal

open Scalar

variable {n : ℕ}

/-! ## Elements and their places -/

/-- Whether row and column are those of an element. -/
def InMatrix (n : ℕ) (i j : ℤ) : Prop := (0 ≤ i ∧ i < n) ∧ 0 ≤ j ∧ j < n

/-- Whether an element is on one of the three diagonals or, in a cyclic matrix,
    in the top right or bottom left corner. -/
def InPattern (n : ℕ) (cyclic : Bool) (i j : ℤ) : Prop :=
  |i - j| ≤ 1 ∨ cyclic = true ∧ (i = 0 ∧ j = n - 1 ∨ i = n - 1 ∧ j = 0)

instance (i j : ℤ) : Decidable (InMatrix n i j) :=
  inferInstanceAs (Decidable (_ ∧ _))

instance (cyclic : Bool) (i j : ℤ) : Decidable (InPattern n cyclic i j) :=
  inferInstanceAs (Decidable (_ ∨ _))

theorem InMatrix.exists_fin {i j : ℤ} (h : InMatrix n i j) :
    ∃ a b : Fin n, (a : ℤ) = i ∧ (b : ℤ) = j := by
  obtain ⟨⟨hi, hin⟩, hj, hjn⟩ := h
  refine ⟨⟨i.toNat, ?_⟩, ⟨j.toNat, ?_⟩, Int.toNat_of_nonneg hi,
    Int.toNat_of_nonneg hj⟩
  · omega
  · omega

theorem inMatrix_fin (i j : Fin n) : InMatrix n i j := by
  rw [InMatrix]
  omega

/-- Row and column of the element that a place is for.  Those of the outer ends
    of the diagonals are in no matrix. -/
def Place.element : Place n → ℤ × ℤ
  | .above j => (j - 1, j)
  | .diag j => (j, j)
  | .below j => (j + 1, j)
  | .topRight => (0, n - 1)
  | .bottomLeft => (n - 1, 0)

/-- **A PLACE** is for one element only. -/
theorem element_of_place? {cyclic : Bool} {i j : Fin n} {p : Place n}
    (h : place? cyclic i j = some p) : p.element = ((i : ℤ), (j : ℤ)) := by
  unfold place? at h
  split_ifs at h with hdiag habove hbelow htop hbottom
  all_goals
    obtain rfl := Option.some.inj h
    rw [Place.element, Prod.mk.injEq]
  · rw [hdiag]
    exact ⟨rfl, rfl⟩
  · omega
  · omega
  · omega
  · omega

/-- **THE PATTERN** has a place for each of its elements, and for no other
    one. -/
theorem place?_eq_none_iff {cyclic : Bool} {i j : Fin n} :
    place? cyclic i j = none ↔ ¬ InPattern n cyclic i j := by
  rw [InPattern, abs_le]
  unfold place?
  split_ifs with hdiag habove hbelow htop hbottom
  · exact iff_of_false nofun (not_not.mpr (Or.inl (by rw [hdiag]; omega)))
  · exact iff_of_false nofun (not_not.mpr (Or.inl (by omega)))
  · exact iff_of_false nofun (not_not.mpr (Or.inl (by omega)))
  · exact iff_of_false nofun (not_not.mpr (Or.inr ⟨htop.1, by omega⟩))
  · exact iff_of_false nofun (not_not.mpr (Or.inr ⟨hbottom.1, by omega⟩))
  · refine iff_of_true rfl ?_
    have hval : i.val ≠ j.val := fun h => hdiag (Fin.ext h)
    rintro (⟨hlow, hhigh⟩ | ⟨hcyclic, hcorner⟩)
    · omega
    · simp only [hcyclic, true_and] at htop hbottom
      omega

/-- A corner is a place of its own from order three on. -/
theorem place?_eq_topRight_iff {cyclic : Bool} {i j : Fin n} :
    place? cyclic i j = some .topRight
      ↔ cyclic = true ∧ 2 < n ∧ i.val = 0 ∧ j.val + 1 = n := by
  unfold place?
  split_ifs with hdiag habove hbelow htop hbottom
  · exact iff_of_false nofun (by rw [hdiag]; omega)
  · exact iff_of_false nofun (by omega)
  · exact iff_of_false nofun (by omega)
  · have hval : i.val ≠ j.val := fun h => hdiag (Fin.ext h)
    exact iff_of_true rfl ⟨htop.1, by omega, htop.2⟩
  · exact iff_of_false nofun fun h => htop ⟨h.1, h.2.2⟩
  · exact iff_of_false nofun fun h => htop ⟨h.1, h.2.2⟩

theorem place?_eq_bottomLeft_iff {cyclic : Bool} {i j : Fin n} :
    place? cyclic i j = some .bottomLeft
      ↔ cyclic = true ∧ 2 < n ∧ i.val + 1 = n ∧ j.val = 0 := by
  unfold place?
  split_ifs with hdiag habove hbelow htop hbottom
  · exact iff_of_false nofun (by rw [hdiag]; omega)
  · exact iff_of_false nofun (by omega)
  · exact iff_of_false nofun (by omega)
  · have hval : i.val ≠ j.val := fun h => hdiag (Fin.ext h)
    exact iff_of_false nofun (by omega)
  · have hval : i.val ≠ j.val := fun h => hdiag (Fin.ext h)
    exact iff_of_true rfl ⟨hbottom.1, by omega, hbottom.2⟩
  · exact iff_of_false nofun fun h => hbottom ⟨h.1, h.2.2⟩

variable {α : Type}

/-! ## What whole numbers address -/

theorem isIndex_int (k : ℤ) :
    isIndex n (.int k)
      = (.ok (decide (0 ≤ k ∧ k < n)) : Except (Fault α) Bool) := by
  rw [isIndex, Bool.decide_and]

theorem toFin?_int (i : Fin n) : toFin? n (.int i) = some i := by
  have hi : 0 ≤ (i : ℤ) ∧ (i : ℤ).toNat < n := by omega
  rw [toFin?, Literal.toInt?, Option.bind_some, dif_pos hi]
  rfl

/-- **OUTSIDE OF THE MATRIX** nothing is addressed. -/
theorem locate_of_not_inMatrix (M : Tridiagonal α n) {i j : ℤ}
    (h : ¬ InMatrix n i j) :
    M.locate (.int i) (.int j)
      = .error (.outsideMatrix (.int i) (.int j) n) := by
  rw [locate, isIndex_int, isIndex_int]
  by_cases hi : 0 ≤ i ∧ i < n
  · have hj : ¬ (0 ≤ j ∧ j < n) := fun hj => h ⟨hi, hj⟩
    rw [decide_eq_true hi, decide_eq_false hj]
    rfl
  · rw [decide_eq_false hi]
    rfl

/-- **IN THE MATRIX** whole numbers address the place of the element that they
    name. -/
theorem locate_int (M : Tridiagonal α n) (i j : Fin n) :
    M.locate (.int i) (.int j)
      = .ok ((place? M.cyclic i j).map Spot.place) := by
  have hi : 0 ≤ (i : ℤ) ∧ (i : ℤ) < n := by omega
  have hj : 0 ≤ (j : ℤ) ∧ (j : ℤ) < n := by omega
  rw [locate, isIndex_int, isIndex_int, decide_eq_true hi, decide_eq_true hj,
    toFin?_int, toFin?_int]
  simp only [bind, Except.bind, Bool.not_true, Bool.false_eq_true, if_false]
  cases place? M.cyclic i j with
  | none => rfl
  | some p => cases p <;> rfl

theorem spotAt_of_not_inMatrix (M : Tridiagonal α n) {i j : ℤ}
    (h : ¬ InMatrix n i j) :
    M.spotAt (.int i) (.int j)
      = .error (.outsideMatrix (.int i) (.int j) n) := by
  rw [spotAt, locate_of_not_inMatrix M h]
  rfl

theorem spotAt_int (M : Tridiagonal α n) (i j : Fin n) :
    M.spotAt (.int i) (.int j) = match place? M.cyclic i j with
      | some p => .ok (.place p)
      | none => .error (.outsidePattern (.int i) (.int j)) := by
  rw [spotAt, locate_int]
  cases place? M.cyclic i j with
  | none => rfl
  | some p => rfl

variable [Scalar α]

/-! ## Reading and writing -/

/-- Whole numbers read the element that they name. -/
theorem getAt_int (M : Tridiagonal α n) (i j : Fin n) :
    M.getAt (.int i) (.int j) = .ok (M.get i j) := by
  rw [getAt, locate_int, get]
  cases place? M.cyclic i j with
  | none => rfl
  | some p => rfl

/-- A write is seen by the element that the place is for, and by no other
    one. -/
theorem get_write {M : Tridiagonal α n} {i j : Fin n} {p : Place n}
    (h : place? M.cyclic i j = some p) (v : α) (k l : Fin n) :
    (M.write p v).get k l = if k = i ∧ l = j then v else M.get k l := by
  rw [get, get, write_cyclic]
  by_cases hsame : k = i ∧ l = j
  · obtain ⟨rfl, rfl⟩ := hsame
    rw [h, if_pos ⟨rfl, rfl⟩]
    exact read_write_self M p v
  · rw [if_neg hsame]
    cases hq : place? M.cyclic k l with
    | none => rfl
    | some q =>
        refine read_write_of_ne M v fun heq => hsame ?_
        have helement := (element_of_place? hq).symm.trans
          (heq ▸ element_of_place? h)
        rw [Prod.mk.injEq] at helement
        exact ⟨Fin.ext (by omega), Fin.ext (by omega)⟩

/-- An element outside of the pattern is zero. -/
theorem get_of_not_inPattern {M : Tridiagonal α n} {i j : Fin n}
    (h : ¬ InPattern n M.cyclic i j) : M.get i j = 0 := by
  rw [get, place?_eq_none_iff.mpr h]

/-- The three diagonals hold the elements on their places and are zero
    elsewhere. -/
theorem bandEntry_eq {M : Tridiagonal α n} {i j : Fin n} :
    M.bandEntry i j = match place? M.cyclic i j with
      | some (.above k) => (M.columns.get k).above
      | some (.diag k) => (M.columns.get k).diag
      | some (.below k) => (M.columns.get k).below
      | _ => 0 := by
  unfold bandEntry place?
  split_ifs <;> rfl

/-- The list of all elements has each element that can be read; what a corner
    holds is added to zero there. -/
theorem same_toDense [NeutralZero α] (M : Tridiagonal α n) (i j : Fin n) :
    Same ((M.toDense.get i).get j) (M.get i j) := by
  simp only [toDense, Vector.get_ofFn, ← place?_eq_topRight_iff,
    ← place?_eq_bottomLeft_iff, bandEntry_eq, get]
  cases place? M.cyclic i j with
  | none => exact Same.refl 0
  | some p =>
      cases p with
      | above k => exact Same.refl _
      | diag k => exact Same.refl _
      | below k => exact Same.refl _
      | topRight => exact NeutralZero.same_zero_add M.topRight
      | bottomLeft => exact NeutralZero.same_zero_add M.bottomLeft

/-! ## Edits -/

/-- How an edit changes an element. -/
inductive Mode where
  | replace
  | increase
  deriving DecidableEq, Repr

/-- A change of the element in a row and a column. -/
structure Edit (α : Type) where
  mode : Mode
  row : ℤ
  column : ℤ
  value : Cell α

namespace Edit

/-- The edit as a request. -/
def request (e : Edit α) : Request α :=
  match e.mode with
  | .replace => .set (.int e.row) (.int e.column) e.value
  | .increase => .add (.int e.row) (.int e.column) e.value

/-- The number that an edit brings along, if there is one in its value. -/
def number (e : Edit α) : Except (Fault α) α :=
  match e.mode with
  | .replace => e.value.entry
  | .increase => e.value.operand

/-- What an element becomes. -/
def result (e : Edit α) (old v : α) : α :=
  match e.mode with
  | .replace => v
  | .increase => old + v

/-- The number of an edit that is accepted, or the fault of one that is
    refused: it has to be in the matrix, then in its pattern, then to have a
    number. -/
def accepted (n : ℕ) (cyclic : Bool) (e : Edit α) : Except (Fault α) α :=
  if ¬ InMatrix n e.row e.column then
    .error (.outsideMatrix (.int e.row) (.int e.column) n)
  else if ¬ InPattern n cyclic e.row e.column then
    .error (.outsidePattern (.int e.row) (.int e.column))
  else e.number

/-- A table of all elements after an edit. -/
def apply (e : Edit α) (cyclic : Bool) (A : Fin n → Fin n → α) :
    Fin n → Fin n → α :=
  match e.accepted n cyclic with
  | .ok v => fun i j =>
      if (i : ℤ) = e.row ∧ (j : ℤ) = e.column then e.result (A i j) v
      else A i j
  | .error _ => A

end Edit

/-- A new matrix after some edits. -/
def edited (cyclic : Bool) (edits : List (Edit α)) : Tridiagonal α n :=
  (edits.map Edit.request).foldl after (zero cyclic)

/-- A table of zeros after some edits. -/
def table (cyclic : Bool) (edits : List (Edit α)) : Fin n → Fin n → α :=
  edits.foldl (fun A e => e.apply cyclic A) fun _ _ => 0

/-! ## One edit -/

namespace Edit

theorem change_of_error {M : Tridiagonal α n} {e : Edit α} {fault : Fault α}
    (h : M.spotAt (.int e.row) (.int e.column) = .error fault) :
    M.change e.request = (M, some fault) := by
  rw [request]
  cases e.mode with
  | replace =>
      rw [change, setAt, h]
      rfl
  | increase =>
      rw [change, addAt, h]
      rfl

theorem change_of_place {M : Tridiagonal α n} {e : Edit α} {p : Place n}
    (h : M.spotAt (.int e.row) (.int e.column) = .ok (.place p)) :
    M.change e.request = match e.number with
      | .ok v => (M.write p (e.result (M.read p) v), none)
      | .error fault => (M, some fault) := by
  rw [request, number]
  cases hmode : e.mode with
  | replace =>
      simp only [result, hmode]
      rw [change, setAt, h]
      cases e.value.entry with
      | ok v => rfl
      | error fault => rfl
  | increase =>
      simp only [result, hmode]
      rw [change, addAt, h]
      cases e.value.operand with
      | ok v => rfl
      | error fault => rfl

/-- **ONE EDIT** is refused and changes nothing, or it writes to the place of
    the element that it names. -/
theorem change_cases (M : Tridiagonal α n) (e : Edit α) :
    (∃ fault, e.accepted n M.cyclic = .error fault
        ∧ M.change e.request = (M, some fault))
      ∨ ∃ (v : α) (i j : Fin n) (p : Place n),
        e.accepted n M.cyclic = .ok v ∧ (i : ℤ) = e.row ∧ (j : ℤ) = e.column
          ∧ place? M.cyclic i j = some p
          ∧ M.change e.request
            = (M.write p (e.result (M.read p) v), none) := by
  by_cases hmatrix : InMatrix n e.row e.column
  · obtain ⟨i, j, hi, hj⟩ := hmatrix.exists_fin
    have hspot := spotAt_int M i j
    rw [hi, hj] at hspot
    cases hp : place? M.cyclic i j with
    | none =>
        rw [hp] at hspot
        have hpattern := place?_eq_none_iff.mp hp
        rw [hi, hj] at hpattern
        refine Or.inl ⟨_, ?_, change_of_error hspot⟩
        rw [accepted, if_neg (not_not.mpr hmatrix), if_pos hpattern]
    | some p =>
        rw [hp] at hspot
        have hpattern : InPattern n M.cyclic e.row e.column := by
          by_contra hnot
          rw [← hi, ← hj, ← place?_eq_none_iff, hp] at hnot
          exact nomatch hnot
        have haccepted : e.accepted n M.cyclic = e.number := by
          rw [accepted, if_neg (not_not.mpr hmatrix),
            if_neg (not_not.mpr hpattern)]
        have hchange := change_of_place hspot
        rw [haccepted]
        cases hv : e.number with
        | error fault =>
            rw [hv] at hchange
            exact Or.inl ⟨fault, rfl, hchange⟩
        | ok v =>
            rw [hv] at hchange
            exact Or.inr ⟨v, i, j, p, rfl, hi, hj, hp, hchange⟩
  · refine Or.inl ⟨_, ?_, change_of_error (spotAt_of_not_inMatrix M hmatrix)⟩
    rw [accepted, if_pos hmatrix]

end Edit

/-! ## Any row of edits -/

/-- A matrix that holds the elements of a table, and zeros in the places that
    are for no element. -/
structure Holds (cyclic : Bool) (M : Tridiagonal α n) (A : Fin n → Fin n → α) :
    Prop where
  cyclic_eq : M.cyclic = cyclic
  get_eq : ∀ i j, M.get i j = A i j
  unused : ∀ p : Place n, ¬ InMatrix n p.element.1 p.element.2 → M.read p = 0

theorem holds_zero (cyclic : Bool) :
    Holds cyclic (zero cyclic : Tridiagonal α n) fun _ _ => 0 := by
  have hread : ∀ p : Place n, (zero cyclic : Tridiagonal α n).read p = 0 := by
    intro p
    cases p with
    | above j => simp [read, zero]
    | diag j => simp [read, zero]
    | below j => simp [read, zero]
    | topRight => rfl
    | bottomLeft => rfl
  refine ⟨rfl, fun i j => ?_, fun p _ => hread p⟩
  rw [get]
  cases place? (zero cyclic : Tridiagonal α n).cyclic i j with
  | none => rfl
  | some p => exact hread p

/-- **A STEP** keeps matrix and table alike. -/
theorem Holds.edit {cyclic : Bool} {M : Tridiagonal α n}
    {A : Fin n → Fin n → α} (h : Holds cyclic M A) (e : Edit α) :
    Holds cyclic (M.after e.request) (e.apply cyclic A) := by
  obtain ⟨rfl, hget, hunused⟩ := h
  rw [after, Edit.apply]
  obtain ⟨fault, haccepted, hchange⟩
    | ⟨v, i, j, p, haccepted, hi, hj, hp, hchange⟩ := e.change_cases M
  · rw [haccepted, hchange]
    exact ⟨rfl, hget, hunused⟩
  · rw [haccepted, hchange]
    refine ⟨write_cyclic M p _, fun k l => ?_, fun q hq => ?_⟩
    · show (M.write p _).get k l
        = if (k : ℤ) = e.row ∧ (l : ℤ) = e.column then e.result (A k l) v
          else A k l
      have hold : M.read p = M.get i j := by rw [get, hp]
      rw [get_write hp, hold]
      by_cases hsame : k = i ∧ l = j
      · obtain ⟨rfl, rfl⟩ := hsame
        rw [if_pos ⟨rfl, rfl⟩, if_pos ⟨hi, hj⟩, hget]
      · have hother : ¬ ((k : ℤ) = e.row ∧ (l : ℤ) = e.column) := by
          rintro ⟨hk, hl⟩
          exact hsame ⟨Fin.ext (by omega), Fin.ext (by omega)⟩
        rw [if_neg hsame, if_neg hother, hget]
    · -- the place of an element is not one of the unused ones
      have hne : q ≠ p := by
        rintro rfl
        rw [element_of_place? hp] at hq
        exact hq (inMatrix_fin i j)
      rw [read_write_of_ne M _ hne]
      exact hunused q hq

/-- **A RUN** keeps matrix and table alike. -/
theorem Holds.edits {cyclic : Bool} {M : Tridiagonal α n}
    {A : Fin n → Fin n → α} (h : Holds cyclic M A) (edits : List (Edit α)) :
    Holds cyclic ((edits.map Edit.request).foldl after M)
      (edits.foldl (fun A e => e.apply cyclic A) A) := by
  induction edits generalizing M A with
  | nil => exact h
  | cons e rest ih => exact ih (h.edit e)

theorem holds_edited (cyclic : Bool) (edits : List (Edit α)) :
    Holds cyclic (edited cyclic edits : Tridiagonal α n) (table cyclic edits) :=
  (holds_zero cyclic).edits edits

/-! ## The store -/

/-- What a matrix that stores a table promises to those who use it. -/
structure Stores (cyclic : Bool) (M : Tridiagonal α (n + 1))
    (A : Fin (n + 1) → Fin (n + 1) → α) : Prop where
  /-- Each element is read as the table has it. -/
  getAt_eq : ∀ i j : Fin (n + 1), M.getAt (.int i) (.int j) = .ok (A i j)
  /-- It is the same number in the list of all elements. -/
  same_dense : ∀ i j, Same ((M.toDense.get i).get j) (A i j)
  /-- Outside of the pattern there are zeros. -/
  eq_zero : ∀ i j : Fin (n + 1), ¬ InPattern (n + 1) cyclic i j → A i j = 0
  /-- The next edit is answered by what is stored, or by its fault. -/
  answer_eq : ∀ (e : Edit α) (atEnd : Tridiagonal α (n + 1)),
    answer atEnd M e.request
      = (e.accepted (n + 1) cyclic).map fun _ => atEnd.stored
  /-- It changes nothing if it is refused. -/
  after_eq : ∀ (e : Edit α) (fault : Fault α),
    e.accepted (n + 1) cyclic = .error fault → M.after e.request = M
  /-- The outer ends of the upper and the lower diagonal are zero. -/
  unused_eq : (M.band .above).get firstPlace = 0
    ∧ (M.band .below).get (Fin.last n) = 0

theorem answer_request (atEnd M : Tridiagonal α n) (e : Edit α) :
    answer atEnd M e.request = answerTo (M.change e.request) atEnd.stored := by
  rw [Edit.request]
  cases e.mode with
  | replace => rfl
  | increase => rfl

/-- **A MATRIX IS A FAITHFUL STORE** of its elements, whatever edits it was
    given before, accepted or refused. -/
theorem stores_edited [NeutralZero α] (cyclic : Bool) (edits : List (Edit α)) :
    Stores cyclic (edited cyclic edits : Tridiagonal α (n + 1))
      (table cyclic edits) := by
  obtain ⟨hcyclic, hget, hunused⟩ := holds_edited (n := n + 1) cyclic edits
  generalize edited cyclic edits = M at *
  subst hcyclic
  constructor
  case getAt_eq =>
    intro i j
    rw [getAt_int, hget]
  case same_dense =>
    intro i j
    rw [← hget]
    exact same_toDense M i j
  case eq_zero =>
    intro i j h
    rw [← hget, get_of_not_inPattern h]
  case answer_eq =>
    intro e atEnd
    rw [answer_request]
    obtain ⟨fault, haccepted, hchange⟩
      | ⟨v, i, j, p, haccepted, -, -, -, hchange⟩ := e.change_cases M
    · rw [haccepted, hchange]
      rfl
    · rw [haccepted, hchange]
      rfl
  case after_eq =>
    intro e fault hfault
    rw [after]
    obtain ⟨_, -, hchange⟩ | ⟨v, i, j, p, haccepted, -⟩ := e.change_cases M
    · rw [hchange]
    · rw [haccepted] at hfault
      exact nomatch hfault
  case unused_eq =>
    have hfirst := hunused (.above firstPlace)
      (by simp [InMatrix, Place.element, firstPlace])
    have hlast := hunused (.below (Fin.last n))
      (by simp [InMatrix, Place.element])
    simp only [band, Vector.get_map]
    exact ⟨hfirst, hlast⟩

/-- Edits of a cyclic matrix of order four, of which the first three are
    accepted; the others are outside of the pattern, outside of the matrix and
    without a number. -/
def mixedEdits : List (Edit Float) :=
  [⟨.replace, 0, 0, .number 2⟩, ⟨.increase, 0, 3, .number 5⟩,
    ⟨.increase, 0, 0, .number 1.5⟩, ⟨.replace, 0, 2, .number 7⟩,
    ⟨.increase, 4, 3, .number 1⟩, ⟨.increase, 0, 0, .text "1"⟩]

/-- The first row holds what was accepted, also in its corner. -/
theorem stores_mixedEdits :
    Stores true (edited true mixedEdits : Tridiagonal Float 4)
        (table true mixedEdits)
      ∧ List.ofFn (table true mixedEdits (0 : Fin 4)) = [3.5, 0, 0, 5] :=
  ⟨stores_edited true mixedEdits, by decide +kernel⟩

end PiecewiseCubic.Tridiagonal
