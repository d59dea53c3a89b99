import PiecewiseCubic.Proofs.Lawful
import PiecewiseCubic.Scalar.Double

/-! # Doubles are lawful scalars

    A double is an infinity, a zero, a signed multiple of a power of two or
    undefined.  Comparison is lexicographic in the class that this makes with
    the sign, the exponent and the multiple, hence that of a linear order on
    all but the undefined double.  An operation looks at the sign of a zero
    only to answer a zero, unless the zero is a divisor. -/

namespace PiecewiseCubic.Double

open Float.Model Scalar

/-! ## The order -/

/-- The place of a double in the order: its class, its exponent and its
    multiple, the latter two turned around for negative doubles.  The
    undefined double has none. -/
def place? : UnpackedFloat → Option (ℤ ×ₗ ℤ ×ₗ ℤ)
  | .notANumber => none
  | .infinity .negative => some (toLex (-2, toLex (0, 0)))
  | .finite .negative m e _ => some (toLex (-1, toLex (-e, -(m : ℤ))))
  | .zero _ => some (toLex (0, toLex (0, 0)))
  | .finite .positive m e _ => some (toLex (1, toLex (e, (m : ℤ))))
  | .infinity .positive => some (toLex (2, toLex (0, 0)))

theorem compare_eq_lt_iff (u v : UnpackedFloat) :
    u.compare v = some .lt
      ↔ ∃ p q, place? u = some p ∧ place? v = some q ∧ p < q := by
  rcases u with (_ | _) | _ | _ | ⟨_ | _, m, e, hm⟩
    <;> rcases v with (_ | _) | _ | _ | ⟨_ | _, n, f, hn⟩
    <;> simp [UnpackedFloat.compare, place?, Prod.Lex.toLex_lt_toLex,
      Ordering.then_eq_lt, Ordering.then_eq_gt, compare_lt_iff_lt,
      compare_gt_iff_gt]
  rfl

theorem compare_eq_eq_iff (u v : UnpackedFloat) :
    u.compare v = some .eq
      ↔ ∃ p q, place? u = some p ∧ place? v = some q ∧ p = q := by
  rcases u with (_ | _) | _ | _ | ⟨_ | _, m, e, hm⟩
    <;> rcases v with (_ | _) | _ | _ | ⟨_ | _, n, f, hn⟩
    <;> simp [UnpackedFloat.compare, place?, Ordering.then_eq_eq]
  · rfl
  · rfl
  · exact and_congr eq_comm eq_comm
  · exact and_congr eq_comm eq_comm

/-- The place of a double. -/
def rank? (a : Float) : Option (ℤ ×ₗ ℤ ×ₗ ℤ) := place? a.toModel.unpack

variable {a b : Float}

theorem lt_iff_rank :
    a < b ↔ ∃ p q, rank? a = some p ∧ rank? b = some q ∧ p < q := by
  rw [rank?, rank?, ← compare_eq_lt_iff]
  show Float.lt a b = true ↔ _
  rw [Float.lt, decide_eq_true_iff]
  exact beq_iff_eq

theorem beq_iff_rank :
    (a == b) = true ↔ ∃ p q, rank? a = some p ∧ rank? b = some q ∧ p = q := by
  rw [rank?, rank?, ← compare_eq_eq_iff]
  show UnpackedFloat.beq _ _ = true ↔ _
  rw [UnpackedFloat.beq, beq_iff_eq]

theorem le_iff_rank :
    a ≤ b ↔ ∃ p q, rank? a = some p ∧ rank? b = some q ∧ p ≤ q := by
  have hcases : a ≤ b ↔ a < b ∨ (a == b) = true := by
    rw [lt_iff_rank, beq_iff_rank, rank?, rank?, ← compare_eq_lt_iff,
      ← compare_eq_eq_iff]
    show Float.le a b = true ↔ _
    rw [Float.le, decide_eq_true_iff]
    show Option.any _ _ = true ↔ _
    cases UnpackedFloat.compare a.toModel.unpack b.toModel.unpack with
    | none => simp
    | some o => cases o <;> simp
  rw [hcases, lt_iff_rank, beq_iff_rank]
  constructor
  · rintro (⟨p, q, hp, hq, h⟩ | ⟨p, q, hp, hq, h⟩)
    · exact ⟨p, q, hp, hq, h.le⟩
    · exact ⟨p, q, hp, hq, h.le⟩
  · rintro ⟨p, q, hp, hq, h⟩
    rcases h.lt_or_eq with hlt | heq
    · exact Or.inl ⟨p, q, hp, hq, hlt⟩
    · exact Or.inr ⟨p, q, hp, hq, heq⟩

/-- Doubles with places are compared as these are. -/
theorem lt_iff_of_rank {p q : ℤ ×ₗ ℤ ×ₗ ℤ} (hp : rank? a = some p)
    (hq : rank? b = some q) : a < b ↔ p < q := by
  rw [lt_iff_rank, hp, hq]
  simp

/-- The doubles with a place are the defined ones. -/
theorem defined_iff : Defined a ↔ ∃ p, rank? a = some p := by
  rw [Defined, isUndefined, Bool.not_eq_false', beq_iff_rank]
  constructor
  · rintro ⟨p, -, hp, -⟩
    exact ⟨p, hp⟩
  · rintro ⟨p, hp⟩
    exact ⟨p, p, hp, hp, rfl⟩

/-! ## The signs of zeros -/

/-- A double with the sign of a zero forgotten. -/
def unsigned : UnpackedFloat → UnpackedFloat
  | .zero _ => .zero .positive
  | u => u

section Operations

variable (spec : Format) (u v : UnpackedFloat)

theorem unsigned_add :
    unsigned (.add spec u v)
      = unsigned (.add spec (unsigned u) (unsigned v)) := by
  rcases u with _ | _ | (_ | _) | _ <;>
    rcases v with _ | _ | (_ | _) | _ <;> rfl

theorem unsigned_sub :
    unsigned (.sub spec u v)
      = unsigned (.sub spec (unsigned u) (unsigned v)) := by
  rcases u with _ | _ | (_ | _) | _ <;>
    rcases v with _ | _ | (_ | _) | _ <;> rfl

theorem unsigned_mul :
    unsigned (.mul spec u v)
      = unsigned (.mul spec (unsigned u) (unsigned v)) := by
  rcases u with _ | _ | (_ | _) | _ <;>
    rcases v with _ | _ | (_ | _) | _ <;> rfl

theorem unsigned_div :
    unsigned (.div spec u v) = unsigned (.div spec (unsigned u) v) := by
  rcases u with _ | _ | (_ | _) | _ <;>
    rcases v with _ | _ | (_ | _) | _ <;> rfl

end Operations

theorem unsigned_eq_iff {u v : UnpackedFloat} :
    unsigned u = unsigned v ↔ u = v ∨ ∃ s t, u = .zero s ∧ v = .zero t := by
  cases u <;> cases v <;> simp [unsigned]

/-- Doubles are the same if they differ in the sign of a zero at most. -/
theorem same_iff :
    Same a b ↔ unsigned a.toModel.unpack = unsigned b.toModel.unpack := by
  rw [unsigned_eq_iff]
  constructor
  · rintro (rfl | h)
    · exact Or.inl rfl
    · have h' : a.toModel.unpack.beq b.toModel.unpack = true := h
      obtain ⟨-, -, heq | ⟨ha, hb⟩ | ⟨ha, hb⟩⟩ :=
        (UnpackedFloat.beq_iff_ne_notANumber_and_eq _ _).mp h'
      · exact Or.inl heq
      · exact Or.inr ⟨_, _, ha, hb⟩
      · exact Or.inr ⟨_, _, ha, hb⟩
  · rintro (h | ⟨s, t, ha, hb⟩)
    · refine Or.inl (Float.toBits_inj.mp ?_)
      have hbits := (UnpackedFloat.unpack_inj_of_valid a.toModel.valid
        b.toModel.valid).mp h
      exact UInt64.toBitVec_inj.mp hbits
    · have hcompare : a.toModel.unpack.beq b.toModel.unpack = true := by
        rw [ha, hb]
        rfl
      exact Or.inr hcompare

/-- A result is the same whichever sign it gives to a zero. -/
theorem same_pack {u v : UnpackedFloat} (h : unsigned u = unsigned v) :
    Same (.ofModel (.pack u)) (.ofModel (.pack v) : Float) := by
  obtain rfl | ⟨s, t, rfl, rfl⟩ := unsigned_eq_iff.mp h
  · exact Same.refl _
  · have hzero : ∀ s, (Float.Model.pack (.zero s)).unpack = .zero s :=
      fun _ => UnpackedFloat.unpack_packedZero
    rw [same_iff]
    show unsigned (Float.Model.pack _).unpack
      = unsigned (Float.Model.pack _).unpack
    rw [hzero, hzero]
    rfl

/-- An operation that asks for no signs of zeros answers the same to doubles
    that are the same. -/
theorem same_op {f : UnpackedFloat → UnpackedFloat → UnpackedFloat}
    (hf : ∀ u v, unsigned (f u v) = unsigned (f (unsigned u) (unsigned v)))
    {a a' b b' : Float} (h : Same a a') (h' : Same b b') :
    Same (.ofModel (.pack (f a.toModel.unpack b.toModel.unpack)) : Float)
      (.ofModel (.pack (f a'.toModel.unpack b'.toModel.unpack))) := by
  refine same_pack ?_
  rw [hf, same_iff.mp h, same_iff.mp h', ← hf]

instance : LawfulScalar Float where
  lt_irrefl := fun a h => by
    obtain ⟨p, q, hp, hq, hlt⟩ := lt_iff_rank.mp h
    rw [Option.some.inj (hp.symm.trans hq)] at hlt
    exact absurd hlt (lt_irrefl q)
  lt_trans := fun h h' => by
    obtain ⟨p, q, hp, hq, hlt⟩ := lt_iff_rank.mp h
    obtain ⟨q', r, hq', hr, hlt'⟩ := lt_iff_rank.mp h'
    obtain rfl := Option.some.inj (hq.symm.trans hq')
    exact lt_iff_rank.mpr ⟨p, r, hp, hr, hlt.trans hlt'⟩
  defined_of_lt := fun h => by
    obtain ⟨p, q, hp, hq, -⟩ := lt_iff_rank.mp h
    exact ⟨defined_iff.mpr ⟨p, hp⟩, defined_iff.mpr ⟨q, hq⟩⟩
  lt_or_lt := fun h hc => by
    obtain ⟨p, q, hp, hq, hlt⟩ := lt_iff_rank.mp h
    obtain ⟨r, hr⟩ := defined_iff.mp hc
    rcases lt_or_ge p r with hpr | hrp
    · exact Or.inl (lt_iff_rank.mpr ⟨p, r, hp, hr, hpr⟩)
    · exact Or.inr (lt_iff_rank.mpr ⟨r, q, hr, hq, hrp.trans_lt hlt⟩)
  le_iff := by
    intro a b
    constructor
    · intro h
      obtain ⟨p, q, hp, hq, hle⟩ := le_iff_rank.mp h
      rw [lt_iff_of_rank hq hp]
      exact ⟨defined_iff.mpr ⟨p, hp⟩, defined_iff.mpr ⟨q, hq⟩, not_lt.mpr hle⟩
    · rintro ⟨ha, hb, hba⟩
      obtain ⟨p, hp⟩ := defined_iff.mp ha
      obtain ⟨q, hq⟩ := defined_iff.mp hb
      rw [lt_iff_of_rank hq hp] at hba
      exact le_iff_rank.mpr ⟨p, q, hp, hq, not_lt.mp hba⟩
  beq_iff := by
    intro a b
    constructor
    · intro h
      obtain ⟨p, q, hp, hq, rfl⟩ := beq_iff_rank.mp h
      rw [lt_iff_of_rank hp hq, lt_iff_of_rank hq hp]
      exact ⟨defined_iff.mpr ⟨p, hp⟩, defined_iff.mpr ⟨p, hq⟩, lt_irrefl p,
        lt_irrefl p⟩
    · rintro ⟨ha, hb, hab, hba⟩
      obtain ⟨p, hp⟩ := defined_iff.mp ha
      obtain ⟨q, hq⟩ := defined_iff.mp hb
      rw [lt_iff_of_rank hp hq] at hab
      rw [lt_iff_of_rank hq hp] at hba
      exact beq_iff_rank.mpr
        ⟨p, q, hp, hq, le_antisymm (not_lt.mp hba) (not_lt.mp hab)⟩
  same_add := same_op (unsigned_add _)
  same_sub := same_op (unsigned_sub _)
  same_mul := same_op (unsigned_mul _)
  same_div := fun b h => by
    -- the sign of a zero matters to what is divided by it
    refine same_pack ?_
    rw [unsigned_div, same_iff.mp h, ← unsigned_div]

/-! ## The undefined double -/

theorem not_defined_iff : ¬ Defined a ↔ a.toModel.unpack = .notANumber := by
  have hplace : ∀ u, (∃ p, place? u = some p) ↔ u ≠ .notANumber := by
    intro u
    rcases u with (_ | _) | _ | _ | ⟨_ | _, m, e, hm⟩ <;> simp [place?]
  rw [defined_iff, rank?, hplace, not_not]

/-- An operation that makes nothing but the undefined double of it. -/
theorem not_defined_op (f : UnpackedFloat → UnpackedFloat → UnpackedFloat)
    (hf : ∀ u, f .notANumber u = .notANumber) (h : ¬ Defined a) (b : Float) :
    ¬ Defined (.ofModel (.pack (f a.toModel.unpack b.toModel.unpack))
      : Float) := by
  have hpacked : (Float.Model.pack .notANumber).unpack = .notANumber :=
    UnpackedFloat.unpack_packedNaN
  rw [not_defined_iff.mp h, hf]
  exact not_defined_iff.mpr hpacked

instance : AbsorbingUndefined Float where
  not_defined_add := fun b h => not_defined_op (.add _) (fun _ => rfl) h b
  not_defined_sub := fun b h => not_defined_op (.sub _) (fun _ => rfl) h b
  not_defined_mul := fun b h => not_defined_op (.mul _) (fun _ => rfl) h b
  not_defined_mul_right := fun b h =>
    not_defined_op (fun u v => .mul _ v u) (fun u => by cases u <;> rfl) h b
  not_defined_div := fun b h => not_defined_op (.div _) (fun _ => rfl) h b

/-! ## The parts of a double -/

/-- A double is what its own parts are put together to. -/
theorem ofModel_pack_unpack (a : Float) :
    Float.ofModel (.pack a.toModel.unpack) = a := by
  refine Float.toBits_inj.mp (UInt64.toBitVec_inj.mp ?_)
  exact UnpackedFloat.pack_unpack_of_valid a.toModel.valid

instance : NeutralZero Float where
  same_zero_add := fun a => by
    have hsum : ∀ u, unsigned (.add Format.binary64 (.zero .positive) u)
        = unsigned u := by
      intro u
      rcases u with _ | _ | (_ | _) | _ <;> rfl
    have hsame := same_pack (hsum a.toModel.unpack)
    rw [ofModel_pack_unpack] at hsame
    exact hsame

end PiecewiseCubic.Double
