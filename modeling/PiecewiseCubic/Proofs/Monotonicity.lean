import Mathlib
import PiecewiseCubic.Monotonicity

/-! # Combining many monotonicities

    Monotonicities combine in any order and in any grouping, a constant one
    changes nothing and a mixed one absorbs the others.  So a list is combined
    to the same whole if it is permuted or cut in two, and nothing is lost by
    stopping where the whole is mixed for the first time.  Literals are read
    only up to this place: one before it that is no code is refused, and what
    is behind it is not looked at. -/

namespace PiecewiseCubic.Monotonicity

instance : Std.Associative combine := ⟨combine_assoc⟩

instance : Std.Commutative combine := ⟨combine_comm⟩

/-! ## Lists of monotonicities -/

/-- A list may be combined before it is put behind a whole. -/
theorem foldl_combine (whole : Monotonicity) (ms : List Monotonicity) :
    ms.foldl combine whole = combine whole (ms.foldl combine .constant) := by
  have hassoc : ms.foldl combine (combine whole .constant)
      = combine whole (ms.foldl combine .constant) := List.foldl_assoc
  rw [← hassoc, combine_constant_right]

/-- A mixed whole stays mixed. -/
theorem foldl_combine_mixed (ms : List Monotonicity) :
    ms.foldl combine .mixed = .mixed := by
  rw [foldl_combine, combine_mixed_left]

/-- **THE EARLY STOP** loses nothing: all monotonicities are combined. -/
theorem reduce_eq_foldl (whole : Monotonicity) (ms : List Monotonicity) :
    reduce whole ms = ms.foldl combine whole := by
  induction ms generalizing whole with
  | nil => rfl
  | cons m ms ih =>
      rw [reduce, List.foldl_cons]
      split_ifs with hmixed
      · rw [hmixed, foldl_combine_mixed]
      · exact ih (combine whole m)

/-- **THE ORDER** of a list does not matter. -/
theorem reduce_perm (whole : Monotonicity) {ms ns : List Monotonicity}
    (h : ms.Perm ns) : reduce whole ms = reduce whole ns := by
  rw [reduce_eq_foldl, reduce_eq_foldl]
  exact h.foldl_eq whole

/-- **TWO PARTS** of a list may be combined on their own. -/
theorem reduce_append (whole : Monotonicity) (ms ns : List Monotonicity) :
    reduce whole (ms ++ ns)
      = combine (reduce whole ms) (reduce .constant ns) := by
  rw [reduce_eq_foldl, reduce_eq_foldl, reduce_eq_foldl, List.foldl_append,
    foldl_combine]

/-! ## Lists of literals -/

/-- Literals that are the codes of monotonicities. -/
def Spells (ls : List Literal) (ms : List Monotonicity) : Prop :=
  List.Forall₂ (fun l m => ofLiteral l = .ok m) ls ms

/-- No monotonicity of a list, combined with all before it, makes the whole
    mixed. -/
def Unmixed (whole : Monotonicity) (ms : List Monotonicity) : Prop :=
  ∀ n, 0 < n → n ≤ ms.length → (ms.take n).foldl combine whole ≠ .mixed

variable {whole m : Monotonicity} {ms : List Monotonicity} {l : Literal}
  {ls : List Literal}

theorem Unmixed.of_cons (h : Unmixed whole (m :: ms)) :
    combine whole m ≠ .mixed ∧ Unmixed (combine whole m) ms := by
  refine ⟨h 1 Nat.one_pos (by simp), fun n hn hle => ?_⟩
  exact h (n + 1) (Nat.succ_pos n) (by simpa using hle)

/-- What is read of codes is combined like the monotonicities. -/
theorem map_fst_reduceLiterals (h : Spells ls ms) (whole : Monotonicity) :
    (reduceLiterals whole ls).map Prod.fst = .ok (reduce whole ms) := by
  induction h generalizing whole with
  | nil => rfl
  | cons hl _ ih =>
      rw [reduceLiterals, hl, reduce]
      dsimp only
      split_ifs with hmixed
      · rfl
      · rw [← ih]
        cases reduceLiterals _ _ <;> rfl

/-- **CODES THAT LEAVE THE WHOLE UNMIXED** are all read, and what is behind
    them is combined onto their whole. -/
theorem reduceLiterals_append (h : Spells ls ms) (unmixed : Unmixed whole ms)
    (rest : List Literal) :
    reduceLiterals whole (ls ++ rest)
      = (reduceLiterals (ms.foldl combine whole) rest).map
        fun (r, n) => (r, n + ls.length) := by
  induction h generalizing whole with
  | nil =>
      rw [List.nil_append, List.foldl_nil]
      cases reduceLiterals whole rest <;> rfl
  | @cons l m ls ms hl _ ih =>
      obtain ⟨hmixed, hrest⟩ := unmixed.of_cons
      rw [List.cons_append, reduceLiterals, hl]
      dsimp only
      rw [if_neg hmixed, ih hrest, List.foldl_cons]
      cases reduceLiterals _ _ <;> rfl

/-- The literal behind such codes is refused if it is no code. -/
theorem reduceLiterals_refused (h : Spells ls ms) (unmixed : Unmixed whole ms)
    {refusal : Refusal} (hl : ofLiteral l = .error refusal)
    (rest : List Literal) :
    reduceLiterals whole (ls ++ l :: rest) = .error refusal := by
  rw [reduceLiterals_append h unmixed, reduceLiterals, hl]
  rfl

/-- **THE CODE THAT MIXES THE WHOLE** is the last one that is read. -/
theorem reduceLiterals_stopped (h : Spells ls ms) (unmixed : Unmixed whole ms)
    (hl : ofLiteral l = .ok m)
    (hmixed : (ms ++ [m]).foldl combine whole = .mixed)
    (rest : List Literal) :
    reduceLiterals whole (ls ++ l :: rest) = .ok (.mixed, ls.length + 1) := by
  rw [List.foldl_append] at hmixed
  have hlast : combine (ms.foldl combine whole) m = .mixed := hmixed
  rw [reduceLiterals_append h unmixed, reduceLiterals, hl]
  dsimp only
  rw [if_pos hlast, hlast, Nat.add_comm]
  rfl

/-- A code is read before a list is combined onto it. -/
theorem reduceAll_list {start : Literal} (hstart : ofLiteral start = .ok whole)
    (ls : List Literal) :
    reduceAll start (.list ls) = reduceLiterals whole ls := by
  rw [reduceAll, hstart]
  rfl

/-- What is promised of a list of literals that is combined onto a code. -/
structure ReducesCodes (start : Literal) (whole : Monotonicity) : Prop where
  /-- Codes are combined from the first one to the last one, and so are the
      monotonicities that they stand for. -/
  value : ∀ {ls ms}, Spells ls ms →
    (reduceAll start (.list ls)).map Prod.fst
        = .ok (ms.foldl combine whole)
      ∧ reduce whole ms = ms.foldl combine whole
  /-- The order of the codes does not matter. -/
  perm : ∀ {ls ls' ms}, Spells ls ms → ls'.Perm ls →
    (reduceAll start (.list ls')).map Prod.fst
      = (reduceAll start (.list ls)).map Prod.fst
  /-- A second part may be combined on its own, onto a constant one. -/
  append : ∀ {ls ls' ms ms' neutral}, Spells ls ms → Spells ls' ms' →
    ofLiteral neutral = .ok .constant →
      ∃ r s, (reduceAll start (.list ls)).map Prod.fst = .ok r
        ∧ (reduceAll neutral (.list ls')).map Prod.fst = .ok s
        ∧ (reduceAll start (.list (ls ++ ls'))).map Prod.fst
          = .ok (combine r s)
  /-- Codes that leave the whole unmixed are all read. -/
  reads : ∀ {ls ms}, Spells ls ms → Unmixed whole ms →
    reduceAll start (.list ls) = .ok (ms.foldl combine whole, ls.length)
  /-- The first code that mixes the whole is the last one that is read,
      whatever is behind it. -/
  stops : ∀ {ls ms l m}, Spells ls ms → Unmixed whole ms →
    ofLiteral l = .ok m → (ms ++ [m]).foldl combine whole = .mixed →
      ∀ rest, reduceAll start (.list (ls ++ l :: rest))
        = .ok (.mixed, ls.length + 1)
  /-- A literal before it that is no code is refused. -/
  refuses : ∀ {ls ms l refusal}, Spells ls ms → Unmixed whole ms →
    ofLiteral l = .error refusal →
      ∀ rest, reduceAll start (.list (ls ++ l :: rest)) = .error refusal

/-- **CODES COMBINE** onto every code as their monotonicities do, in any order
    and in parts, and are read up to the first one that mixes the whole. -/
theorem reduceAll_codes {start : Literal} {whole : Monotonicity}
    (hstart : ofLiteral start = .ok whole) : ReducesCodes start whole where
  value := by
    intro ls ms h
    rw [reduceAll_list hstart, map_fst_reduceLiterals h, reduce_eq_foldl]
    exact ⟨rfl, rfl⟩
  perm := by
    intro ls ls' ms h perm
    -- codes in another order spell the monotonicities in another order
    obtain ⟨ms', h', hperm⟩ := List.perm_comp_forall₂ perm h
    rw [reduceAll_list hstart, reduceAll_list hstart,
      map_fst_reduceLiterals h, map_fst_reduceLiterals h',
      reduce_perm whole hperm]
  append := by
    intro ls ls' ms ms' neutral h h' hneutral
    rw [reduceAll_list hstart, reduceAll_list hstart,
      reduceAll_list hneutral, map_fst_reduceLiterals h,
      map_fst_reduceLiterals h',
      map_fst_reduceLiterals (List.rel_append h h'), reduce_append]
    exact ⟨_, _, rfl, rfl, rfl⟩
  reads := by
    intro ls ms h unmixed
    have hread := reduceLiterals_append h unmixed []
    rw [List.append_nil] at hread
    rw [reduceAll_list hstart, hread, reduceLiterals]
    show Except.ok (_, 0 + ls.length) = _
    rw [Nat.zero_add]
  stops := by
    intro ls ms l m h unmixed hl hmixed rest
    rw [reduceAll_list hstart]
    exact reduceLiterals_stopped h unmixed hl hmixed rest
  refuses := by
    intro ls ms l refusal h unmixed hl rest
    rw [reduceAll_list hstart]
    exact reduceLiterals_refused h unmixed hl rest

/-- Rising, constant and then falling: the third code is the last one read,
    and the text and the number behind it are no codes. -/
theorem reduceAll_codes_unread :
    ofLiteral (.bool true) = .ok .increasing
      ∧ reduceAll (.bool true)
          (.list [.int 1, .int 3, .int (-1), .text "flat", .int 7])
        = .ok (.mixed, 3)
      ∧ (reduceAll (.bool true) (.list [.int 3, .int (-1), .int 1])).map
          Prod.fst = .ok .mixed := by
  have hstart : ofLiteral (.bool true) = .ok .increasing := rfl
  have hcodes := reduceAll_codes hstart
  have hflat : Spells [.int 1, .int 3] [.increasing, .constant] :=
    .cons rfl (.cons rfl .nil)
  have hall : Spells [.int 1, .int 3, .int (-1)]
      [.increasing, .constant, .decreasing] :=
    .cons rfl (.cons rfl (.cons rfl .nil))
  have hunmixed : Unmixed .increasing [.increasing, .constant] := by
    intro n hn hle
    have htwo : n ≤ 2 := hle
    interval_cases n <;> decide
  have hdown : ofLiteral (.int (-1)) = .ok .decreasing := rfl
  refine ⟨hstart, hcodes.stops hflat hunmixed hdown rfl _, ?_⟩
  have hperm : ([.int 3, .int (-1)] ++ [.int 1] : List Literal).Perm
      ([.int 1] ++ [.int 3, .int (-1)]) := List.perm_append_comm
  exact (hcodes.perm hall hperm).trans (hcodes.value hall).1

end PiecewiseCubic.Monotonicity
