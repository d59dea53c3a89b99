import PiecewiseCubic.Proofs.Curve.Arrangement
import PiecewiseCubic.Proofs.Double
import PiecewiseCubic.Session

/-! # What a session holds

    What a command makes does not depend on the session, so a session holds
    what was made by the last command that made something.  Whichever command
    that was, its curve has knots enough for its family, and its range does
    not end before it begins.  Two positions that were given as texts are the
    exception: they are compared before they are read.  Left out are commands
    that give rows for the numbers of two ends, of which no curve is made. -/

namespace PiecewiseCubic

/-- Whether a command asks about the curve and makes none. -/
def Command.asks {α : Type} : Command α → Bool
  | .create _ _ _ => false
  | .setArrays _ _ _ => false
  | .setPoints _ _ => false
  | .setEnds _ => false
  | _ => true

/-- Whether a command gives two rows in place of two positions, values or
    slopes that go together. -/
def Command.pairsRows {α : Type} : Command α → Bool
  | .setEnds numbers =>
      match numbers.items? with
      | some [x₀, x₁, y₀, y₁, m₀, m₁] =>
          (x₀.isRow && x₁.isRow) || (y₀.isRow && y₁.isRow)
            || (m₀.isRow && m₁.isRow)
      | _ => false
  | _ => false

namespace Session

open Scalar

variable {α : Type} [Scalar α] {made : Made α}

/-! ## What a command makes -/

/-- A computation with two steps succeeds if both of them do. -/
theorem bind_ok {ε β γ : Type} {x : Except ε β} {f : β → Except ε γ} {r : γ}
    (h : x >>= f = .ok r) : ∃ b, x = .ok b ∧ f b = .ok r := by
  cases x with
  | error e => exact absurd h (by simp [bind, Except.bind])
  | ok b => exact ⟨b, rfl, h⟩

/-- A fit for a caller is one of the boundary that the options ask for. -/
theorem exists_of_fit {options : FitOptions α} {points : List (Point α)}
    (h : fit options points = .ok made) :
    ∃ (cells : Boundary (Cell α)) (b : Boundary α) (c : Curve α),
      asked options = .ok cells ∧ boundary cells = .ok b
        ∧ (Curve.fit b options.sort.isTruthy points).result = .ok c
        ∧ made.curve = some c := by
  rw [fit] at h
  obtain ⟨cells, hcells, h⟩ := bind_ok h
  split at h
  case isTrue => exact absurd h (by simp [bind, Except.bind])
  case isFalse =>
    obtain ⟨b, hb, h⟩ := bind_ok h
    obtain ⟨c, hc, h⟩ := bind_ok h
    refine ⟨cells, b, c, hcells, hb, hc, ?_⟩
    rw [← Except.ok.inj h]

theorem exists_fit_of_fitArrays {x y : Cell α} {options : FitOptions α}
    (h : fitArrays x y options = .ok made) :
    ∃ points, fit options points = .ok made := by
  rw [fitArrays] at h
  obtain ⟨xs, -, h⟩ := bind_ok h
  obtain ⟨ys, -, h⟩ := bind_ok h
  split at h
  case isTrue => exact ⟨_, h⟩
  case isFalse => exact absurd h (by simp)

omit [Scalar α] in
theorem refuseTables_ne_ok {options : FitOptions α} {count : ℕ}
    {extents : List ℕ} : refuseTables options count extents ≠ .ok made := by
  intro h
  rw [refuseTables] at h
  obtain ⟨b, -, h⟩ := bind_ok h
  dsimp only at h
  split at h
  · split at h
    · exact absurd h (by simp)
    · exact absurd h (by simp)
  · split at h
    · exact absurd h (by simp)
    · exact absurd h (by simp)

theorem exists_fit_of_fitPoints {given : Cell α} {options : FitOptions α}
    (h : fitPoints given options = .ok made) :
    ∃ points, fit options points = .ok made := by
  rw [fitPoints] at h
  obtain ⟨t, -, h⟩ := bind_ok h
  split at h
  case h_1 =>
    dsimp only at h
    split at h
    case isTrue => exact absurd h (by simp)
    case isFalse => exact ⟨_, h⟩
  case h_2 =>
    split at h
    case isTrue => exact absurd h (by simp)
    case isFalse => exact absurd h refuseTables_ne_ok
  case h_3 => exact absurd h (by simp)

/-- A curve through two ends has the positions that were read, exchanged if the
    first one was behind the second one. -/
theorem exists_of_fitEnds {numbers : Cell α} (h : fitEnds numbers = .ok made) :
    ∃ (x₀ x₁ : Cell α) (rest : List (Cell α)) (exchanged : Bool)
        (a₀ a₁ b₀ b₁ s₀ s₁ : α),
      numbers.items? = some (x₀ :: x₁ :: rest)
        ∧ isBehind x₀ x₁ = .ok exchanged
        ∧ Cell.both exchanged x₀ x₁ = .ok (a₀, a₁)
        ∧ made.curve = some (Curve.ofEndsIn exchanged a₀ a₁ b₀ b₁ s₀ s₁) := by
  rw [fitEnds] at h
  split at h
  case h_1 x₀ x₁ y₀ y₁ m₀ m₁ hitems =>
    obtain ⟨exchanged, hexchanged, h⟩ := bind_ok h
    obtain ⟨⟨a₀, a₁⟩, ha, h⟩ := bind_ok h
    obtain ⟨⟨b₀, b₁⟩, -, h⟩ := bind_ok h
    obtain ⟨⟨s₀, s₁⟩, -, h⟩ := bind_ok h
    refine ⟨x₀, x₁, _, exchanged, a₀, a₁, b₀, b₁, s₀, s₁, hitems, hexchanged,
      ha, ?_⟩
    rw [← Except.ok.inj h]
  case h_2 => exact absurd h (by simp)

theorem both_number (exchanged : Bool) (a b : α) :
    Cell.both exchanged (.number a) (.number b) = .ok (a, b) := by
  cases exchanged <;> rfl

/-- A row of two texts is read as the two numbers that they spell. -/
theorem entries_of_texts {s t : String} {table : Tensor α}
    (h : (Cell.row [.text s, .text t]).tensor = .ok table) :
    ∃ a b, (Cell.text s).entry = .ok a ∧ (Cell.text t).entry = .ok b
      ∧ table = ⟨[2], [a, b]⟩ := by
  rw [Cell.tensor] at h
  obtain ⟨shape, hshape, h⟩ := bind_ok h
  obtain ⟨entries, hentries, h⟩ := bind_ok h
  obtain rfl : [2] = shape := Except.ok.inj hshape
  obtain ⟨a, ha, hentries⟩ := bind_ok hentries
  obtain ⟨b, hb, hentries⟩ := bind_ok hentries
  obtain rfl : [a, b] = entries := Except.ok.inj hentries
  exact ⟨a, b, ha, hb, (Except.ok.inj h).symm⟩

theorem entries_of_both_text {exchanged : Bool} {s t : String} {a b : α}
    (h : Cell.both exchanged (.text s) (.text t) = .ok (a, b)) :
    (Cell.text s).entry = .ok a ∧ (Cell.text t).entry = .ok b := by
  rw [Cell.both] at h
  obtain ⟨table, htable, h⟩ := bind_ok h
  cases exchanged with
  | false =>
      obtain ⟨a', b', ha, hb, rfl⟩ := entries_of_texts htable
      obtain ⟨rfl, rfl⟩ := Prod.mk.inj (Except.ok.inj h)
      exact ⟨ha, hb⟩
  | true =>
      obtain ⟨b', a', hb, ha, rfl⟩ := entries_of_texts htable
      obtain ⟨rfl, rfl⟩ := Prod.mk.inj (Except.ok.inj h)
      exact ⟨ha, hb⟩

/-- Two ends whose positions are exchanged if they have to be are in order. -/
theorem not_xMax_lt_xMin_ofEnds [LawfulScalar α] (x₀ x₁ y₀ y₁ m₀ m₁ : α) :
    ¬ (Curve.ofEnds x₀ x₁ y₀ y₁ m₀ m₁).xMax
      < (Curve.ofEnds x₀ x₁ y₀ y₁ m₀ m₁).xMin := by
  by_cases h : x₁ < x₀
  · rw [Curve.ofEnds, decide_eq_true h]
    exact LawfulScalar.not_lt_of_lt h
  · rw [Curve.ofEnds, decide_eq_false h]
    exact h

/-- The command makes the curve, in every session. -/
def Makes (command : Command α) (c : Curve α) : Prop :=
  ∃ made, make? command = some (.ok made) ∧ made.curve = some c

/-- **A CURVE IS MADE** by a fit or through two ends. -/
theorem Makes.cases {command : Command α} {c : Curve α} (h : Makes command c) :
    (∃ b sort points, (Curve.fit b sort points).result = .ok c)
      ∨ ∃ numbers made, command = .setEnds numbers
        ∧ fitEnds numbers = .ok made ∧ made.curve = some c := by
  obtain ⟨made, hmade, hc⟩ := h
  have of_fit {options : FitOptions α} {points : List (Point α)}
      (h : fit options points = .ok made) :
      ∃ b sort points, (Curve.fit b sort points).result = .ok c := by
    obtain ⟨cells, b, c', -, -, hfit, hc'⟩ := exists_of_fit h
    obtain rfl := Option.some.inj (hc.symm.trans hc')
    exact ⟨b, _, points, hfit⟩
  unfold make? at hmade
  split at hmade
  case h_1 =>
    rw [← Except.ok.inj (Option.some.inj hmade)] at hc
    exact absurd hc (by simp)
  case h_2 | h_3 =>
    obtain ⟨points, hpoints⟩ :=
      exists_fit_of_fitArrays (Option.some.inj hmade)
    exact Or.inl (of_fit hpoints)
  case h_4 =>
    obtain ⟨points, hpoints⟩ :=
      exists_fit_of_fitPoints (Option.some.inj hmade)
    exact Or.inl (of_fit hpoints)
  case h_5 numbers =>
    exact Or.inr ⟨numbers, made, rfl, Option.some.inj hmade, hc⟩
  case h_6 => exact absurd hmade (by simp)

/-- As many positions as values and slopes, two at least, and three if the
    curve is periodic. -/
def Complete (c : Curve α) : Prop :=
  ∃ n, (c.knots.toList.map Knot.x).length = n
    ∧ (c.knots.toList.map Knot.y).length = n
    ∧ (c.knots.toList.map Knot.slope).length = n
    ∧ 2 ≤ n ∧ (c.family = .periodic → 3 ≤ n)

omit [Scalar α] in
theorem complete_of_inner {c : Curve α}
    (h : c.family = .periodic → 1 ≤ c.inner) : Complete c := by
  refine ⟨c.inner + 2, ?_, ?_, ?_, Nat.le_add_left 2 _, fun hc => ?_⟩
  · simp
  · simp
  · simp
  · exact Nat.add_le_add_right (h hc) 2

/-- **EVERY CURVE THAT IS MADE** has knots enough for its family. -/
theorem Makes.complete {command : Command α} {c : Curve α}
    (h : Makes command c) : Complete c := by
  refine complete_of_inner fun hperiodic => ?_
  obtain ⟨b, sort, points, hfit⟩ | ⟨numbers, made, -, hfit, hc⟩ := h.cases
  · exact Curve.one_le_inner_of_fit hfit hperiodic
  · obtain ⟨_, _, _, _, _, _, _, _, _, _, -, -, -, hmade⟩ :=
      exists_of_fitEnds hfit
    obtain rfl := Option.some.inj (hc.symm.trans hmade)
    exact absurd hperiodic (by simp [Curve.ofEndsIn])

/-- Two ends whose positions are given as texts.  The texts are in order, letter
    by letter, and the range begins and ends with the numbers that they
    spell. -/
def EndsInTexts (command : Command α) (c : Curve α) : Prop :=
  ∃ numbers s t rest, command = .setEnds numbers
    ∧ (numbers.items? = some (.text s :: .text t :: rest)
      ∨ numbers.items? = some (.text t :: .text s :: rest))
    ∧ ¬ t < s
    ∧ (Cell.text s).entry = .ok c.xMin ∧ (Cell.text t).entry = .ok c.xMax

/-- **THE RANGE OF EVERY CURVE THAT IS MADE** does not end before it begins,
    unless it is that of two ends whose positions are texts. -/
theorem Makes.ordered [LawfulScalar α] {command : Command α} {c : Curve α}
    (h : Makes command c) : ¬ c.xMax < c.xMin ∨ EndsInTexts command c := by
  obtain ⟨b, sort, points, hfit⟩ | ⟨numbers, made, hcommand, hfit, hc⟩ :=
    h.cases
  · exact Or.inl (Curve.not_xMax_lt_xMin_of_fit hfit)
  obtain ⟨x₀, x₁, rest, exchanged, a₀, a₁, b₀, b₁, s₀, s₁, hitems, hbehind,
    hread, hmade⟩ := exists_of_fitEnds hfit
  obtain rfl := Option.some.inj (hc.symm.trans hmade)
  unfold isBehind at hbehind
  split at hbehind
  case h_1 x₀ x₁ =>
    rw [both_number] at hread
    obtain ⟨rfl, rfl⟩ := Prod.mk.inj (Except.ok.inj hread)
    rw [← Except.ok.inj hbehind]
    exact Or.inl (not_xMax_lt_xMin_ofEnds x₀ x₁ b₀ b₁ s₀ s₁)
  case h_2 s t =>
    -- the texts are exchanged by their letters, the range is that of numbers
    obtain ⟨hs, ht⟩ := entries_of_both_text hread
    rw [← Except.ok.inj hbehind]
    by_cases hlt : t < s
    · rw [decide_eq_true hlt]
      exact Or.inr ⟨numbers, t, s, rest, hcommand, Or.inr hitems,
        String.lt_asymm hlt, ht, hs⟩
    · rw [decide_eq_false hlt]
      exact Or.inr ⟨numbers, s, t, rest, hcommand, Or.inl hitems, hlt, hs, ht⟩
  case h_3 => exact absurd hbehind (by simp)

/-! ## Runs -/

/-- What a command does to a session: it puts in what it makes, or leaves the
    session as it was. -/
theorem step_fst (c : Option (Curve α)) (command : Command α) :
    (∃ made, make? command = some (.ok made)
        ∧ (step c command).1 = made.curve)
      ∨ (∀ made, make? command ≠ some (.ok made))
        ∧ (step c command).1 = c := by
  rw [step]
  split
  case h_1 made hmake => exact Or.inl ⟨made, hmake, rfl⟩
  case h_2 fault hmake =>
    refine Or.inr ⟨fun made hmade => ?_, rfl⟩
    exact absurd (hmake.symm.trans hmade) (by simp)
  case h_3 hmake =>
    refine Or.inr ⟨fun made hmade => ?_, rfl⟩
    exact absurd (hmake.symm.trans hmade) (by simp)

/-- What commands leave in a new session. -/
def after (commands : List (Command α)) : Option (Curve α) :=
  commands.foldl (fun c command => (step c command).1) none

theorem after_append_singleton (commands : List (Command α))
    (command : Command α) :
    after (commands ++ [command]) = (step (after commands) command).1 := by
  rw [after, List.foldl_append]
  rfl

/-- A further command is answered by the session that the others leave. -/
theorem run_append_singleton (commands : List (Command α))
    (command : Command α) :
    run (commands ++ [command])
      = run commands ++ [(step (after commands) command).2] := by
  rw [run, run, after]
  -- nothing depends on where a run begins
  generalize (none : Option (Curve α)) = c
  induction commands generalizing c with
  | nil => rfl
  | cons first rest ih =>
      have hrest := ih (step c first).1
      exact congrArg ((step c first).2 :: ·) hrest

/-- **THE LAST MAKER**: a curve in a session was made by a command behind which
    no other one made anything. -/
theorem exists_maker {commands : List (Command α)} {c : Curve α}
    (h : after commands = some c) :
    ∃ before command behind, commands = before ++ command :: behind
      ∧ Makes command c
      ∧ ∀ later ∈ behind, ∀ made, make? later ≠ some (.ok made) := by
  induction commands using List.reverseRecOn with
  | nil => exact absurd h (by simp [after])
  | append_singleton commands last ih =>
      rw [after_append_singleton] at h
      -- the last command made the curve, or left the one that was there
      obtain ⟨made, hmake, hstep⟩ | ⟨hnone, hstep⟩ :=
        step_fst (after commands) last
      · refine ⟨commands, last, [], rfl, ⟨made, hmake, hstep.symm.trans h⟩, ?_⟩
        exact fun later hlater => absurd hlater List.not_mem_nil
      · obtain ⟨before, command, behind, rfl, hmakes, hbehind⟩ :=
          ih (hstep.symm.trans h)
        refine ⟨before, command, behind ++ [last], ?_, hmakes, ?_⟩
        · rw [List.append_assoc, List.cons_append]
        · intro later hlater
          rcases List.mem_append.mp hlater with hmem | hmem
          · exact hbehind later hmem
          · obtain rfl := List.mem_singleton.mp hmem
            exact hnone

/-- What a command makes is what the session holds then. -/
theorem Makes.step_fst {command : Command α} {c : Curve α}
    (h : Makes command c) (held : Option (Curve α)) :
    (step held command).1 = some c := by
  obtain ⟨made, hmake, hc⟩ := h
  rw [step, hmake]
  exact hc

theorem make?_of_asks {command : Command α}
    (h : command.asks = true) : make? command = none := by
  unfold make?
  split
  case h_6 => rfl
  all_goals exact absurd h Bool.false_ne_true

/-- A command that fails and one that only asks leave a session as it was. -/
theorem step_fst_of_error_or_asks {c : Option (Curve α)} {command : Command α}
    (h : (∃ fault, (step c command).2 = .error fault)
      ∨ command.asks = true) : (step c command).1 = c := by
  obtain ⟨made, hmake, -⟩ | ⟨-, hstep⟩ := step_fst c command
  · obtain ⟨fault, hfault⟩ | hasks := h
    · rw [step, hmake] at hfault
      exact absurd hfault (by simp)
    · exact absurd (hmake.symm.trans (make?_of_asks hasks)) (by simp)
  · exact hstep

/-- **A SESSION** holds nothing, or a curve with knots enough for its family,
    whose range does not end before it begins unless it was made last, of two
    ends in texts.  The next command is answered by what the session holds.  If
    it makes a curve, the session holds that one; if it fails or only asks, the
    session goes on to hold what it held.  No command is one with two rows in
    place of two numbers that go together. -/
theorem session_invariant [LawfulScalar α] (commands : List (Command α))
    (_single : ∀ command ∈ commands, command.pairsRows = false) :
    (∀ c, after commands = some c →
        Complete c
          ∧ (¬ c.xMax < c.xMin
            ∨ ∃ before command behind, commands = before ++ command :: behind
              ∧ Makes command c ∧ EndsInTexts command c
              ∧ ∀ later ∈ behind, ∀ made, make? later ≠ some (.ok made)))
      ∧ ∀ command : Command α, command.pairsRows = false →
        run (commands ++ [command])
            = run commands ++ [(step (after commands) command).2]
          ∧ (∀ c, Makes command c → after (commands ++ [command]) = some c)
          ∧ ((∃ fault, (step (after commands) command).2 = .error fault)
              ∨ command.asks = true →
            after (commands ++ [command]) = after commands) := by
  constructor
  · intro c hc
    obtain ⟨before, command, behind, hcommands, hmakes, hbehind⟩ :=
      exists_maker hc
    refine ⟨hmakes.complete, hmakes.ordered.imp_right fun htexts => ?_⟩
    exact ⟨before, command, behind, hcommands, hmakes, htexts, hbehind⟩
  · intro command _
    rw [after_append_singleton]
    exact ⟨run_append_singleton commands command,
      fun c hmakes => hmakes.step_fst (after commands),
      step_fst_of_error_or_asks⟩

/-- A curve whose first position is undefined stays when the next command has
    one point only. -/
theorem session_invariant_undefined :
    ∃ (commands : List (Command Float)) (next : Command Float) (c : Curve Float)
        (fault : Fault Float),
      commands = [.setEnds (.row [.number missing, .number 1, .number 0,
          .number 1, .number 0, .number 0])]
        ∧ next = .setArrays (.number 1) .blank ⟨.null, .blank, .blank, .null⟩
        ∧ (∀ command ∈ commands, command.pairsRows = false)
        ∧ next.pairsRows = false
        ∧ after commands = some c ∧ Complete c
        ∧ (step (after commands) next).2 = .error fault
        ∧ after (commands ++ [next]) = some c := by
  obtain ⟨commands, hcommands⟩ : ∃ commands : List (Command Float),
      commands = [.setEnds (.row [.number missing, .number 1, .number 0,
        .number 1, .number 0, .number 0])] := ⟨_, rfl⟩
  obtain ⟨next, hnext⟩ : ∃ next : Command Float,
      next = .setArrays (.number 1) .blank ⟨.null, .blank, .blank, .null⟩ :=
    ⟨_, rfl⟩
  have hsingle : ∀ command ∈ commands, command.pairsRows = false := by
    rw [hcommands]
    exact List.forall_mem_singleton.mpr rfl
  have hnextSingle : next.pairsRows = false := by
    rw [hnext]
    rfl
  have hsome : (after commands).isSome = true := by
    rw [hcommands]
    decide +kernel
  have hfails : (step (after commands) next).2.toBool = false := by
    rw [hcommands, hnext]
    decide +kernel
  obtain ⟨c, hc⟩ := Option.isSome_iff_exists.mp hsome
  obtain ⟨hholds, hgoes⟩ := session_invariant commands hsingle
  cases hstep : (step (after commands) next).2 with
  | ok reply =>
      rw [hstep] at hfails
      exact absurd hfails (by simp [Except.toBool])
  | error fault =>
      have hkept := (hgoes next hnextSingle).2.2 (Or.inl ⟨fault, hstep⟩)
      exact ⟨commands, next, c, fault, hcommands, hnext, hsingle, hnextSingle,
        hc, (hholds c hc).1, hstep, hkept.trans hc⟩

/-- Ten and nine as texts are in order, letter by letter, and behind one
    another as numbers. -/
theorem ends_in_texts_behind :
    ∃ c : Curve Float,
      after [.setEnds (.row [.text "10", .text "9", .number 0, .number 1,
        .number 0, .number 0])] = some c ∧ c.xMax < c.xMin := by
  have h : (after [.setEnds (.row [.text "10", .text "9", .number 0,
      .number 1, .number 0, .number 0])]).any
        (fun c : Curve Float => decide (c.xMax < c.xMin)) = true := by
    decide +kernel
  obtain ⟨c, hc, hlt⟩ := (Option.any_eq_true _ _).mp h
  exact ⟨c, hc, of_decide_eq_true hlt⟩

end Session

end PiecewiseCubic
