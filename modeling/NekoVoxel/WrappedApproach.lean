import NekoVoxel.Types
import Mathlib.Algebra.Order.Floor
import Mathlib.Logic.Function.Iterate

/-!
`wrappedApproachShortest`: one step of `current` toward `target` on a circle of length
`maximum`. The template is taken over any ordered ring with its own `/`, so `Int` (where
`maximum / 2` truncates) and `ℚ` are both instances. The run theory is over `ℚ`: the
shorter-arc distance drops by `stepsize` at every step until the target is set. For an even
`maximum` the `Int` step is the rational step, so the run theory carries over to `Int`; for
C++ `int`, `wrappedApproachShortestInt` makes signed overflow undefined, and with
`maximum ≤ 2^30` no call of a run overflows.
-/
namespace NekoVoxel

def wrappedApproachShortest {T : Type} [LinearOrderedRing T] [Div T]
    (current target stepsize maximum : T) : T :=
  let delta := target - current
  let delta := if delta < 0 then delta + maximum else delta
  if delta > stepsize ∧ maximum - delta > stepsize then
    let current := current + if delta < maximum / 2 then stepsize else -stepsize
    if current ≥ maximum then current - maximum else current
  else target

/-- The template at `T = int`: every operation is undefined (`none`) on signed overflow, and
    `/` truncates toward zero. -/
def wrappedApproachShortestInt (current target stepsize maximum : Int) : Option Int := do
  let delta ← checkedS32 (target - current)
  let delta ← (if delta < 0 then checkedS32 (delta + maximum) else pure delta)
  let room ← checkedS32 (maximum - delta)
  if delta > stepsize ∧ room > stepsize then
    let step ← (if delta < maximum.tdiv 2 then pure stepsize else checkedS32 (-stepsize))
    let current ← checkedS32 (current + step)
    if current ≥ maximum then checkedS32 (current - maximum) else pure current
  else pure target

def wrapMod (x m : ℚ) : ℚ := x - m * ⌊x / m⌋

/-- The length of the shorter of the two arcs between `current` and `target`. -/
def arcDistance (current target maximum : ℚ) : ℚ :=
  min (wrapMod (target - current) maximum) (wrapMod (current - target) maximum)

/-- The `delta` the code computes: `target - current`, lifted by `maximum` when negative. -/
def approachDelta (current target maximum : ℚ) : ℚ :=
  if target - current < 0 then target - current + maximum else target - current

/-- The states a run visits: below `maximum`, and less than a turn behind `target`. -/
structure Approaching (target maximum current : ℚ) : Prop where
  below : current < maximum
  behind : target - current < maximum

def approach (target stepsize maximum : ℚ) (n : Nat) (current : ℚ) : ℚ :=
  (wrappedApproachShortest · target stepsize maximum)^[n] current

theorem approach_succ (target stepsize maximum : ℚ) (n : Nat) (c : ℚ) :
    approach target stepsize maximum (n + 1) c =
      approach target stepsize maximum n (wrappedApproachShortest c target stepsize maximum) :=
  Function.iterate_succ_apply _ n c

theorem approach_succ' (target stepsize maximum : ℚ) (n : Nat) (c : ℚ) :
    approach target stepsize maximum (n + 1) c =
      wrappedApproachShortest (approach target stepsize maximum n c) target stepsize maximum :=
  Function.iterate_succ_apply' _ n c

theorem wrapMod_eq {x m : ℚ} (positive : 0 < m) (k : Int) (low : k * m ≤ x) (high : x < k * m + m) :
    wrapMod x m = x - m * k := by
  have floor : ⌊x / m⌋ = k := by
    rw [Int.floor_eq_iff, le_div_iff₀ positive, div_lt_iff₀ positive]
    constructor <;> linarith
  rw [wrapMod, floor]

theorem wrapMod_of_mem {x m : ℚ} (low : 0 ≤ x) (high : x < m) : wrapMod x m = x := by
  have := wrapMod_eq (by linarith : 0 < m) 0 (by simpa using low) (by simpa using high)
  simpa using this

theorem wrapMod_of_neg {x m : ℚ} (low : -m ≤ x) (high : x < 0) : wrapMod x m = x + m := by
  have positive : 0 < m := by linarith
  have := wrapMod_eq positive (-1) (by simpa using low) (by simpa using high)
  simpa using this

section Run
variable {target stepsize maximum : ℚ} (targetRange : 0 ≤ target ∧ target < maximum)
include targetRange

theorem approachDelta_range {c : ℚ} (state : Approaching target maximum c) :
    0 ≤ approachDelta c target maximum ∧ approachDelta c target maximum < maximum := by
  have := state.below
  have := state.behind
  unfold approachDelta
  split_ifs <;> constructor <;> linarith

theorem approachDelta_eq_zero {c : ℚ} (state : Approaching target maximum c)
    (zero : approachDelta c target maximum = 0) : c = target := by
  have := state.below
  unfold approachDelta at zero
  split_ifs at zero <;> linarith

theorem arcDistance_eq {c : ℚ} (state : Approaching target maximum c) :
    arcDistance c target maximum =
      min (approachDelta c target maximum) (maximum - approachDelta c target maximum) := by
  have positive : 0 < maximum := by linarith [targetRange.1]
  have := state.below
  have := state.behind
  by_cases same : c = target
  · subst same
    simp [arcDistance, approachDelta, wrapMod, positive.le]
  have := targetRange.1
  unfold arcDistance approachDelta
  split_ifs with behind
  · rw [wrapMod_of_neg (by linarith) behind, wrapMod_of_mem (by linarith) (by linarith)]
    congr 1
    ring
  · have ahead : 0 < target - c := lt_of_le_of_ne (not_lt.mp behind) (fun h => same (by linarith))
    rw [wrapMod_of_mem ahead.le (by linarith), wrapMod_of_neg (by linarith) (by linarith)]
    congr 1
    ring

theorem forward_step (stepPos : 0 < stepsize) {c : ℚ} (state : Approaching target maximum c)
    (far : stepsize < approachDelta c target maximum)
    (room : stepsize < maximum - approachDelta c target maximum) :
    let next := if c + stepsize ≥ maximum then c + stepsize - maximum else c + stepsize
    Approaching target maximum next ∧
      approachDelta next target maximum = approachDelta c target maximum - stepsize := by
  have := state.below
  have := state.behind
  have := targetRange.1
  have := targetRange.2
  simp only [approachDelta] at far room ⊢
  split_ifs at far room ⊢ <;> refine ⟨⟨?_, ?_⟩, ?_⟩ <;> linarith

theorem backward_step (stepPos : 0 < stepsize) {c : ℚ} (state : Approaching target maximum c)
    (far : stepsize < approachDelta c target maximum)
    (room : stepsize < maximum - approachDelta c target maximum) :
    Approaching target maximum (c + -stepsize) ∧
      approachDelta (c + -stepsize) target maximum = approachDelta c target maximum + stepsize := by
  have := state.below
  have := state.behind
  have := targetRange.1
  simp only [approachDelta] at far room ⊢
  split_ifs at far room ⊢ <;> refine ⟨⟨?_, ?_⟩, ?_⟩ <;> linarith

omit targetRange in
theorem wrappedApproachShortest_eq (c : ℚ) :
    wrappedApproachShortest c target stepsize maximum =
      let delta := approachDelta c target maximum
      if delta > stepsize ∧ maximum - delta > stepsize then
        let current := c + if delta < maximum / 2 then stepsize else -stepsize
        if current ≥ maximum then current - maximum else current
      else target := rfl

theorem approach_step (stepPos : 0 < stepsize) {c : ℚ} (state : Approaching target maximum c) :
    (wrappedApproachShortest c target stepsize maximum = target ∧
        arcDistance c target maximum ≤ stepsize) ∨
      (stepsize < arcDistance c target maximum ∧
        Approaching target maximum (wrappedApproachShortest c target stepsize maximum) ∧
        arcDistance (wrappedApproachShortest c target stepsize maximum) target maximum =
          arcDistance c target maximum - stepsize) := by
  have arc := arcDistance_eq targetRange state
  rw [wrappedApproachShortest_eq]
  dsimp only
  by_cases move : approachDelta c target maximum > stepsize ∧
      maximum - approachDelta c target maximum > stepsize
  · have shorter : stepsize < arcDistance c target maximum := by
      rw [arc]
      exact lt_min move.1 move.2
    rw [if_pos move]
    by_cases forward : approachDelta c target maximum < maximum / 2
    · have ⟨next, delta⟩ := forward_step targetRange stepPos state move.1 move.2
      rw [if_pos forward]
      refine .inr ⟨shorter, next, ?_⟩
      rw [arcDistance_eq targetRange next, delta, arc, min_eq_left (by linarith),
        min_eq_left (by linarith)]
    · have ⟨next, delta⟩ := backward_step targetRange stepPos state move.1 move.2
      rw [if_neg forward, if_neg (by linarith [state.below])]
      refine .inr ⟨shorter, next, ?_⟩
      rw [arcDistance_eq targetRange next, delta, arc, min_eq_right (by linarith),
        min_eq_right (by linarith)]
      ring
  · rw [if_neg move]
    refine .inl ⟨rfl, ?_⟩
    rw [arc]
    by_cases close : approachDelta c target maximum ≤ stepsize
    · exact (min_le_left _ _).trans close
    · have far := not_and.mp move (lt_of_not_le close)
      exact (min_le_right _ _).trans (by linarith)

omit targetRange in
theorem wrappedApproachShortest_target (stepPos : 0 < stepsize) :
    wrappedApproachShortest target target stepsize maximum = target := by
  rw [wrappedApproachShortest_eq, approachDelta, sub_self, if_neg (lt_irrefl 0)]
  exact if_neg fun move => absurd move.1 (not_lt.mpr stepPos.le)

theorem approaching_target : Approaching target maximum target :=
  ⟨targetRange.2, by linarith [targetRange.1, targetRange.2]⟩

theorem approaching_of_range {c : ℚ} (start : 0 ≤ c ∧ c < maximum) : Approaching target maximum c :=
  ⟨start.2, by linarith [targetRange.2, start.1]⟩

theorem approach_stays (stepPos : 0 < stepsize) (n : Nat) :
    ∀ {c : ℚ}, Approaching target maximum c →
      Approaching target maximum (approach target stepsize maximum n c) := by
  induction n with
  | zero => exact id
  | succ n ih =>
    intro c state
    rw [approach_succ]
    rcases approach_step targetRange stepPos state with ⟨reached, -⟩ | ⟨-, next, -⟩
    · rw [reached]
      exact ih (approaching_target targetRange)
    · exact ih next

theorem approach_reaches (stepPos : 0 < stepsize) (n : Nat) :
    ∀ {c : ℚ}, Approaching target maximum c → arcDistance c target maximum ≤ n * stepsize →
      approach target stepsize maximum n c = target := by
  induction n with
  | zero =>
    intro c state close
    have arc := arcDistance_eq targetRange state
    have range := approachDelta_range targetRange state
    have zero : approachDelta c target maximum = 0 := by
      rw [arc, Nat.cast_zero, zero_mul] at close
      rcases min_le_iff.mp close with low | low <;> linarith
    exact approachDelta_eq_zero targetRange state zero
  | succ n ih =>
    intro c state close
    rw [approach_succ]
    rcases approach_step targetRange stepPos state with ⟨reached, -⟩ | ⟨-, next, shorter⟩
    · rw [reached]
      exact Function.iterate_fixed (f := (wrappedApproachShortest · target stepsize maximum))
        (wrappedApproachShortest_target stepPos) n
    · rw [Nat.cast_succ, add_mul, one_mul] at close
      exact ih next (by rw [shorter]; linarith)

theorem approach_shortens (stepPos : 0 < stepsize) {c : ℚ} (state : Approaching target maximum c)
    (n : Nat) (moved : approach target stepsize maximum (n + 1) c ≠ target) :
    arcDistance (approach target stepsize maximum (n + 1) c) target maximum =
      arcDistance (approach target stepsize maximum n c) target maximum - stepsize := by
  have visited := approach_stays targetRange stepPos n state
  rw [approach_succ'] at moved ⊢
  rcases approach_step targetRange stepPos visited with ⟨reached, -⟩ | ⟨-, -, shorter⟩
  · exact absurd reached moved
  · exact shorter

end Run

/-- Over exact rationals, a run from any `current` in `[0, maximum)` sets the target within
    `⌈D / stepsize⌉` calls, `D` the initial shorter-arc distance, and stays there; each call
    that does not set it shortens the shorter arc by exactly `stepsize`, while `current` stays
    in `(target - maximum, maximum)`. -/
theorem wrappedApproach_converges {current target stepsize maximum : ℚ}
    (stepPos : 0 < stepsize) (targetRange : 0 ≤ target ∧ target < maximum)
    (start : 0 ≤ current ∧ current < maximum) :
    (∀ n, ⌈arcDistance current target maximum / stepsize⌉₊ ≤ n →
      approach target stepsize maximum n current = target) ∧
    (∀ n, approach target stepsize maximum (n + 1) current ≠ target →
      arcDistance (approach target stepsize maximum (n + 1) current) target maximum =
        arcDistance (approach target stepsize maximum n current) target maximum - stepsize) ∧
    (∀ n, target - maximum < approach target stepsize maximum n current ∧
      approach target stepsize maximum n current < maximum) := by
  have state := approaching_of_range targetRange start
  refine ⟨fun n enough => approach_reaches targetRange stepPos n state ?_,
    approach_shortens targetRange stepPos state, fun n => ?_⟩
  · exact (div_le_iff₀ stepPos).mp ((Nat.le_ceil _).trans (Nat.cast_le.mpr enough))
  · have visited := approach_stays targetRange stepPos n state
    exact ⟨by linarith [visited.behind], visited.below⟩

theorem wrappedApproach_from_one : approach 90 5 100 3 1 = 90 :=
  (@wrappedApproach_converges 1 90 5 100 (by norm_num) (by norm_num) (by norm_num)).1 3
    (Nat.ceil_le.mpr (by
      rw [arcDistance, wrapMod_of_neg (x := 1 - 90) (m := 100) (by norm_num) (by norm_num)]
      exact (div_le_div_of_nonneg_right (min_le_right _ _) (by norm_num)).trans (by norm_num)))

theorem wrappedApproachShortest_intCast {c t s m : Int} (even : 2 ∣ m) :
    ((wrappedApproachShortest c t s m : Int) : ℚ) = wrappedApproachShortest (c : ℚ) t s m := by
  have half : ((m / 2 : Int) : ℚ) = (m : ℚ) / 2 := Int.cast_div even (by norm_num)
  unfold wrappedApproachShortest
  simp only [← half, ← Int.cast_ite, ← Int.cast_sub, ← Int.cast_add, ← Int.cast_neg,
    Int.cast_lt_zero, Int.cast_lt, Int.cast_le, gt_iff_lt, ge_iff_le]

theorem approach_intCast {t s m : Int} (even : 2 ∣ m) (n : Nat) (c : Int) :
    (((wrappedApproachShortest · t s m)^[n] c : Int) : ℚ) = approach t s m n c := by
  have step : Function.Semiconj (Int.cast : Int → ℚ) (wrappedApproachShortest · t s m)
      (wrappedApproachShortest · (t : ℚ) s m) := fun x => @wrappedApproachShortest_intCast x t s m even
  exact step.iterate_right n c

/-- With `maximum ≤ 2^30`, no operation of the `int` step overflows on the states a run visits. -/
theorem wrappedApproachShortestInt_eq {c t s m : Int} (stepPos : 0 < s) (small : m ≤ 2^30)
    (targetRange : 0 ≤ t ∧ t < m) (state : t - m < c ∧ c < m) :
    wrappedApproachShortestInt c t s m = some (wrappedApproachShortest c t s m) := by
  have half : m.tdiv 2 = m / 2 := Int.tdiv_eq_ediv (by omega) (by norm_num)
  have lifted : (if t - c < 0 then checkedS32 (t - c + m) else pure (t - c)) =
      some (if t - c < 0 then t - c + m else t - c) := by
    split_ifs
    · exact checkedS32_of_inS32 (by unfold InS32; omega)
    · rfl
  simp only [wrappedApproachShortestInt, wrappedApproachShortest, Option.bind_eq_bind,
    checkedS32_of_inS32 (show InS32 (t - c) by unfold InS32; omega), Option.some_bind, lifted, half]
  generalize hd : (if t - c < 0 then t - c + m else t - c) = d
  have range : 0 ≤ d ∧ d < m := by split_ifs at hd <;> omega
  rw [checkedS32_of_inS32 (show InS32 (m - d) by unfold InS32; omega), Option.some_bind]
  by_cases move : d > s ∧ m - d > s
  · have step : (if d < m / 2 then pure s else checkedS32 (-s)) =
        some (if d < m / 2 then s else -s) := by
      split_ifs
      · rfl
      · exact checkedS32_of_inS32 (by unfold InS32; omega)
    rw [if_pos move, if_pos move, step, Option.some_bind,
      checkedS32_of_inS32 (by unfold InS32; split_ifs <;> omega), Option.some_bind]
    split_ifs <;> first | rfl | exact checkedS32_of_inS32 (by unfold InS32; omega)
  · rw [if_neg move, if_neg move]
    rfl

/-- For C++ `int`, an even `maximum ≤ 2^30` and `current`, `target` in `[0, maximum)`: no
    call of the run overflows, the `int` step is the rational step on the same values, each call
    that does not set the target shortens the shorter arc by `stepsize`, and the target is set
    within `⌈D / stepsize⌉` calls. -/
theorem wrappedApproach_int_even_converges {current target stepsize maximum : Int}
    (even : 2 ∣ maximum) (small : maximum ≤ 2^30) (stepPos : 0 < stepsize)
    (targetRange : 0 ≤ target ∧ target < maximum) (start : 0 ≤ current ∧ current < maximum) :
    let run := fun n : Nat => (wrappedApproachShortest · target stepsize maximum)^[n] current
    (∀ n, wrappedApproachShortestInt (run n) target stepsize maximum = some (run (n + 1))) ∧
    (∀ c : Int, ((wrappedApproachShortest c target stepsize maximum : Int) : ℚ) =
      wrappedApproachShortest (c : ℚ) target stepsize maximum) ∧
    (∀ n, run (n + 1) ≠ target →
      arcDistance (run (n + 1)) target maximum = arcDistance (run n) target maximum - stepsize) ∧
    (∀ n, ⌈arcDistance current target maximum / stepsize⌉₊ ≤ n → run n = target) := by
  intro run
  have stepPos' : (0 : ℚ) < stepsize := Int.cast_pos.mpr stepPos
  have targetRange' : (0 : ℚ) ≤ target ∧ (target : ℚ) < maximum := by exact_mod_cast targetRange
  have state : Approaching (target : ℚ) maximum current :=
    approaching_of_range targetRange' (by exact_mod_cast start)
  have cast (n : Nat) : (run n : ℚ) = approach target stepsize maximum n current :=
    approach_intCast even n current
  refine ⟨fun n => ?_, fun c => wrappedApproachShortest_intCast even, fun n moved => ?_,
    fun n enough => ?_⟩
  · have visited := approach_stays targetRange' stepPos' n state
    rw [← cast n] at visited
    have below : run n < maximum := by exact_mod_cast visited.below
    have behind : target - run n < maximum := by exact_mod_cast visited.behind
    rw [wrappedApproachShortestInt_eq stepPos small targetRange ⟨by omega, below⟩]
    exact congrArg some
      (Function.iterate_succ_apply' (wrappedApproachShortest · target stepsize maximum) n current).symm
  · rw [cast, cast]
    refine approach_shortens targetRange' stepPos' state n fun reached => moved ?_
    exact_mod_cast (cast (n + 1)).trans reached
  · apply Int.cast_injective (α := ℚ)
    rw [cast]
    exact approach_reaches targetRange' stepPos' n state
      ((div_le_iff₀ stepPos').mp ((Nat.le_ceil _).trans (Nat.cast_le.mpr enough)))

theorem wrappedApproach_int_zero_to_three :
    (wrappedApproachShortest · (3 : Int) 1 8)^[3] 0 = 3 :=
  (@wrappedApproach_int_even_converges 0 3 1 8 (by decide) (by norm_num) (by decide) (by decide)
    (by decide)).2.2.2 3 (Nat.ceil_le.mpr (by
      rw [arcDistance]
      norm_num [wrapMod_of_mem (x := 3) (m := 8) (by norm_num) (by norm_num)]))

/-- `current` leaves `[0, maximum)`: a step back from `1` toward `90` on a circle of `100`
    goes to `-4`, and only `current >= maximum` is wrapped. -/
theorem wrappedApproachShortest_leaves_range :
    wrappedApproachShortest (1 : Int) 90 5 100 = -4 := by decide

/-- With `Int` and an odd `maximum`, `maximum / 2` truncates: from `0` toward `3` on a
    circle of `7` the forward arc (3) is shorter, yet the step goes back to `-1`, and three
    calls (`⌈3 / 1⌉`) leave `current` at `-3`. -/
theorem wrappedApproachShortest_int_long_way :
    wrappedApproachShortest (0 : Int) 3 1 7 = -1 ∧
      (wrappedApproachShortest · (3 : Int) 1 7)^[3] 0 = -3 := by decide

end NekoVoxel
