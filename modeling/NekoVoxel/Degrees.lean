import NekoVoxel.Types

/-!
`modulo360f` and the angle wrappers built on it, and `cycle_shift`. The conversion `whole = f` of the
magnitude is undefined (`none`) outside the `int` range; floats are exact rationals.
-/
namespace NekoVoxel

def modulo360f (f : ℚ) : Option ℚ := do
  let (f, sign) : ℚ × Int := if f < 0 then (-f, -1) else (f, 1)
  let whole ← convertToInt 32 f
  let fraction := f - whole
  let whole := whole.tmod 360
  pure (sign * (whole + fraction))

def wrapDegrees_0_360 (f : ℚ) : Option ℚ := do
  let value ← modulo360f f
  pure (if value < 0 then value + 360 else value)

def wrapDegrees_0_360_v3f (v : V3 ℚ) : Option (V3 ℚ) := do
  let x ← modulo360f v.X
  let y ← modulo360f v.Y
  let z ← modulo360f v.Z
  let value_v3f : V3 ℚ := ⟨x, y, z⟩
  pure ⟨if value_v3f.X < 0 then value_v3f.X + 360 else value_v3f.X,
    if value_v3f.Y < 0 then value_v3f.Y + 360 else value_v3f.Y,
    if value_v3f.Z < 0 then value_v3f.Z + 360 else value_v3f.Z⟩

def wrapDegrees_180 (f : ℚ) : Option ℚ := do
  let value ← modulo360f (f + 180)
  let value := if value < 0 then value + 360 else value
  pure (value - 180)

/-- C's `fmod (f, 360)`: the remainder of the quotient truncated toward zero. -/
def fmod360 (f : ℚ) : ℚ := f - 360 * truncToInt (f / 360)

theorem tmod_add_fraction {g : ℚ} (nonneg : 0 ≤ g) :
    ((⌊g⌋.tmod 360 : Int) : ℚ) + (g - ⌊g⌋) = g - 360 * ⌊g / 360⌋ := by
  have whole : 0 ≤ ⌊g⌋ := Int.floor_nonneg.mpr nonneg
  have quot : ⌊g / 360⌋ = ⌊g⌋ / 360 := by
    rw [Int.floor_eq_iff, le_div_iff₀ (by norm_num), div_lt_iff₀ (by norm_num)]
    have low : ((⌊g⌋ / 360 : Int) : ℚ) * 360 ≤ ⌊g⌋ := by
      exact_mod_cast Int.ediv_mul_le ⌊g⌋ (by norm_num)
    have high : (⌊g⌋ : ℚ) + 1 ≤ ((⌊g⌋ / 360 : Int) + 1) * 360 := by
      exact_mod_cast Int.add_one_le_iff.mpr (Int.lt_ediv_add_one_mul_self ⌊g⌋ (by norm_num))
    have := Int.floor_le g
    have := Int.lt_floor_add_one g
    constructor <;> linarith
  rw [Int.tmod_eq_emod whole (by norm_num), quot, Int.emod_def]
  push_cast
  ring

theorem modulo360f_of_nonneg {f : ℚ} (nonneg : 0 ≤ f) (range : f < 2^31) :
    modulo360f f = some (f - 360 * ⌊f / 360⌋) := by
  simp only [modulo360f, if_neg (not_lt.mpr nonneg),
    @convertToInt_of_abs_lt 32 f (by rwa [abs_of_nonneg nonneg]), truncToInt_of_nonneg nonneg,
    Option.bind_eq_bind, Option.some_bind, Option.pure_def, Int.cast_one, one_mul,
    tmod_add_fraction nonneg]

theorem modulo360f_of_neg {f : ℚ} (neg : f < 0) (range : -f < 2^31) :
    modulo360f f = some (f + 360 * ⌊-f / 360⌋) := by
  have nonneg : 0 ≤ -f := by linarith
  simp only [modulo360f, if_pos neg,
    @convertToInt_of_abs_lt 32 (-f) (by rwa [abs_of_nonneg nonneg]), truncToInt_of_nonneg nonneg,
    Option.bind_eq_bind, Option.some_bind, Option.pure_def, Int.cast_neg, Int.cast_one,
    neg_one_mul, tmod_add_fraction nonneg]
  congr 1
  ring

theorem modulo360f_eq {f : ℚ} (range : |f| < 2^31) : modulo360f f = some (fmod360 f) := by
  by_cases sign : 0 ≤ f
  · rw [modulo360f_of_nonneg sign (by rwa [abs_of_nonneg sign] at range), fmod360,
      truncToInt_of_nonneg (div_nonneg sign (by norm_num))]
  · have neg := lt_of_not_le sign
    rw [modulo360f_of_neg neg (by rwa [abs_of_neg neg] at range), fmod360,
      truncToInt_of_neg (div_neg_of_neg_of_pos neg (by norm_num)), neg_div, Int.floor_neg]
    push_cast
    congr 1
    ring

theorem fmod360_bounds (f : ℚ) : -360 < fmod360 f ∧ fmod360 f < 360 := by
  unfold fmod360
  by_cases sign : 0 ≤ f
  · rw [truncToInt_of_nonneg (div_nonneg sign (by norm_num))]
    have := Int.floor_le (f / 360)
    have := Int.lt_floor_add_one (f / 360)
    constructor <;> linarith
  · rw [truncToInt_of_neg (div_neg_of_neg_of_pos (lt_of_not_le sign) (by norm_num))]
    have := Int.le_ceil (f / 360)
    have := Int.ceil_lt_add_one (f / 360)
    constructor <;> linarith

theorem fmod360_turns (f : ℚ) : ∃ k : Int, fmod360 f = f + 360 * k :=
  ⟨-truncToInt (f / 360), by rw [fmod360]; push_cast; ring⟩

theorem turn_lift {value : ℚ} (low : -360 < value) (high : value < 360) :
    0 ≤ (if value < 0 then value + 360 else value) ∧ (if value < 0 then value + 360 else value) < 360 ∧
      ∃ k : Int, (if value < 0 then value + 360 else value) = value + 360 * k := by
  split_ifs
  · exact ⟨by linarith, by linarith, 1, by norm_num⟩
  · exact ⟨by linarith, high, 0, by norm_num⟩

theorem wrapDegrees_0_360_range {f : ℚ} (range : |f| < 2^31) :
    ∃ r, wrapDegrees_0_360 f = some r ∧ 0 ≤ r ∧ r < 360 ∧ ∃ k : Int, r = f + 360 * k := by
  obtain ⟨j, turns⟩ := fmod360_turns f
  obtain ⟨low, high, k, lifted⟩ := turn_lift (fmod360_bounds f).1 (fmod360_bounds f).2
  refine ⟨_, by rw [wrapDegrees_0_360, modulo360f_eq range]; rfl, low, high, j + k, ?_⟩
  rw [lifted, turns]
  push_cast
  ring

theorem wrapDegrees_180_range {f : ℚ} (range : |f + 180| < 2^31) :
    ∃ r, wrapDegrees_180 f = some r ∧ -180 ≤ r ∧ r < 180 ∧ ∃ k : Int, r = f + 360 * k := by
  obtain ⟨j, turns⟩ := fmod360_turns (f + 180)
  obtain ⟨low, high, k, lifted⟩ :=
    turn_lift (fmod360_bounds (f + 180)).1 (fmod360_bounds (f + 180)).2
  refine ⟨_, by rw [wrapDegrees_180, modulo360f_eq range]; rfl, by linarith, by linarith, j + k, ?_⟩
  rw [lifted, turns]
  push_cast
  ring

theorem wrapDegrees_0_360_v3f_eq (v : V3 ℚ) :
    wrapDegrees_0_360_v3f v = (do
      let x ← wrapDegrees_0_360 v.X
      let y ← wrapDegrees_0_360 v.Y
      let z ← wrapDegrees_0_360 v.Z
      pure ⟨x, y, z⟩) := by
  simp only [wrapDegrees_0_360_v3f, wrapDegrees_0_360]
  cases modulo360f v.X <;> cases modulo360f v.Y <;> cases modulo360f v.Z <;> rfl

/-- `modulo360f` is `fmod (f, 360)`; `wrapDegrees_0_360` lands in `[0, 360)` and
    `wrapDegrees_180` in `[-180, 180)`, each a whole number of turns from `f`; the `v3f`
    version wraps each axis as `wrapDegrees_0_360` does. -/
theorem modulo360f_is_fmod :
    (∀ f : ℚ, |f| < 2^31 → modulo360f f = some (fmod360 f)) ∧
    (∀ f : ℚ, |f| < 2^31 →
      ∃ r, wrapDegrees_0_360 f = some r ∧ 0 ≤ r ∧ r < 360 ∧ ∃ k : Int, r = f + 360 * k) ∧
    (∀ f : ℚ, |f + 180| < 2^31 →
      ∃ r, wrapDegrees_180 f = some r ∧ -180 ≤ r ∧ r < 180 ∧ ∃ k : Int, r = f + 360 * k) ∧
    (∀ v : V3 ℚ, wrapDegrees_0_360_v3f v = (do
      let x ← wrapDegrees_0_360 v.X
      let y ← wrapDegrees_0_360 v.Y
      let z ← wrapDegrees_0_360 v.Z
      pure ⟨x, y, z⟩)) :=
  ⟨fun _ range => modulo360f_eq range, fun _ range => wrapDegrees_0_360_range range,
    fun _ range => wrapDegrees_180_range range, wrapDegrees_0_360_v3f_eq⟩

theorem modulo360f_minus_370 : modulo360f (-370) = some (fmod360 (-370)) :=
  modulo360f_is_fmod.1 (-370) (by norm_num)

/-- `cycle_shift`; its defaults `by = 0` and `max = 1` are the caller's. -/
def cycle_shift (value by' max : ℚ) : ℚ :=
  if value + by' < 0 then value + by' + max
  else if value + by' > max then value + by' - max
  else value + by'

/-- A shift by at most one turn keeps a value of `[0, max]` in `[0, max]`, moving it by whole
    turns from `value + by`. -/
theorem cycle_shift_in_range {value by' max : ℚ} (start : 0 ≤ value ∧ value ≤ max)
    (step : -max ≤ by' ∧ by' ≤ max) :
    0 ≤ cycle_shift value by' max ∧ cycle_shift value by' max ≤ max ∧
      ∃ k : Int, cycle_shift value by' max = value + by' + k * max := by
  obtain ⟨low, high⟩ := start
  obtain ⟨back, forth⟩ := step
  unfold cycle_shift
  split_ifs with under over
  · exact ⟨by linarith, by linarith, 1, by push_cast; ring⟩
  · exact ⟨by linarith, by linarith, -1, by push_cast; ring⟩
  · exact ⟨by linarith, by linarith, 0, by push_cast; ring⟩

theorem cycle_shift_back : 0 ≤ cycle_shift (1 / 4) (-1 / 2) 1 ∧ cycle_shift (1 / 4) (-1 / 2) 1 ≤ 1 ∧
    ∃ k : Int, cycle_shift (1 / 4) (-1 / 2) 1 = 1 / 4 + -1 / 2 + k * 1 :=
  cycle_shift_in_range (by norm_num) (by norm_num)

end NekoVoxel
