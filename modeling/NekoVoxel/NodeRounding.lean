import NekoVoxel.Types

/-!
World-to-node rounding (`floatToInt`, `doubleToInt16`, `doubleToInt`) and its inverse
`intToFloat`, with `getNodeBox`; the scalar roundings `myround` and `myfloor`. Floating point is exact rational arithmetic. The final
conversion to the integer result type truncates toward zero and is undefined (`none`) when
the truncated value does not fit that type. The 32-bit conversions round each axis of `p / d`
as `myround` does, and the 16-bit one agrees with them wherever its result fits an `s16`.
Every statement here is about the exact values: the code's `f64` sums and quotients round.
-/
namespace NekoVoxel

/-- `(x + (x > 0 ? d / 2 : -d / 2)) / d`, the value converted on each axis. -/
def nodeQuot (x d : ℚ) : ℚ := (x + if x > 0 then d / 2 else -d / 2) / d

def nodePos (bits : Nat) (p : V3 ℚ) (d : ℚ) : Option (V3 Int) := do
  let x ← convertToInt bits (nodeQuot p.X d)
  let y ← convertToInt bits (nodeQuot p.Y d)
  let z ← convertToInt bits (nodeQuot p.Z d)
  pure ⟨x, y, z⟩

def floatToInt (p : V3 ℚ) (d : ℚ) : Option (V3 Int) := nodePos 32 p d

def doubleToInt16 (p : V3 ℚ) (d : ℚ) : Option (V3 Int) := nodePos 16 p d

def doubleToInt (p : V3 ℚ) (d : ℚ) : Option (V3 Int) := nodePos 32 p d

def intToFloat (p : V3 Int) (d : ℚ) : V3 ℚ := ⟨p.X * d, p.Y * d, p.Z * d⟩

structure aabb3f where
  MinEdge : V3 ℚ
  MaxEdge : V3 ℚ

def aabb3f.isPointInside (b : aabb3f) (p : V3 ℚ) : Prop :=
  b.MinEdge.X ≤ p.X ∧ p.X ≤ b.MaxEdge.X ∧ b.MinEdge.Y ≤ p.Y ∧ p.Y ≤ b.MaxEdge.Y ∧
    b.MinEdge.Z ≤ p.Z ∧ p.Z ≤ b.MaxEdge.Z

def getNodeBox (p : V3 Int) (d : ℚ) : aabb3f :=
  ⟨⟨p.X * d - 1 / 2 * d, p.Y * d - 1 / 2 * d, p.Z * d - 1 / 2 * d⟩,
    ⟨p.X * d + 1 / 2 * d, p.Y * d + 1 / 2 * d, p.Z * d + 1 / 2 * d⟩⟩

section Rounding
variable {d : ℚ}

theorem truncToInt_nodeQuot_bounds (positive : 0 < d) (x : ℚ) :
    (truncToInt (nodeQuot x d) : ℚ) * d - d / 2 ≤ x ∧ x ≤ truncToInt (nodeQuot x d) * d + d / 2 := by
  have scaled : nodeQuot x d * d = x + if x > 0 then d / 2 else -d / 2 :=
    div_mul_cancel₀ _ positive.ne'
  by_cases sign : x > 0
  · rw [if_pos sign] at scaled
    have nonneg : 0 ≤ nodeQuot x d := by
      rw [nodeQuot, if_pos sign]
      exact div_nonneg (by linarith) positive.le
    rw [truncToInt_of_nonneg nonneg]
    have low := mul_le_mul_of_nonneg_right (Int.floor_le (nodeQuot x d)) positive.le
    have high := mul_lt_mul_of_pos_right (Int.lt_floor_add_one (nodeQuot x d)) positive
    constructor <;> nlinarith
  · rw [if_neg sign] at scaled
    have neg : nodeQuot x d < 0 := by
      rw [nodeQuot, if_neg sign]
      exact div_neg_of_neg_of_pos (by linarith) positive
    rw [truncToInt_of_neg neg]
    have high := mul_le_mul_of_nonneg_right (Int.le_ceil (nodeQuot x d)) positive.le
    have low := mul_lt_mul_of_pos_right (Int.ceil_lt_add_one (nodeQuot x d)) positive
    constructor <;> nlinarith

theorem truncToInt_nodeQuot_center (positive : 0 < d) (p : Int) :
    truncToInt (nodeQuot (p * d) d) = p := by
  by_cases sign : (p : ℚ) * d > 0
  · have quot : nodeQuot (p * d) d = p + 1 / 2 := by
      rw [nodeQuot, if_pos sign]
      field_simp
      ring
    rw [quot, truncToInt_of_nonneg (by linarith [(pos_of_mul_pos_left sign positive.le)]),
      Int.floor_eq_iff]
    constructor <;> linarith
  · have quot : nodeQuot (p * d) d = p - 1 / 2 := by
      rw [nodeQuot, if_neg sign]
      field_simp
      ring
    have nonpos : (p : ℚ) ≤ 0 := by
      by_contra above
      exact sign (mul_pos (lt_of_not_le above) positive)
    rw [quot, truncToInt_of_neg (by linarith), Int.ceil_eq_iff]
    constructor <;> linarith

end Rounding

theorem nodePos_eq_some {bits : Nat} {p : V3 ℚ} {d : ℚ} {v : V3 Int}
    (converted : nodePos bits p d = some v) :
    v = ⟨truncToInt (nodeQuot p.X d), truncToInt (nodeQuot p.Y d), truncToInt (nodeQuot p.Z d)⟩ := by
  simp only [nodePos, Option.bind_eq_bind, Option.bind_eq_some, Option.pure_def,
    Option.some.injEq] at converted
  obtain ⟨x, hx, y, hy, z, hz, rfl⟩ := converted
  rw [convertToInt_eq_some hx, convertToInt_eq_some hy, convertToInt_eq_some hz]

theorem nodePos_inside {bits : Nat} {p : V3 ℚ} {d : ℚ} {v : V3 Int} (positive : 0 < d)
    (converted : nodePos bits p d = some v) : (getNodeBox v d).isPointInside p := by
  rw [nodePos_eq_some converted]
  have X := truncToInt_nodeQuot_bounds positive p.X
  have Y := truncToInt_nodeQuot_bounds positive p.Y
  have Z := truncToInt_nodeQuot_bounds positive p.Z
  simp only [getNodeBox, aabb3f.isPointInside]
  refine ⟨?_, ?_, ?_, ?_, ?_, ?_⟩ <;> linarith

theorem floatToInt_intToFloat {p : V3 Int} {d : ℚ} (positive : 0 < d)
    (range : InS32 p.X ∧ InS32 p.Y ∧ InS32 p.Z) : floatToInt (intToFloat p d) d = some p := by
  simp only [InS32] at range
  simp only [floatToInt, nodePos, intToFloat, convertToInt, truncToInt_nodeQuot_center positive]
  simp only [Nat.add_one_sub_one]
  rw [if_pos (by omega), if_pos (by omega), if_pos (by omega)]
  rfl

theorem floatToInt_of_range {p : V3 ℚ} {d : ℚ} (x : InS32 (truncToInt (nodeQuot p.X d)))
    (y : InS32 (truncToInt (nodeQuot p.Y d))) (z : InS32 (truncToInt (nodeQuot p.Z d))) :
    floatToInt p d = some ⟨truncToInt (nodeQuot p.X d), truncToInt (nodeQuot p.Y d),
      truncToInt (nodeQuot p.Z d)⟩ := by
  simp only [floatToInt, nodePos, @convertToInt_of_range 32 _ x.1 x.2,
    @convertToInt_of_range 32 _ y.1 y.2, @convertToInt_of_range 32 _ z.1 z.2,
    Option.bind_eq_bind, Option.some_bind, Option.pure_def]

theorem convertToInt_sixteen (q : ℚ) :
    convertToInt 16 q = (convertToInt 32 q).bind fun t => if InS16 t then some t else none := by
  simp only [convertToInt, InS16, show (16 : Nat) - 1 = 15 from rfl, show (32 : Nat) - 1 = 31 from rfl]
  by_cases wide : -2^31 ≤ truncToInt q ∧ truncToInt q < 2^31
  · rw [if_pos wide, Option.some_bind]
  · rw [if_neg wide, if_neg (by omega), Option.none_bind]

theorem doubleToInt16_eq (p : V3 ℚ) (d : ℚ) :
    doubleToInt16 p d = (floatToInt p d).bind fun v =>
      if InS16 v.X ∧ InS16 v.Y ∧ InS16 v.Z then some v else none := by
  simp only [doubleToInt16, floatToInt, nodePos, convertToInt_sixteen, Option.bind_eq_bind,
    Option.pure_def]
  rcases convertToInt 32 (nodeQuot p.X d) with _ | a <;>
    rcases convertToInt 32 (nodeQuot p.Y d) with _ | b <;>
    rcases convertToInt 32 (nodeQuot p.Z d) with _ | c <;>
    simp only [Option.none_bind, Option.some_bind, Option.bind_none]
  split_ifs <;> simp_all

/-- World-to-node rounding, in exact arithmetic: `floatToInt` gives a node wherever the three
    truncated quotients are `s32`s, and the point lies in that node's box; `doubleToInt` is
    `floatToInt`, `doubleToInt16` is `floatToInt` kept where the node fits an `s16`; a node's
    centre rounds back to the node. -/
theorem node_rounding_in_box :
    (∀ p d, InS32 (truncToInt (nodeQuot p.X d)) → InS32 (truncToInt (nodeQuot p.Y d)) →
      InS32 (truncToInt (nodeQuot p.Z d)) →
      floatToInt p d = some ⟨truncToInt (nodeQuot p.X d), truncToInt (nodeQuot p.Y d),
        truncToInt (nodeQuot p.Z d)⟩) ∧
    (∀ p d v, 0 < d → floatToInt p d = some v → (getNodeBox v d).isPointInside p) ∧
    (∀ p d v, 0 < d → doubleToInt p d = some v → (getNodeBox v d).isPointInside p) ∧
    (∀ p d v, 0 < d → doubleToInt16 p d = some v → (getNodeBox v d).isPointInside p) ∧
    (∀ p d, doubleToInt p d = floatToInt p d) ∧
    (∀ p d, doubleToInt16 p d = (floatToInt p d).bind fun v =>
      if InS16 v.X ∧ InS16 v.Y ∧ InS16 v.Z then some v else none) ∧
    (∀ (p : V3 Int) d, 0 < d → InS32 p.X ∧ InS32 p.Y ∧ InS32 p.Z →
      floatToInt (intToFloat p d) d = some p) :=
  ⟨fun _ _ x y z => floatToInt_of_range x y z, fun _ _ _ positive => nodePos_inside positive,
    fun _ _ _ positive => nodePos_inside positive, fun _ _ _ positive => nodePos_inside positive,
    fun _ _ => rfl, doubleToInt16_eq, fun _ _ positive range => floatToInt_intToFloat positive range⟩

theorem node_rounding_round_trip :
    floatToInt (intToFloat ⟨-1, 0, 3⟩ 10) 10 = some ⟨-1, 0, 3⟩ :=
  node_rounding_in_box.2.2.2.2.2.2 _ 10 (by norm_num) (by decide)

def myround (f : ℚ) : Option Int := convertToInt 32 (if f < 0 then f - 1 / 2 else f + 1 / 2)

/-- The macro `myfloor`: the `- 1` is `int` arithmetic, undefined on overflow. -/
def myfloor (x : ℚ) : Option Int :=
  if x < 0 then (convertToInt 32 x).bind fun whole => checkedS32 (whole - 1) else convertToInt 32 x

/-- `myround` rounds to a nearest integer, a tie away from zero, wherever the result is an
    `s32`. -/
theorem myround_nearest {f : ℚ} (range : |f| < 2^31 - 1 / 2) :
    ∃ r, myround f = some r ∧ |(r : ℚ) - f| ≤ 1 / 2 ∧ (|(r : ℚ) - f| = 1 / 2 → |f| < |(r : ℚ)|) := by
  have bounds := abs_lt.mp range
  have small : |(if f < 0 then f - 1 / 2 else f + 1 / 2)| < 2^(32 - 1) := by
    rw [abs_lt]
    split_ifs <;> constructor <;> norm_num <;> linarith [bounds.1, bounds.2]
  refine ⟨_, convertToInt_of_abs_lt small, ?_⟩
  by_cases sign : f < 0
  · rw [if_pos sign, truncToInt_of_neg (by linarith)]
    have high := Int.le_ceil (f - 1 / 2)
    have low := Int.ceil_lt_add_one (f - 1 / 2)
    refine ⟨abs_le.mpr ⟨by linarith, by linarith⟩, fun tie => ?_⟩
    rcases (abs_eq (by norm_num)).mp tie with up | down
    · linarith
    · rw [abs_of_neg sign, abs_of_neg (by linarith)]
      linarith
  · have nonneg := not_lt.mp sign
    rw [if_neg sign, truncToInt_of_nonneg (by linarith)]
    have low := Int.floor_le (f + 1 / 2)
    have high := Int.lt_floor_add_one (f + 1 / 2)
    refine ⟨abs_le.mpr ⟨by linarith, by linarith⟩, fun tie => ?_⟩
    rcases (abs_eq (by norm_num)).mp tie with up | down
    · rw [abs_of_nonneg nonneg, abs_of_pos (by linarith)]
      linarith
    · linarith

theorem myround_minus_seven :
    ∃ r, myround (-7) = some r ∧ |(r : ℚ) - -7| ≤ 1 / 2 ∧
      (|(r : ℚ) - -7| = 1 / 2 → |(-7 : ℚ)| < |(r : ℚ)|) :=
  myround_nearest (by norm_num)

/-- `myfloor` is the floor, except at the negative integers, where it is one less. -/
theorem myfloor_eq {x : ℚ} (range : |x| < 2^31) :
    myfloor x = some (if x < 0 ∧ (⌊x⌋ : ℚ) = x then ⌊x⌋ - 1 else ⌊x⌋) := by
  rw [myfloor, @convertToInt_of_abs_lt 32 x range]
  by_cases sign : x < 0
  · have above : -2^31 < x := (abs_lt.mp range).1
    have ceil := Int.le_ceil x
    have fits : InS32 (⌈x⌉ - 1) := by
      have : (-2^31 : ℚ) < ⌈x⌉ := above.trans_le ceil
      have : -2^31 < ⌈x⌉ := by exact_mod_cast this
      have : ⌈x⌉ ≤ 0 := Int.ceil_le.mpr (by simpa using sign.le)
      constructor <;> omega
    rw [if_pos sign, truncToInt_of_neg sign, Option.some_bind, checkedS32_of_inS32 fits]
    congr 1
    split_ifs with whole
    · rw [show ⌈x⌉ = ⌊x⌋ by rw [← whole.2, Int.ceil_intCast, Int.floor_intCast]]
    · have fraction : (⌊x⌋ : ℚ) ≠ x := fun same => whole ⟨sign, same⟩
      have below := lt_of_le_of_ne (Int.floor_le x) fraction
      have gap : (⌈x⌉ : ℚ) - ⌊x⌋ < 2 := by linarith [Int.ceil_lt_add_one x, Int.sub_one_lt_floor x]
      have positive : (0 : ℚ) < ⌈x⌉ - ⌊x⌋ := by linarith
      have gap' : ⌈x⌉ - ⌊x⌋ < 2 := by exact_mod_cast gap
      have positive' : 0 < ⌈x⌉ - ⌊x⌋ := by exact_mod_cast positive
      omega
  · rw [if_neg sign, if_neg (fun h => sign h.1), truncToInt_of_nonneg (not_lt.mp sign)]

example : myfloor (-3) = some (-4) := by decide

theorem myfloor_minus_three :
    myfloor (-3) = some (if (-3 : ℚ) < 0 ∧ (⌊(-3 : ℚ)⌋ : ℚ) = -3 then ⌊(-3 : ℚ)⌋ - 1 else ⌊(-3 : ℚ)⌋) :=
  myfloor_eq (by norm_num)

theorem convertToInt_nodeQuot {d : ℚ} (positive : 0 < d) (x : ℚ) :
    convertToInt 32 (nodeQuot x d) = myround (x / d) := by
  have half : d / 2 / d = 1 / 2 := by field_simp; ring
  unfold myround nodeQuot
  rcases lt_trichotomy x 0 with neg | zero | pos
  · rw [if_neg (not_lt.mpr neg.le), if_pos (div_neg_of_neg_of_pos neg positive), neg_div,
      ← sub_eq_add_neg, sub_div, half]
  · subst zero
    have down : truncToInt (-(1 / 2)) = 0 := by
      rw [truncToInt_of_neg (by norm_num), Int.ceil_eq_iff]; norm_num
    have up : truncToInt (1 / 2) = 0 := by
      rw [truncToInt_of_nonneg (by norm_num), Int.floor_eq_iff]; norm_num
    rw [if_neg (lt_irrefl 0), zero_div, if_neg (lt_irrefl 0), zero_add, zero_add]
    simp only [neg_div, half, convertToInt, down, up]
  · rw [if_pos pos, if_neg (not_lt.mpr (div_nonneg pos.le positive.le)), add_div, half]

/-- In exact arithmetic and for `d > 0`, `floatToInt` rounds each axis of `p / d` as
    `myround` does. -/
theorem node_conversions_agree {d : ℚ} (positive : 0 < d) (p : V3 ℚ) :
    floatToInt p d = (do
      let x ← myround (p.X / d)
      let y ← myround (p.Y / d)
      let z ← myround (p.Z / d)
      pure ⟨x, y, z⟩) := by
  simp only [floatToInt, nodePos, convertToInt_nodeQuot positive]

theorem node_conversions_agree_on_ties :
    floatToInt ⟨15, -15, 0⟩ 10 = (do
      let x ← myround (15 / 10)
      let y ← myround (-15 / 10)
      let z ← myround (0 / 10)
      pure ⟨x, y, z⟩) :=
  node_conversions_agree (by norm_num) _

end NekoVoxel
