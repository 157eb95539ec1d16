import NekoVoxel.Types
import NekoVoxel.Bits
import Mathlib.Data.Int.Bitwise

/-!
Node-to-block addressing (`getContainerPos`, `getContainerPosWithOffset`). C's `/`
truncates toward zero, so the negative branch first biases `p` by `d - 1`; that bias is the
only step that can leave `s32`. It stays in range on the `Addressable` coordinates every
theorem here is about (`Addressable.noWrap`); beyond them the `int` arithmetic overflows,
which is undefined, and the `wrapS32` value is not the code's. The offset is the two's
complement `p & (d - 1)`, which is `Int.land` on the sign-extended value; it is the remainder
for every coordinate exactly when `d` is a power of two.
-/
namespace NekoVoxel

def getContainerPos (p d : Int) : Int :=
  (if p ≥ 0 then p else wrapS32 (p - d + 1)).tdiv d

def V2.getContainerPos (p : V2 Int) (d : Int) : V2 Int :=
  ⟨NekoVoxel.getContainerPos p.X d, NekoVoxel.getContainerPos p.Y d⟩

def V3.getContainerPos (p : V3 Int) (d : Int) : V3 Int :=
  ⟨NekoVoxel.getContainerPos p.X d, NekoVoxel.getContainerPos p.Y d,
    NekoVoxel.getContainerPos p.Z d⟩

def V2.getContainerPosAxes (p d : V2 Int) : V2 Int :=
  ⟨NekoVoxel.getContainerPos p.X d.X, NekoVoxel.getContainerPos p.Y d.Y⟩

def V3.getContainerPosAxes (p d : V3 Int) : V3 Int :=
  ⟨NekoVoxel.getContainerPos p.X d.X, NekoVoxel.getContainerPos p.Y d.Y,
    NekoVoxel.getContainerPos p.Z d.Z⟩

def getContainerPosWithOffset (p d : Int) : Int × Int :=
  (getContainerPos p d, Int.land p (d - 1))

def V2.getContainerPosWithOffset (p : V2 Int) (d : Int) : V2 Int × V2 Int :=
  let x := NekoVoxel.getContainerPosWithOffset p.X d
  let y := NekoVoxel.getContainerPosWithOffset p.Y d
  (⟨x.1, y.1⟩, ⟨x.2, y.2⟩)

def V3.getContainerPosWithOffset (p : V3 Int) (d : Int) : V3 Int × V3 Int :=
  let x := NekoVoxel.getContainerPosWithOffset p.X d
  let y := NekoVoxel.getContainerPosWithOffset p.Y d
  let z := NekoVoxel.getContainerPosWithOffset p.Z d
  (⟨x.1, y.1, z.1⟩, ⟨x.2, y.2, z.2⟩)

def axisInArea (x d : Int) : Bool := x ≥ 0 && x < d

def V3.isInArea (p : V3 Int) (d : Int) : Bool :=
  axisInArea p.X d && axisInArea p.Y d && axisInArea p.Z d

def V2.isInArea (p : V2 Int) (d : Int) : Bool := axisInArea p.X d && axisInArea p.Y d

def V3.isInAreaAxes (p d : V3 Int) : Bool :=
  axisInArea p.X d.X && axisInArea p.Y d.Y && axisInArea p.Z d.Z

/-- The range the addressing is used on: `p` an `s32`, `1 ≤ d ≤ 2^30`, and `p - d`, the first
    `int` operation of the biased numerator `p - d + 1`, still an `s32`. -/
def Addressable (p d : Int) : Prop := InS32 p ∧ 1 ≤ d ∧ d ≤ 2^30 ∧ InS32 (p - d)

instance (p d : Int) : Decidable (Addressable p d) :=
  inferInstanceAs (Decidable (_ ∧ _ ∧ _ ∧ _))

theorem Addressable.noWrap {p d : Int} (range : Addressable p d) : InS32 (p - d + 1) := by
  unfold Addressable InS32 at range
  unfold InS32
  omega

def FloorContainer (p d c : Int) : Prop := c * d ≤ p ∧ p < c * d + d

def Decomposes (p d : Int) (co : Int × Int) : Prop :=
  FloorContainer p d co.1 ∧ 0 ≤ co.2 ∧ co.2 < d ∧ co.1 * d + co.2 = p

def V2.const (d : Int) : V2 Int := ⟨d, d⟩

def V2.Addressable (p d : V2 Int) : Prop :=
  NekoVoxel.Addressable p.X d.X ∧ NekoVoxel.Addressable p.Y d.Y

def V3.Addressable (p d : V3 Int) : Prop :=
  NekoVoxel.Addressable p.X d.X ∧ NekoVoxel.Addressable p.Y d.Y ∧
    NekoVoxel.Addressable p.Z d.Z

instance (p d : V3 Int) : Decidable (V3.Addressable p d) :=
  inferInstanceAs (Decidable (_ ∧ _ ∧ _))

def V2.FloorContainer (p d c : V2 Int) : Prop :=
  NekoVoxel.FloorContainer p.X d.X c.X ∧ NekoVoxel.FloorContainer p.Y d.Y c.Y

def V3.FloorContainer (p d c : V3 Int) : Prop :=
  NekoVoxel.FloorContainer p.X d.X c.X ∧ NekoVoxel.FloorContainer p.Y d.Y c.Y ∧
    NekoVoxel.FloorContainer p.Z d.Z c.Z

def V2.Decomposes (p : V2 Int) (d : Int) (co : V2 Int × V2 Int) : Prop :=
  NekoVoxel.Decomposes p.X d (co.1.X, co.2.X) ∧ NekoVoxel.Decomposes p.Y d (co.1.Y, co.2.Y)

def V3.Decomposes (p : V3 Int) (d : Int) (co : V3 Int × V3 Int) : Prop :=
  NekoVoxel.Decomposes p.X d (co.1.X, co.2.X) ∧ NekoVoxel.Decomposes p.Y d (co.1.Y, co.2.Y) ∧
    NekoVoxel.Decomposes p.Z d (co.1.Z, co.2.Z)

theorem getContainerPos_eq_ediv {p d : Int} (positive : 0 < d) (noWrap : InS32 (p - d + 1)) :
    getContainerPos p d = p / d := by
  unfold getContainerPos
  split
  · exact Int.tdiv_eq_ediv ‹_› positive.le
  · rw [wrapS32_of_inS32 noWrap, show p - d + 1 = -(d - 1 - p) by ring, Int.neg_tdiv,
      Int.tdiv_eq_ediv (by omega) positive.le]
    have low := Int.ediv_mul_le (d - 1 - p) positive.ne'
    have high := Int.lt_ediv_add_one_mul_self (d - 1 - p) positive
    exact ((Int.ediv_emod_unique (r := p + (d - 1 - p) / d * d) (q := -((d - 1 - p) / d))
      positive).mpr ⟨by ring, by linarith, by linarith⟩).1.symm

theorem ediv_floorContainer (p : Int) {d : Int} (positive : 0 < d) : FloorContainer p d (p / d) :=
  ⟨Int.ediv_mul_le p positive.ne', by linarith [Int.lt_ediv_add_one_mul_self p positive]⟩

theorem land_two_pow_sub_one (p : Int) (k : Nat) : Int.land p (2^k - 1) = p % 2^k := by
  have mask : (2 : Int)^k - 1 = ((2^k - 1 : Nat) : Int) := by
    push_cast [Nat.one_le_two_pow]; ring
  rw [mask]
  cases p with
  | ofNat m =>
    rw [show (2 : Int)^k = ((2^k : Nat) : Int) by push_cast; rfl]
    simp only [Int.land, Int.ofNat_eq_coe, ← Int.ofNat_emod, Nat.and_pow_two_sub_one_eq_mod]
  | negSucc m =>
    rw [Int.negSucc_emod m (by positivity)]
    have small : m % 2^k < 2^k := Nat.mod_lt _ (Nat.two_pow_pos k)
    have bits : Nat.ldiff (2^k - 1) m = 2^k - (m % 2^k + 1) := by
      apply Nat.eq_of_testBit_eq
      intro i
      rw [Nat.testBit_ldiff, Nat.testBit_two_pow_sub_one, Nat.testBit_two_pow_sub_succ small,
        Nat.testBit_mod_two_pow]
      cases decide (i < k) <;> simp
    simp only [Int.land, bits]
    push_cast [Nat.succ_le_of_lt small, ← Int.ofNat_emod]
    ring

theorem getContainerPosWithOffset_eq {p d : Int} {k : Nat} (power : d = 2^k)
    (noWrap : InS32 (p - d + 1)) : getContainerPosWithOffset p d = (p / d, p % d) := by
  have positive : 0 < d := power ▸ by positivity
  rw [getContainerPosWithOffset, getContainerPos_eq_ediv positive noWrap, power,
    land_two_pow_sub_one]

theorem getContainerPos_floor {p d : Int} (range : Addressable p d) :
    FloorContainer p d (getContainerPos p d) := by
  rw [getContainerPos_eq_ediv (by linarith [range.2.1]) range.noWrap]
  exact ediv_floorContainer p (by linarith [range.2.1])

theorem getContainerPosWithOffset_decomposes {p d : Int} {k : Nat} (range : Addressable p d)
    (power : d = 2^k) : Decomposes p d (getContainerPosWithOffset p d) := by
  have positive : 0 < d := by linarith [range.2.1]
  rw [getContainerPosWithOffset_eq power range.noWrap]
  exact ⟨ediv_floorContainer p positive, Int.emod_nonneg p positive.ne',
    Int.emod_lt_of_pos p positive, by rw [mul_comm]; exact Int.ediv_add_emod p d⟩

theorem getContainerPosWithOffset_of_decomposition {c o d : Int} {k : Nat}
    (range : Addressable (c * d + o) d) (power : d = 2^k) (low : 0 ≤ o) (high : o < d) :
    getContainerPosWithOffset (c * d + o) d = (c, o) := by
  rw [getContainerPosWithOffset_eq power range.noWrap]
  have unique := (Int.ediv_emod_unique (a := c * d + o) (r := o) (q := c) (by omega)).mpr
    ⟨by ring, low, high⟩
  rw [unique.1, unique.2]

theorem axisInArea_iff {p d : Int} (range : Addressable p d) :
    axisInArea p d = true ↔ getContainerPos p d = 0 := by
  have positive : 0 < d := by linarith [range.2.1]
  have floor := ediv_floorContainer p positive
  rw [getContainerPos_eq_ediv positive range.noWrap]
  simp only [axisInArea, Bool.and_eq_true, decide_eq_true_eq]
  constructor
  · exact fun inside => Int.ediv_eq_zero_of_lt inside.1 inside.2
  · intro zero
    rw [zero, FloorContainer] at floor
    omega

theorem V2.getContainerPosAxes_floor {p d : V2 Int} (range : V2.Addressable p d) :
    V2.FloorContainer p d (V2.getContainerPosAxes p d) :=
  ⟨getContainerPos_floor range.1, getContainerPos_floor range.2⟩

theorem V3.getContainerPosAxes_floor {p d : V3 Int} (range : V3.Addressable p d) :
    V3.FloorContainer p d (V3.getContainerPosAxes p d) :=
  ⟨getContainerPos_floor range.1, getContainerPos_floor range.2.1,
    getContainerPos_floor range.2.2⟩

theorem V2.getContainerPosWithOffset_decomposes {p : V2 Int} {d : Int} {k : Nat}
    (range : V2.Addressable p (V2.const d)) (power : d = 2^k) :
    V2.Decomposes p d (V2.getContainerPosWithOffset p d) :=
  ⟨NekoVoxel.getContainerPosWithOffset_decomposes range.1 power,
    NekoVoxel.getContainerPosWithOffset_decomposes range.2 power⟩

theorem V3.getContainerPosWithOffset_decomposes {p : V3 Int} {d : Int} {k : Nat}
    (range : V3.Addressable p (V3.const d)) (power : d = 2^k) :
    V3.Decomposes p d (V3.getContainerPosWithOffset p d) :=
  ⟨NekoVoxel.getContainerPosWithOffset_decomposes range.1 power,
    NekoVoxel.getContainerPosWithOffset_decomposes range.2.1 power,
    NekoVoxel.getContainerPosWithOffset_decomposes range.2.2 power⟩

theorem V3.getContainerPosWithOffset_of_decomposition {c o : V3 Int} {d : Int} {k : Nat}
    (range : V3.Addressable ⟨c.X * d + o.X, c.Y * d + o.Y, c.Z * d + o.Z⟩ (V3.const d))
    (power : d = 2^k) (low : 0 ≤ o.X ∧ 0 ≤ o.Y ∧ 0 ≤ o.Z) (high : o.X < d ∧ o.Y < d ∧ o.Z < d) :
    V3.getContainerPosWithOffset ⟨c.X * d + o.X, c.Y * d + o.Y, c.Z * d + o.Z⟩ d = (c, o) := by
  simp only [V3.getContainerPosWithOffset,
    NekoVoxel.getContainerPosWithOffset_of_decomposition range.1 power low.1 high.1,
    NekoVoxel.getContainerPosWithOffset_of_decomposition range.2.1 power low.2.1 high.2.1,
    NekoVoxel.getContainerPosWithOffset_of_decomposition range.2.2 power low.2.2 high.2.2]

/-- Node-to-block addressing is exact floor division with its bitmask offset, for the
    scalar function and every vector overload. -/
theorem container_addressing_exact :
    (∀ p d, Addressable p d → FloorContainer p d (getContainerPos p d)) ∧
    (∀ p d (k : Nat), Addressable p d → d = 2^k →
      (getContainerPosWithOffset p d).1 = getContainerPos p d ∧
        Decomposes p d (getContainerPosWithOffset p d)) ∧
    (∀ c o d (k : Nat), Addressable (c * d + o) d → d = 2^k → 0 ≤ o → o < d →
      getContainerPosWithOffset (c * d + o) d = (c, o)) ∧
    (∀ p d, V2.Addressable p d → V2.FloorContainer p d (V2.getContainerPosAxes p d)) ∧
    (∀ p d, V3.Addressable p d → V3.FloorContainer p d (V3.getContainerPosAxes p d)) ∧
    (∀ p d, V2.Addressable p (V2.const d) →
      V2.FloorContainer p (V2.const d) (V2.getContainerPos p d)) ∧
    (∀ p d, V3.Addressable p (V3.const d) →
      V3.FloorContainer p (V3.const d) (V3.getContainerPos p d)) ∧
    (∀ p d (k : Nat), V2.Addressable p (V2.const d) → d = 2^k →
      V2.Decomposes p d (V2.getContainerPosWithOffset p d)) ∧
    (∀ p d (k : Nat), V3.Addressable p (V3.const d) → d = 2^k →
      V3.Decomposes p d (V3.getContainerPosWithOffset p d)) ∧
    (∀ (c o : V3 Int) d (k : Nat),
      V3.Addressable ⟨c.X * d + o.X, c.Y * d + o.Y, c.Z * d + o.Z⟩ (V3.const d) → d = 2^k →
      0 ≤ o.X ∧ 0 ≤ o.Y ∧ 0 ≤ o.Z → o.X < d ∧ o.Y < d ∧ o.Z < d →
      V3.getContainerPosWithOffset ⟨c.X * d + o.X, c.Y * d + o.Y, c.Z * d + o.Z⟩ d = (c, o)) :=
  ⟨fun _ _ range => getContainerPos_floor range,
    fun _ _ _ range power => ⟨rfl, getContainerPosWithOffset_decomposes range power⟩,
    fun _ _ _ _ range power low high =>
      getContainerPosWithOffset_of_decomposition range power low high,
    fun _ _ range => V2.getContainerPosAxes_floor range,
    fun _ _ range => V3.getContainerPosAxes_floor range,
    fun _ _ range => V2.getContainerPosAxes_floor range,
    fun _ _ range => V3.getContainerPosAxes_floor range,
    fun _ _ _ range power => V2.getContainerPosWithOffset_decomposes range power,
    fun _ _ _ range power => V3.getContainerPosWithOffset_decomposes range power,
    fun _ _ _ _ range power low high =>
      V3.getContainerPosWithOffset_of_decomposition range power low high⟩

theorem container_addressing_scenario :
    V3.Addressable ⟨-1 * 16 + 15, 0 * 16 + 0, 0 * 16 + 0⟩ (V3.const 16) ∧
      V3.getContainerPosWithOffset ⟨-1 * 16 + 15, 0 * 16 + 0, 0 * 16 + 0⟩ 16 =
        (⟨-1, 0, 0⟩, ⟨15, 0, 0⟩) :=
  ⟨by decide, container_addressing_exact.2.2.2.2.2.2.2.2.2 ⟨-1, 0, 0⟩ ⟨15, 0, 0⟩ 16 4 (by decide)
    rfl (by decide) (by decide)⟩


/-- `isInArea` tests that a position lies in container `0` of `getContainerPos`, for each of
    its three overloads. -/
theorem isInArea_iff_container_zero :
    (∀ (p : V3 Int) (d : Int), V3.Addressable p (V3.const d) →
      (V3.isInArea p d = true ↔ V3.getContainerPos p d = ⟨0, 0, 0⟩)) ∧
    (∀ (p : V2 Int) (d : Int), V2.Addressable p (V2.const d) →
      (V2.isInArea p d = true ↔ V2.getContainerPos p d = ⟨0, 0⟩)) ∧
    (∀ p d : V3 Int, V3.Addressable p d →
      (V3.isInAreaAxes p d = true ↔ V3.getContainerPosAxes p d = ⟨0, 0, 0⟩)) := by
  refine ⟨fun p d range => ?_, fun p d range => ?_, fun p d range => ?_⟩
  · simp only [V3.isInArea, V3.getContainerPos, Bool.and_eq_true, V3.mk.injEq, and_assoc,
      axisInArea_iff (p := p.X) (d := d) range.1, axisInArea_iff (p := p.Y) (d := d) range.2.1,
      axisInArea_iff (p := p.Z) (d := d) range.2.2]
  · simp only [V2.isInArea, V2.getContainerPos, Bool.and_eq_true, V2.mk.injEq,
      axisInArea_iff (p := p.X) (d := d) range.1, axisInArea_iff (p := p.Y) (d := d) range.2]
  · simp only [V3.isInAreaAxes, V3.getContainerPosAxes, Bool.and_eq_true, V3.mk.injEq, and_assoc,
      axisInArea_iff range.1, axisInArea_iff range.2.1, axisInArea_iff range.2.2]

theorem isInArea_corner_block :
    V3.isInArea ⟨3, 0, 15⟩ 16 = true ↔ V3.getContainerPos ⟨3, 0, 15⟩ 16 = ⟨0, 0, 0⟩ :=
  isInArea_iff_container_zero.1 ⟨3, 0, 15⟩ 16 (by decide)

theorem land_natCast_sub_one {n : Nat} (positive : 0 < n) :
    Int.land n (n - 1) = ((n &&& (n - 1) : Nat) : Int) := by
  rw [show (n : Int) - 1 = ((n - 1 : Nat) : Int) by omega]
  rfl

theorem decomposes_self_iff {d : Int} (low : 1 ≤ d) (high : d ≤ 2^30) :
    Addressable d d ∧
      (Decomposes d d (getContainerPosWithOffset d d) ↔ Int.land d (d - 1) = 0) := by
  have range : Addressable d d := ⟨by unfold InS32; omega, low, high, by unfold InS32; omega⟩
  have whole : getContainerPos d d = 1 := by
    rw [getContainerPos_eq_ediv (by omega) range.noWrap, Int.ediv_self (by omega)]
  refine ⟨range, ?_⟩
  simp only [Decomposes, FloorContainer, getContainerPosWithOffset, whole]
  omega

theorem land_sub_one_eq_zero_iff {d : Int} (low : 1 ≤ d) :
    Int.land d (d - 1) = 0 ↔ ∃ k : Nat, d = 2^k := by
  constructor
  · intro cleared
    obtain ⟨n, rfl⟩ := Int.eq_ofNat_of_zero_le (by omega : 0 ≤ d)
    rw [land_natCast_sub_one (by omega)] at cleared
    obtain ⟨k, power⟩ := (and_sub_one_eq_zero_iff (m := n) (by omega)).mp (by exact_mod_cast cleared)
    exact ⟨k, by exact_mod_cast power⟩
  · rintro ⟨k, rfl⟩
    rw [land_two_pow_sub_one, Int.emod_self]

/-- `getContainerPosWithOffset` splits every addressable coordinate exactly when `d` is a power
    of two: otherwise the offset `p & (d - 1)` is not `0` at `p = d`, and the split fails there. -/
theorem getContainerPosWithOffset_exact_iff_power {d : Int} (low : 1 ≤ d) (high : d ≤ 2^30) :
    ((∀ p, Addressable p d → Decomposes p d (getContainerPosWithOffset p d)) ↔
      ∃ k : Nat, d = 2^k) ∧
    ((∀ k : Nat, d ≠ 2^k) → Addressable d d ∧
      ¬ Decomposes d d (getContainerPosWithOffset d d) ∧ Int.land d (d - 1) ≠ 0) := by
  obtain ⟨range, self⟩ := decomposes_self_iff low high
  have power := land_sub_one_eq_zero_iff low
  refine ⟨⟨fun exact => power.mp (self.mp (exact d range)),
    fun ⟨_, two⟩ _ range => getContainerPosWithOffset_decomposes range two⟩, fun other => ?_⟩
  have nonzero : Int.land d (d - 1) ≠ 0 := fun zero => (power.mp zero).elim other
  exact ⟨range, fun split => nonzero (self.mp split), nonzero⟩

theorem container_offset_twelve_inexact :
    Addressable 12 12 ∧ ¬ Decomposes 12 12 (getContainerPosWithOffset 12 12) ∧
      Int.land 12 (12 - 1) ≠ 0 :=
  (getContainerPosWithOffset_exact_iff_power (d := 12) (by norm_num) (by norm_num)).2
    fun k power => by
      have twelve : (12 : Nat) = 2^k := by exact_mod_cast power
      rcases k with _ | _ | _ | _ | k <;> simp only [pow_succ] at twelve <;> omega

def sortAxis (a b : Int) : Int × Int := if a > b then (b, a) else (a, b)

def sortBoxVerticies (p1 p2 : V3 Int) : V3 Int × V3 Int :=
  let x := sortAxis p1.X p2.X
  let y := sortAxis p1.Y p2.Y
  let z := sortAxis p1.Z p2.Z
  (⟨x.1, y.1, z.1⟩, ⟨x.2, y.2, z.2⟩)

theorem sortAxis_eq (a b : Int) : sortAxis a b = (min a b, max a b) := by
  unfold sortAxis
  split_ifs with above
  · rw [min_eq_right above.le, max_eq_left above.le]
  · rw [min_eq_left (not_lt.mp above), max_eq_right (not_lt.mp above)]

theorem sortBoxVerticies_eq (p1 p2 : V3 Int) : sortBoxVerticies p1 p2 = (p1 ⊓ p2, p1 ⊔ p2) := by
  simp only [sortBoxVerticies, sortAxis_eq]
  rfl

/-- `sortBoxVerticies` returns the least and the greatest corner of the box its two corners
    span: the first is below the second, the order of the arguments does not matter, and
    sorting twice changes nothing. -/
theorem sortBoxVerticies_orders (p1 p2 : V3 Int) :
    sortBoxVerticies p1 p2 = (componentwise_min p1 p2, componentwise_max p1 p2) ∧
      (sortBoxVerticies p1 p2).1 ≤ (sortBoxVerticies p1 p2).2 ∧
      sortBoxVerticies p2 p1 = sortBoxVerticies p1 p2 ∧
      sortBoxVerticies (sortBoxVerticies p1 p2).1 (sortBoxVerticies p1 p2).2 =
        sortBoxVerticies p1 p2 := by
  simp only [sortBoxVerticies_eq, componentwise_min_eq_inf, componentwise_max_eq_sup,
    inf_comm p2, sup_comm p2, inf_eq_left.mpr (inf_le_sup : p1 ⊓ p2 ≤ p1 ⊔ p2),
    sup_eq_right.mpr (inf_le_sup : p1 ⊓ p2 ≤ p1 ⊔ p2), inf_le_sup, and_self]

end NekoVoxel
