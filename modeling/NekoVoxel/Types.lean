import Mathlib.Algebra.Order.Floor
import Mathlib.Data.Rat.Floor
import Mathlib.Tactic.Linarith
import Mathlib.Order.Lattice

/-!
Irrlicht's value types as numeric.h uses them. `v2s32`, `v3s32` and `v3d` are `V2`/`V3`
over `Int` or `ℚ`; an `s32` is an `Int` with the range predicate `InS32`; a `u32` is a
`BitVec 32`. Signed overflow is undefined in C++: an `int` operation that can overflow on the
inputs a theorem covers is `checkedS32` (`none` on overflow). `wrapS32` spells the two's
complement value of `1 << 31`, and the bias of `getContainerPos`, which its theorems keep in
range (`Addressable`). Floating
point is read as exact rational arithmetic, and a float-to-integer conversion as truncation
toward zero, undefined (`none`) when the result does not fit.
-/
namespace NekoVoxel

structure V2 (α : Type) where
  X : α
  Y : α
  deriving DecidableEq, Repr

structure V3 (α : Type) where
  X : α
  Y : α
  Z : α
  deriving DecidableEq, Repr

variable {α : Type}

instance [Add α] : Add (V3 α) := ⟨fun a b => ⟨a.X + b.X, a.Y + b.Y, a.Z + b.Z⟩⟩

instance [Sub α] : Sub (V3 α) := ⟨fun a b => ⟨a.X - b.X, a.Y - b.Y, a.Z - b.Z⟩⟩

instance [Mul α] : HMul (V3 α) α (V3 α) := ⟨fun a s => ⟨a.X * s, a.Y * s, a.Z * s⟩⟩

@[simp] theorem V3.add_def [Add α] (a b : V3 α) : a + b = ⟨a.X + b.X, a.Y + b.Y, a.Z + b.Z⟩ :=
  rfl

@[simp] theorem V3.sub_def [Sub α] (a b : V3 α) : a - b = ⟨a.X - b.X, a.Y - b.Y, a.Z - b.Z⟩ :=
  rfl

@[simp] theorem V3.mul_def [Mul α] (a : V3 α) (s : α) : a * s = ⟨a.X * s, a.Y * s, a.Z * s⟩ :=
  rfl

def V3.const (d : α) : V3 α := ⟨d, d, d⟩

def componentwise_min (a b : V3 Int) : V3 Int := ⟨min a.X b.X, min a.Y b.Y, min a.Z b.Z⟩

def componentwise_max (a b : V3 Int) : V3 Int := ⟨max a.X b.X, max a.Y b.Y, max a.Z b.Z⟩

/-- Positions ordered on every axis; `componentwise_min`/`max` are its meet and join. -/
instance : Lattice (V3 Int) where
  le a b := a.X ≤ b.X ∧ a.Y ≤ b.Y ∧ a.Z ≤ b.Z
  le_refl _ := ⟨le_rfl, le_rfl, le_rfl⟩
  le_trans _ _ _ h g := ⟨h.1.trans g.1, h.2.1.trans g.2.1, h.2.2.trans g.2.2⟩
  le_antisymm a b h g := by
    cases a; cases b
    simp only [V3.mk.injEq]
    exact ⟨le_antisymm h.1 g.1, le_antisymm h.2.1 g.2.1, le_antisymm h.2.2 g.2.2⟩
  sup := componentwise_max
  le_sup_left _ _ := ⟨le_max_left _ _, le_max_left _ _, le_max_left _ _⟩
  le_sup_right _ _ := ⟨le_max_right _ _, le_max_right _ _, le_max_right _ _⟩
  sup_le _ _ _ h g := ⟨max_le h.1 g.1, max_le h.2.1 g.2.1, max_le h.2.2 g.2.2⟩
  inf := componentwise_min
  inf_le_left _ _ := ⟨min_le_left _ _, min_le_left _ _, min_le_left _ _⟩
  inf_le_right _ _ := ⟨min_le_right _ _, min_le_right _ _, min_le_right _ _⟩
  le_inf _ _ _ h g := ⟨le_min h.1 g.1, le_min h.2.1 g.2.1, le_min h.2.2 g.2.2⟩

theorem V3.le_def {a b : V3 Int} : a ≤ b ↔ a.X ≤ b.X ∧ a.Y ≤ b.Y ∧ a.Z ≤ b.Z := .rfl

@[simp] theorem componentwise_min_eq_inf (a b : V3 Int) : componentwise_min a b = a ⊓ b := rfl

@[simp] theorem componentwise_max_eq_sup (a b : V3 Int) : componentwise_max a b = a ⊔ b := rfl

def V3.InBox (minp maxp p : V3 Int) : Prop :=
  minp.X ≤ p.X ∧ p.X ≤ maxp.X ∧ minp.Y ≤ p.Y ∧ p.Y ≤ maxp.Y ∧ minp.Z ≤ p.Z ∧ p.Z ≤ maxp.Z

instance (minp maxp p : V3 Int) : Decidable (V3.InBox minp maxp p) :=
  inferInstanceAs (Decidable (_ ∧ _ ∧ _ ∧ _ ∧ _ ∧ _))

def InS32 (x : Int) : Prop := -2^31 ≤ x ∧ x < 2^31

instance : DecidablePred InS32 := fun _ => instDecidableAnd

def InS16 (x : Int) : Prop := -2^15 ≤ x ∧ x < 2^15

instance : DecidablePred InS16 := fun _ => instDecidableAnd

/-- The result of an `int` operation: undefined (`none`) on signed overflow. -/
def checkedS32 (x : Int) : Option Int := if InS32 x then some x else none

theorem checkedS32_of_inS32 {x : Int} (range : InS32 x) : checkedS32 x = some x := if_pos range

/-- The two's complement value of a 32-bit pattern. -/
def wrapS32 (x : Int) : Int := Int.bmod x (2^32)

theorem wrapS32_of_inS32 {x : Int} (range : InS32 x) : wrapS32 x = x := by
  unfold InS32 at range
  rw [wrapS32, Int.bmod_def]
  split <;> omega

abbrev u32 := BitVec 32

def rangelim (d min max : Int) : Int :=
  if d < min then min else if d > max then max else d

theorem rangelim_bounds {d min max : Int} (ordered : min ≤ max) :
    min ≤ rangelim d min max ∧ rangelim d min max ≤ max := by
  simp only [rangelim]
  split_ifs <;> omega

/-- The implicit `float`/`double` to integer conversion of C++: truncation toward zero. -/
def truncToInt (q : ℚ) : Int := if 0 ≤ q then ⌊q⌋ else ⌈q⌉

theorem truncToInt_of_nonneg {q : ℚ} (nonneg : 0 ≤ q) : truncToInt q = ⌊q⌋ := if_pos nonneg

theorem truncToInt_of_neg {q : ℚ} (neg : q < 0) : truncToInt q = ⌈q⌉ := if_neg (not_le.mpr neg)

/-- A float-to-integer conversion into a `bits`-bit signed type: undefined (`none`) when the
    truncated value does not fit. -/
def convertToInt (bits : Nat) (q : ℚ) : Option Int :=
  if -2^(bits - 1) ≤ truncToInt q ∧ truncToInt q < 2^(bits - 1) then some (truncToInt q) else none

theorem convertToInt_of_range {bits : Nat} {q : ℚ} (low : -2^(bits - 1) ≤ truncToInt q)
    (high : truncToInt q < 2^(bits - 1)) : convertToInt bits q = some (truncToInt q) :=
  if_pos ⟨low, high⟩

theorem abs_truncToInt_le (q : ℚ) : |(truncToInt q : ℚ)| ≤ |q| := by
  by_cases nonneg : 0 ≤ q
  · rw [truncToInt_of_nonneg nonneg, abs_of_nonneg nonneg,
      abs_of_nonneg (by exact_mod_cast Int.floor_nonneg.mpr nonneg)]
    exact Int.floor_le q
  · have neg := lt_of_not_le nonneg
    rw [truncToInt_of_neg neg, abs_of_neg neg,
      abs_of_nonpos (by exact_mod_cast Int.ceil_le.mpr (by simpa using neg.le))]
    linarith [Int.le_ceil q]

theorem convertToInt_of_abs_lt {bits : Nat} {q : ℚ} (small : |q| < 2^(bits - 1)) :
    convertToInt bits q = some (truncToInt q) := by
  have bounds := abs_lt.mp ((abs_truncToInt_le q).trans_lt small)
  exact convertToInt_of_range (by exact_mod_cast bounds.1.le) (by exact_mod_cast bounds.2)

theorem convertToInt_eq_some {bits : Nat} {q : ℚ} {n : Int} (converted : convertToInt bits q = some n) :
    n = truncToInt q := by
  unfold convertToInt at converted
  split at converted
  · exact (Option.some.inj converted).symm
  · cases converted

def numericAbsolute {T : Type} [LinearOrderedRing T] (v : T) : T := if v < 0 then -v else v

def numericSign {T : Type} [LinearOrderedRing T] (v : T) : T :=
  if v < 0 then -1 else if v = 0 then 0 else 1

def vecAbsolute (v : V3 ℚ) : V3 ℚ := ⟨numericAbsolute v.X, numericAbsolute v.Y, numericAbsolute v.Z⟩

def vecSign (v : V3 ℚ) : V3 ℚ := ⟨numericSign v.X, numericSign v.Y, numericSign v.Z⟩

end NekoVoxel
