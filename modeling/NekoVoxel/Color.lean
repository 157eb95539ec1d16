import NekoVoxel.Types

/-!
`multiplyColorValue`: the red, green and blue channels of an Irrlicht `SColor` scaled by a
float and clamped to a byte. Each product reaches `core::clamp<u32>` already converted to
`u32`, truncated toward zero and undefined (`none`) unless the truncated value fits, so the
clamp never sees a negative value. The `f32` product is read as the exact rational one.
-/
namespace NekoVoxel

/-- Irrlicht's `video::SColor`, one byte per channel. -/
structure SColor where
  alpha : BitVec 8
  red : BitVec 8
  green : BitVec 8
  blue : BitVec 8
  deriving DecidableEq, Repr

namespace SColor

/-- `SColor(a, r, g, b)` keeps the low byte of each argument (`& 0xff`). -/
def ofChannels (a r g b : u32) : SColor :=
  ⟨a.setWidth 8, r.setWidth 8, g.setWidth 8, b.setWidth 8⟩

def getAlpha (c : SColor) : u32 := c.alpha.setWidth 32

def getRed (c : SColor) : u32 := c.red.setWidth 32

def getGreen (c : SColor) : u32 := c.green.setWidth 32

def getBlue (c : SColor) : u32 := c.blue.setWidth 32

end SColor

/-- A float converted to `u32`: truncated toward zero, undefined unless the result fits. -/
def convertToU32 (q : ℚ) : Option u32 :=
  if 0 ≤ truncToInt q ∧ truncToInt q < 2^32 then some (BitVec.ofNat 32 (truncToInt q).toNat)
  else none

def max_ (a b : u32) : u32 := if a < b then b else a

def min_ (a b : u32) : u32 := if a < b then a else b

/-- Irrlicht's `core::clamp`. -/
def clamp (value low high : u32) : u32 := min_ (max_ value low) high

def clampChannel (channel : u32) (mod : ℚ) : Option u32 := do
  let v ← convertToU32 (channel.toNat * mod)
  pure (clamp v 0 255)

def multiplyColorValue (color : SColor) (mod : ℚ) : Option SColor := do
  let r ← clampChannel color.getRed mod
  let g ← clampChannel color.getGreen mod
  let b ← clampChannel color.getBlue mod
  pure (SColor.ofChannels color.getAlpha r g b)

theorem byte_setWidth_toNat (x : BitVec 8) : (x.setWidth 32).toNat = x.toNat := by
  rw [BitVec.toNat_setWidth, Nat.mod_eq_of_lt (by omega)]

theorem byte_setWidth_setWidth (x : BitVec 8) : (x.setWidth 32).setWidth 8 = x :=
  BitVec.eq_of_toNat_eq (by rw [BitVec.toNat_setWidth, byte_setWidth_toNat, Nat.mod_eq_of_lt x.isLt])

theorem clamp_byte_toNat (v : u32) : (clamp v 0 255).toNat = min v.toNat 255 := by
  have low : max_ v 0 = v := if_neg (by simp [BitVec.lt_def])
  have byte : (255 : u32).toNat = 255 := rfl
  rw [clamp, low, min_]
  split
  · next below => rw [BitVec.lt_def, byte] at below; omega
  · next above => rw [BitVec.lt_def, byte] at above; rw [byte]; omega

theorem convertToU32_of_nonneg {q : ℚ} (nonneg : 0 ≤ q) (small : q < 2^32) :
    convertToU32 q = some (BitVec.ofNat 32 ⌊q⌋₊) := by
  have floor : truncToInt q = ⌊q⌋ := truncToInt_of_nonneg nonneg
  have below : ⌊q⌋ < 2^32 := Int.floor_lt.mpr (by exact_mod_cast small)
  rw [convertToU32, floor, if_pos ⟨Int.floor_nonneg.mpr nonneg, below⟩, Int.floor_toNat]

theorem convertToU32_of_le_neg_one {q : ℚ} (negative : q ≤ -1) : convertToU32 q = none := by
  have : truncToInt q < 0 := by
    rw [truncToInt_of_neg (by linarith)]
    exact Int.ceil_lt_iff.mpr (by push_cast; linarith)
  rw [convertToU32, if_neg (by omega)]

theorem clampChannel_of_nonneg {channel : u32} (byte : channel.toNat < 256) {mod : ℚ}
    (nonneg : 0 ≤ mod) (small : mod < 2^24) :
    ∃ v, clampChannel channel mod = some v ∧ v.toNat = min ⌊(channel.toNat : ℚ) * mod⌋₊ 255 := by
  have product : (channel.toNat : ℚ) * mod < 2^32 :=
    calc (channel.toNat : ℚ) * mod ≤ 255 * mod :=
          mul_le_mul_of_nonneg_right (by exact_mod_cast Nat.le_of_lt_succ byte) nonneg
      _ < 2^32 := by linarith
  refine ⟨_, by rw [clampChannel, convertToU32_of_nonneg (by positivity) product]; rfl, ?_⟩
  rw [clamp_byte_toNat, BitVec.toNat_ofNat, Nat.mod_eq_of_lt]
  exact (Nat.floor_lt (by positivity)).mpr (by exact_mod_cast product)

/-- For `0 ≤ mod < 2^24` the result is defined, keeps the alpha byte, and each of red, green
    and blue becomes `min(⌊channel * mod⌋, 255)`. -/
theorem multiplyColorValue_scales (color : SColor) {mod : ℚ} (nonneg : 0 ≤ mod)
    (small : mod < 2^24) :
    ∃ c, multiplyColorValue color mod = some c ∧ c.getAlpha = color.getAlpha ∧
      c.getRed.toNat = min ⌊(color.getRed.toNat : ℚ) * mod⌋₊ 255 ∧
      c.getGreen.toNat = min ⌊(color.getGreen.toNat : ℚ) * mod⌋₊ 255 ∧
      c.getBlue.toNat = min ⌊(color.getBlue.toNat : ℚ) * mod⌋₊ 255 := by
  have byte (x : BitVec 8) : (x.setWidth 32).toNat < 256 := by
    rw [byte_setWidth_toNat]; exact x.isLt
  obtain ⟨r, red, hr⟩ := clampChannel_of_nonneg (byte color.red) nonneg small
  obtain ⟨g, green, hg⟩ := clampChannel_of_nonneg (byte color.green) nonneg small
  obtain ⟨b, blue, hb⟩ := clampChannel_of_nonneg (byte color.blue) nonneg small
  have fits (v : u32) {m : Nat} (clamped : v.toNat = min m 255) :
      ((v.setWidth 8).setWidth 32).toNat = min m 255 := by
    rw [byte_setWidth_toNat, BitVec.toNat_setWidth, Nat.mod_eq_of_lt (by omega), clamped]
  refine ⟨SColor.ofChannels color.getAlpha r g b, ?_, ?_, fits r hr, fits g hg, fits b hb⟩
  · simp only [multiplyColorValue, SColor.getRed, SColor.getGreen, SColor.getBlue, red, green,
      blue, Option.bind_eq_bind, Option.some_bind]
    rfl
  · simp only [SColor.ofChannels, SColor.getAlpha, byte_setWidth_setWidth]

theorem multiplyColorValue_doubles : multiplyColorValue ⟨255, 200, 100, 0⟩ 2 ≠ none := by
  obtain ⟨c, scaled, -⟩ :=
    @multiplyColorValue_scales ⟨255, 200, 100, 0⟩ 2 (by norm_num) (by norm_num)
  exact fun undefined => Option.some_ne_none c (scaled.symm.trans undefined)

/-- A channel whose product with `mod` is at most `-1` makes the result undefined: the product
    is converted to `u32` before the clamp to `0` could apply. -/
theorem multiplyColorValue_undefined_below (color : SColor) {mod : ℚ}
    (negative : (color.getRed.toNat : ℚ) * mod ≤ -1 ∨ (color.getGreen.toNat : ℚ) * mod ≤ -1 ∨
      (color.getBlue.toNat : ℚ) * mod ≤ -1) :
    multiplyColorValue color mod = none := by
  simp only [multiplyColorValue, clampChannel, Option.bind_eq_bind]
  rcases negative with red | green | blue
  · rw [convertToU32_of_le_neg_one red]; rfl
  · cases convertToU32 (color.getRed.toNat * mod) <;> simp [convertToU32_of_le_neg_one green]
  · cases convertToU32 (color.getRed.toNat * mod) <;> cases convertToU32 (color.getGreen.toNat * mod) <;>
      simp [convertToU32_of_le_neg_one blue]

theorem multiplyColorValue_negative_red : multiplyColorValue ⟨255, 1, 0, 0⟩ (-1) = none :=
  multiplyColorValue_undefined_below _
    (.inl (by rw [show (SColor.getRed ⟨255, 1, 0, 0⟩).toNat = 1 from rfl]; norm_num))

end NekoVoxel
