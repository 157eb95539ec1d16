import NekoVoxel.Types
import Mathlib.Data.Nat.Size
import Mathlib.Data.List.Range

/-!
The bit tricks of numeric.h: `get_bits` and `set_bits` on `u32` bit fields, `npot2`. The mask
`(1 << len) - 1` is formed in `int`: a shift count of 32 or more is undefined (`none`),
`1 << 31` is `INT_MIN`, and `INT_MIN - 1` overflows, so both functions are defined for
fields of at most 30 bits. The `u32` shifts are undefined for a count of 32 or more as well.
Besides the laws of one field, `set_bits` composes: a second write to a field overwrites the
first, and writes to disjoint fields commute and leave each other's reads alone.
-/
namespace NekoVoxel

def shiftLeft32 (a n : u32) : Option u32 := if n.toNat < 32 then some (a <<< n.toNat) else none

def shiftRight32 (a n : u32) : Option u32 := if n.toNat < 32 then some (a >>> n.toNat) else none

/-- `u32 mask = (1 << len) - 1;`, the line both functions start with. -/
def bitMask (len : u32) : Option u32 := do
  let one_shifted ← if len.toNat < 32 then some (wrapS32 (1 * 2^len.toNat)) else none
  let mask ← checkedS32 (one_shifted - 1)
  pure (BitVec.ofInt 32 mask)

def get_bits (x pos len : u32) : Option u32 := do
  let mask ← bitMask len
  let shifted ← shiftRight32 x pos
  pure (shifted &&& mask)

/-- `set_bits` writes through its pointer; the model returns the new `*x`. -/
def set_bits (x pos len val : u32) : Option u32 := do
  let mask ← bitMask len
  let clear ← shiftLeft32 mask pos
  let x := x &&& ~~~clear
  let field ← shiftLeft32 (val &&& mask) pos
  pure (x ||| field)

def lowBits (n : Nat) : u32 := BitVec.ofNat 32 (2^n - 1)

@[simp] theorem getLsbD_lowBits (n i : Nat) :
    (lowBits n).getLsbD i = (decide (i < 32) && decide (i < n)) := by
  simp [lowBits, BitVec.getLsbD_ofNat, Nat.testBit_two_pow_sub_one]

theorem bitMask_eq {len : u32} (narrow : len.toNat < 31) : bitMask len = some (lowBits len.toNat) := by
  have small : (2 : Int)^len.toNat < 2^31 := pow_lt_pow_right₀ (by norm_num) narrow
  have positive : (0 : Int) < 2^len.toNat := by positivity
  have shifted : wrapS32 (1 * 2^len.toNat) = 2^len.toNat := by
    rw [one_mul]; exact wrapS32_of_inS32 ⟨by omega, small⟩
  have mask : checkedS32 (2^len.toNat - 1) = some (2^len.toNat - 1) :=
    checkedS32_of_inS32 ⟨by omega, by omega⟩
  simp only [bitMask, if_pos (by omega : len.toNat < 32), shifted, mask, Option.bind_eq_bind,
    Option.some_bind, Option.pure_def, lowBits, ← BitVec.ofInt_natCast]
  push_cast [Nat.one_le_two_pow]
  rfl

theorem bitMask_of_wide {len : u32} (wide : 31 ≤ len.toNat) : bitMask len = none := by
  by_cases top : len.toNat = 31
  · have sign : wrapS32 (1 * 2^31) = -2^31 := rfl
    simp only [bitMask, top, sign, checkedS32, InS32]
    norm_num
  · simp [bitMask, show ¬ len.toNat < 32 by omega]

section Field
variable {x val pos len : u32}

theorem get_bits_eq (shift : pos.toNat < 32) (narrow : len.toNat < 31) :
    get_bits x pos len = some ((x >>> pos.toNat) &&& lowBits len.toNat) := by
  simp only [get_bits, bitMask_eq narrow, shiftRight32, if_pos shift, Option.bind_eq_bind,
    Option.some_bind, Option.pure_def]

example : get_bits 0xABCD 4 8 = some 0xBC := by decide

theorem set_bits_eq (shift : pos.toNat < 32) (narrow : len.toNat < 31) :
    set_bits x pos len val = some ((x &&& ~~~(lowBits len.toNat <<< pos.toNat)) |||
      ((val &&& lowBits len.toNat) <<< pos.toNat)) := by
  simp only [set_bits, bitMask_eq narrow, shiftLeft32, if_pos shift, Option.bind_eq_bind,
    Option.some_bind, Option.pure_def]

end Field

theorem getLsbD_setField_of_lt (x val : u32) (p n : Nat) {i : Nat} (low : i < 32) :
    ((x &&& ~~~(lowBits n <<< p)) ||| ((val &&& lowBits n) <<< p)).getLsbD i =
      if p ≤ i ∧ i < p + n then val.getLsbD (i - p) else x.getLsbD i := by
  simp only [BitVec.getLsbD_or, BitVec.getLsbD_and, BitVec.getLsbD_not, BitVec.getLsbD_shiftLeft,
    getLsbD_lowBits]
  split_ifs with inside
  · simp [low, show ¬ i < p by omega, show i - p < n by omega, show i - p < 32 by omega]
  · by_cases before : i < p
    · simp [low, before]
    · simp [low, before, show ¬ i - p < n by omega]

theorem getLsbD_setField (x val : u32) {p n : Nat} (fits : p + n ≤ 32) (i : Nat) :
    ((x &&& ~~~(lowBits n <<< p)) ||| ((val &&& lowBits n) <<< p)).getLsbD i =
      if p ≤ i ∧ i < p + n then val.getLsbD (i - p) else x.getLsbD i := by
  by_cases low : i < 32
  · exact getLsbD_setField_of_lt x val p n low
  · rw [if_neg (by omega), BitVec.getLsbD_ge _ i (by omega), BitVec.getLsbD_ge x i (by omega)]

/-- For a field of 1 to 30 bits inside the word, `get_bits` reads back `val mod 2^len` after
    `set_bits`, `set_bits` keeps every bit outside the field, and writing back what
    `get_bits` read leaves the word unchanged. -/
theorem bit_field_laws (x val pos len : u32) (nonempty : 1 ≤ len.toNat) (narrow : len.toNat ≤ 30)
    (fits : pos.toNat + len.toNat ≤ 32) :
    (∃ y, set_bits x pos len val = some y ∧
      get_bits y pos len = some (BitVec.ofNat 32 (val.toNat % 2^len.toNat)) ∧
      ∀ i, i < pos.toNat ∨ pos.toNat + len.toNat ≤ i → y.getLsbD i = x.getLsbD i) ∧
    (∃ g, get_bits x pos len = some g ∧ set_bits x pos len g = some x) := by
  have shift : pos.toNat < 32 := by omega
  have short : len.toNat < 31 := by omega
  refine ⟨⟨_, set_bits_eq shift short, ?_, fun i outside => ?_⟩, ⟨_, get_bits_eq shift short, ?_⟩⟩
  · rw [get_bits_eq shift short]
    congr 1
    apply BitVec.eq_of_getLsbD_eq
    intro i
    simp only [BitVec.getLsbD_and, BitVec.getLsbD_ushiftRight, getLsbD_setField x val fits,
      getLsbD_lowBits, BitVec.getLsbD_ofNat, Nat.testBit_mod_two_pow, Nat.add_sub_cancel_left]
    by_cases inside : (i : Nat) < len.toNat
    · simp [inside, BitVec.testBit_toNat]
    · simp [inside]
  · rw [getLsbD_setField x val fits, if_neg (by omega)]
  · rw [set_bits_eq shift short]
    congr 1
    apply BitVec.eq_of_getLsbD_eq
    intro i
    rw [getLsbD_setField x _ fits]
    split_ifs with inside
    · simp [BitVec.getLsbD_and, Nat.add_sub_cancel' inside.1, show (i : Nat) - pos.toNat < len.toNat by omega,
        show (i : Nat) - pos.toNat < 32 by omega]
    · rfl

theorem bit_field_round_trip_top :
    ∃ g, get_bits 0xC0000003 2 30 = some g ∧ set_bits 0xC0000003 2 30 g = some 0xC0000003 :=
  (bit_field_laws 0xC0000003 0 2 30 (by decide) (by decide) (by decide)).2

theorem set_bits_of_wide {x pos len val : u32} (wide : ¬ (pos.toNat < 32 ∧ len.toNat < 31)) :
    set_bits x pos len val = none := by
  by_cases narrow : len.toNat < 31
  · have shift : ¬ pos.toNat < 32 := fun shift => wide ⟨shift, narrow⟩
    simp [set_bits, bitMask_eq narrow, shiftLeft32, shift]
  · simp [set_bits, bitMask_of_wide (not_lt.mp narrow)]

theorem get_bits_of_wide {x pos len : u32} (wide : ¬ (pos.toNat < 32 ∧ len.toNat < 31)) :
    get_bits x pos len = none := by
  by_cases narrow : len.toNat < 31
  · have shift : ¬ pos.toNat < 32 := fun shift => wide ⟨shift, narrow⟩
    simp [get_bits, bitMask_eq narrow, shiftRight32, shift]
  · simp [get_bits, bitMask_of_wide (not_lt.mp narrow)]

/-- Fields of 31 and 32 bits are undefined: the mask's `int` subtraction overflows at 31, and
    its shift is out of range at 32. -/
theorem bit_field_wide_undefined :
    set_bits 5 1 31 7 = none ∧ get_bits 5 1 31 = none ∧ set_bits 5 0 32 7 = none ∧
      get_bits 5 0 32 = none :=
  ⟨set_bits_of_wide (by decide), get_bits_of_wide (by decide), set_bits_of_wide (by decide),
    get_bits_of_wide (by decide)⟩

/-- A second `set_bits` of the same field overwrites the first, whatever the field. -/
theorem set_bits_last_write_wins (x v w pos len : u32) :
    (set_bits x pos len v >>= fun y => set_bits y pos len w) = set_bits x pos len w := by
  by_cases defined : pos.toNat < 32 ∧ len.toNat < 31
  · simp only [set_bits_eq defined.1 defined.2, Option.bind_eq_bind, Option.some_bind]
    congr 1
    apply BitVec.eq_of_getLsbD_eq
    intro i
    simp only [getLsbD_setField_of_lt _ _ _ _ i.isLt]
    split_ifs <;> rfl
  · simp [set_bits_of_wide defined]

theorem set_bits_comm_of_disjoint (x v w pos len pos' len' : u32)
    (disjoint : pos.toNat + len.toNat ≤ pos'.toNat ∨ pos'.toNat + len'.toNat ≤ pos.toNat) :
    (set_bits x pos len v >>= fun y => set_bits y pos' len' w) =
      (set_bits x pos' len' w >>= fun y => set_bits y pos len v) := by
  by_cases first : pos.toNat < 32 ∧ len.toNat < 31
  · by_cases second : pos'.toNat < 32 ∧ len'.toNat < 31
    · simp only [set_bits_eq first.1 first.2, set_bits_eq second.1 second.2,
        Option.bind_eq_bind, Option.some_bind]
      congr 1
      apply BitVec.eq_of_getLsbD_eq
      intro i
      simp only [getLsbD_setField_of_lt _ _ _ _ i.isLt]
      split_ifs <;> first | rfl | omega
    · simp [set_bits_of_wide second]
  · simp [set_bits_of_wide first]

theorem get_bits_set_bits_of_disjoint (x v pos len pos' len' : u32)
    (disjoint : pos.toNat + len.toNat ≤ pos'.toNat ∨ pos'.toNat + len'.toNat ≤ pos.toNat)
    (shift : pos.toNat < 32) (narrow : len.toNat < 31) :
    (set_bits x pos len v >>= fun y => get_bits y pos' len') = get_bits x pos' len' := by
  by_cases read : pos'.toNat < 32 ∧ len'.toNat < 31
  · simp only [set_bits_eq shift narrow, get_bits_eq read.1 read.2, Option.bind_eq_bind,
      Option.some_bind]
    congr 1
    apply BitVec.eq_of_getLsbD_eq
    intro i
    simp only [BitVec.getLsbD_and, BitVec.getLsbD_ushiftRight, getLsbD_lowBits]
    by_cases field : (i : Nat) < len'.toNat
    · by_cases low : pos'.toNat + i < 32
      · rw [getLsbD_setField_of_lt _ _ _ _ low, if_neg (by omega)]
      · rw [BitVec.getLsbD_ge _ _ (by omega), BitVec.getLsbD_ge x _ (by omega)]
    · simp [field]
  · simp [set_bits_eq shift narrow, get_bits_of_wide read]

/-- `set_bits` on two disjoint fields commute, and `get_bits` of a field reads through a
    `set_bits` of a disjoint one. -/
theorem set_bits_disjoint (x v w pos len pos' len' : u32)
    (disjoint : pos.toNat + len.toNat ≤ pos'.toNat ∨ pos'.toNat + len'.toNat ≤ pos.toNat) :
    (set_bits x pos len v >>= fun y => set_bits y pos' len' w) =
        (set_bits x pos' len' w >>= fun y => set_bits y pos len v) ∧
      (pos.toNat < 32 → len.toNat < 31 →
        (set_bits x pos len v >>= fun y => get_bits y pos' len') = get_bits x pos' len') :=
  ⟨set_bits_comm_of_disjoint x v w pos len pos' len' disjoint,
    get_bits_set_bits_of_disjoint x v pos len pos' len' disjoint⟩

theorem set_bits_low_and_high_nibbles :
    (set_bits 0 0 4 5 >>= fun y => set_bits y 8 4 3) =
      (set_bits 0 8 4 3 >>= fun y => set_bits y 0 4 5) :=
  (set_bits_disjoint 0 5 3 0 4 8 4 (by decide)).1


def npot2 (orig : u32) : u32 :=
  let orig := orig - 1
  let orig := orig ||| orig >>> 1
  let orig := orig ||| orig >>> 2
  let orig := orig ||| orig >>> 4
  let orig := orig ||| orig >>> 8
  let orig := orig ||| orig >>> 16
  orig + 1

theorem testBit_top {x j : Nat} (low : 2^j ≤ x) (high : x < 2^(j + 1)) : x.testBit j = true := by
  rw [show x = 2^j + (x - 2^j) by omega, Nat.testBit_two_pow_add_eq,
    Nat.testBit_lt_two_pow (by rw [Nat.pow_succ] at high; omega)]
  rfl

theorem size_bounds {m : Nat} (positive : 0 < m) : 2^(m.size - 1) ≤ m ∧ m < 2^(m.size - 1 + 1) := by
  have nonzero := Nat.size_pos.mpr positive
  rw [Nat.sub_add_cancel nonzero]
  exact ⟨Nat.lt_size.mp (by omega), Nat.lt_size_self m⟩

def anyFrom (v : u32) (i n : Nat) : Bool := (List.range n).any fun t => v.getLsbD (i + t)

theorem anyFrom_one (v : u32) (i : Nat) : anyFrom v i 1 = v.getLsbD i := by
  simp [anyFrom, List.range_succ]

theorem anyFrom_add (v : u32) (i a b : Nat) :
    anyFrom v i (a + b) = (anyFrom v i a || anyFrom v (i + a) b) := by
  simp only [anyFrom, List.range_add, List.any_append, List.any_map, Function.comp_def,
    Nat.add_assoc]

theorem anyFrom_width (v : u32) (i : Nat) :
    anyFrom v i 32 = (decide (i < 32) && decide (i < v.toNat.size)) := by
  apply Bool.eq_iff_iff.mpr
  simp only [anyFrom, List.any_eq_true, List.mem_range, Bool.and_eq_true, decide_eq_true_eq,
    Nat.lt_size]
  constructor
  · rintro ⟨t, -, bit⟩
    have inside : i + t < 32 := by
      by_contra outside
      rw [BitVec.getLsbD_ge v _ (by omega)] at bit
      cases bit
    exact ⟨by omega, (Nat.pow_le_pow_right two_pos (by omega)).trans (Nat.testBit_implies_ge bit)⟩
  · rintro ⟨-, low⟩
    have ⟨top, high⟩ := size_bounds (lt_of_lt_of_le (Nat.two_pow_pos i) low)
    have fits : v.toNat.size ≤ 32 := Nat.size_le.mpr v.isLt
    have above := Nat.lt_size.mpr low
    refine ⟨v.toNat.size - 1 - i, by omega, ?_⟩
    rw [show i + (v.toNat.size - 1 - i) = v.toNat.size - 1 by omega]
    exact testBit_top top high

theorem anyFrom_shift_or {v w : u32} {s : Nat} (spread : ∀ i, w.getLsbD i = anyFrom v i s)
    (i : Nat) : (w ||| w >>> s).getLsbD i = anyFrom v i (s + s) := by
  rw [BitVec.getLsbD_or, BitVec.getLsbD_ushiftRight, spread, spread, anyFrom_add, Nat.add_comm s i]

theorem npot2_eq (orig : u32) :
    npot2 orig = BitVec.ofNat 32 (2^(orig - 1).toNat.size - 1) + 1 := by
  simp only [npot2]
  congr 1
  apply BitVec.eq_of_getLsbD_eq
  intro i
  rw [BitVec.getLsbD_ofNat, Nat.testBit_two_pow_sub_one, ← anyFrom_width]
  exact anyFrom_shift_or (anyFrom_shift_or (anyFrom_shift_or (anyFrom_shift_or
    (anyFrom_shift_or fun i => (anyFrom_one _ i).symm)))) i

theorem npot2_toNat (orig : u32) : (npot2 orig).toNat = 2^(orig - 1).toNat.size % 2^32 := by
  have fits : (orig - 1).toNat.size ≤ 32 := Nat.size_le.mpr (orig - 1).isLt
  have bound : 2^(orig - 1).toNat.size ≤ 2^32 := Nat.pow_le_pow_right two_pos fits
  have positive := Nat.two_pow_pos (orig - 1).toNat.size
  have one : (1 : u32).toNat = 1 := rfl
  rw [npot2_eq, BitVec.toNat_add, BitVec.toNat_ofNat, one]
  generalize 2^(orig - 1).toNat.size = top at *
  omega

/-- `npot2` rounds up to a power of two: for `1 <= orig <= 2^31` its result is the least power
    of two that is at least `orig`; for `orig = 0` and for `orig > 2^31` the `u32` arithmetic
    wraps and the result is `0`. -/
theorem npot2_least_power (orig : u32) :
    (1 ≤ orig.toNat → orig.toNat ≤ 2^31 →
      ∃ k, (npot2 orig).toNat = 2^k ∧ orig.toNat ≤ 2^k ∧ 2^k < 2 * orig.toNat) ∧
    (orig.toNat = 0 ∨ 2^31 < orig.toNat → npot2 orig = 0) := by
  have fits : (orig - 1).toNat.size ≤ 32 := Nat.size_le.mpr (orig - 1).isLt
  have one : (1 : u32).toNat = 1 := rfl
  refine ⟨fun low high => ?_, fun wraps => ?_⟩
  · have before : (orig - 1).toNat = orig.toNat - 1 := by
      rw [BitVec.toNat_sub_of_le (BitVec.le_def.mpr (by omega)), one]
    have below : (orig - 1).toNat.size ≤ 31 := Nat.size_le.mpr (by omega)
    have result := npot2_toNat orig
    rw [Nat.mod_eq_of_lt (lt_of_le_of_lt (Nat.pow_le_pow_right two_pos below) (by norm_num))]
      at result
    refine ⟨_, result, ?_, ?_⟩
    · have := Nat.lt_size_self (orig - 1).toNat
      omega
    · rcases Nat.eq_zero_or_pos (orig - 1).toNat with zero | positive
      · rw [zero, Nat.size_zero]
        omega
      · have top := (size_bounds positive).1
        have nonzero := Nat.size_pos.mpr positive
        calc 2^(orig - 1).toNat.size = 2 * 2^((orig - 1).toNat.size - 1) := by
              rw [← Nat.pow_succ', Nat.succ_eq_add_one, Nat.sub_add_cancel nonzero]
          _ ≤ 2 * (orig - 1).toNat := by omega
          _ < 2 * orig.toNat := by omega
  · have top : 2^31 ≤ (orig - 1).toNat := by
      rw [BitVec.toNat_sub, one]
      have := orig.isLt
      omega
    have full : (orig - 1).toNat.size = 32 := le_antisymm fits (Nat.lt_size.mpr top)
    apply BitVec.eq_of_toNat_eq
    rw [npot2_toNat, full]
    rfl

example : npot2 100 = 128 ∧ npot2 0x80000001 = 0 := by decide

theorem npot2_hundred : ∃ k, (npot2 100).toNat = 2^k ∧ 100 ≤ 2^k ∧ 2^k < 2 * 100 :=
  (npot2_least_power 100).1 (by decide) (by decide)

def is_power_of_two (n : u32) : Bool := n != 0 && (n &&& (n - 1)) == 0

theorem and_sub_one_eq_zero_iff {m : Nat} (positive : 0 < m) :
    m &&& (m - 1) = 0 ↔ ∃ k, m = 2^k := by
  constructor
  · intro cleared
    have ⟨top, high⟩ := size_bounds positive
    refine ⟨m.size - 1, le_antisymm ?_ top⟩
    by_contra above
    have bit := Nat.testBit_and m (m - 1) (m.size - 1)
    rw [cleared, Nat.zero_testBit, testBit_top top high, testBit_top (by omega) (by omega)] at bit
    cases bit
  · rintro ⟨k, rfl⟩
    apply Nat.eq_of_testBit_eq
    intro i
    rw [Nat.testBit_and, Nat.testBit_two_pow, Nat.testBit_two_pow_sub_one, Nat.zero_testBit]
    by_cases same : k = i <;> simp [same]

/-- `is_power_of_two` holds exactly of the powers of two. -/
theorem is_power_of_two_iff (n : u32) : is_power_of_two n = true ↔ ∃ k, n.toNat = 2^k := by
  by_cases zero : n = 0
  · subst zero
    simp only [is_power_of_two, bne_self_eq_false, Bool.false_and, Bool.false_eq_true, false_iff]
    rintro ⟨k, power⟩
    exact absurd power (Nat.two_pow_pos k).ne
  · have positive : 0 < n.toNat := by
      rw [Nat.pos_iff_ne_zero]
      exact fun h => zero (BitVec.eq_of_toNat_eq h)
    have one : (1 : u32).toNat = 1 := rfl
    have masked : (n &&& (n - 1)).toNat = n.toNat &&& (n.toNat - 1) := by
      rw [BitVec.toNat_and, BitVec.toNat_sub_of_le (BitVec.le_def.mpr (by omega)), one]
    rw [← and_sub_one_eq_zero_iff positive, ← masked]
    simp only [is_power_of_two, Bool.and_eq_true, bne_iff_ne, ne_eq, zero, not_false_eq_true,
      true_and, beq_iff_eq, BitVec.toNat_eq]
    exact Iff.rfl

/-- The final `(0x6996 >> v) & 1` is computed on `int`; its value is non-negative and below
    `2^15`, so it is computed the same in `u32`. -/
def calc_parity (v : u32) : u32 :=
  let v := v ^^^ v >>> 16
  let v := v ^^^ v >>> 8
  let v := v ^^^ v >>> 4
  let v := v &&& 0xf
  ((0x6996 : u32) >>> v.toNat) &&& 1

def nibbleParity (n : u32) : Bool :=
  Bool.xor (Bool.xor (Bool.xor (n.getLsbD 0) (n.getLsbD 1)) (n.getLsbD 2)) (n.getLsbD 3)

theorem parity_table (k : Fin 16) :
    ((0x6996 : u32) >>> k.val) &&& 1 = if nibbleParity (BitVec.ofNat 32 k.val) then 1 else 0 := by
  revert k
  decide

theorem parity_lookup {n : u32} (small : n.toNat < 16) :
    (((0x6996 : u32) >>> n.toNat) &&& 1).toNat =
      (nibbleParity n).toNat := by
  have table := parity_table ⟨n.toNat, small⟩
  simp only [BitVec.ofNat_toNat, BitVec.setWidth_eq] at table
  rw [table]
  generalize nibbleParity n = parity
  cases parity <;> rfl

instance bne_commutative : Std.Commutative (fun a b : Bool => a != b) := ⟨fun a b => by cases a <;> cases b <;> rfl⟩

theorem countP_mod_two (f : Nat → Bool) (l : List Nat) :
    l.countP f % 2 = (l.foldr (fun i p => Bool.xor (f i) p) false).toNat := by
  induction l with
  | nil => rfl
  | cons a l ih =>
    rw [List.countP_cons, List.foldr_cons, Nat.add_mod, ih]
    cases f a <;> cases l.foldr (fun i p => Bool.xor (f i) p) false <;> rfl

/-- `calc_parity` is the parity of the number of set bits. -/
theorem calc_parity_counts_bits (v : u32) :
    (calc_parity v).toNat = ((List.range 32).countP fun i => v.getLsbD i) % 2 := by
  have mask : (0xf : u32).toNat < 16 := by decide
  have small : ∀ w : u32, (w &&& 0xf).toNat < 16 := fun w => by
    rw [BitVec.toNat_and]
    exact lt_of_le_of_lt Nat.and_le_right mask
  simp only [calc_parity]
  rw [parity_lookup (small _), countP_mod_two, show List.range 32 = [0, 1, 2, 3, 4, 5, 6, 7, 8, 9,
    10, 11, 12, 13, 14, 15, 16, 17, 18, 19, 20, 21, 22, 23, 24, 25, 26, 27, 28, 29, 30, 31] from rfl]
  congr 1
  have nibble : (0xf : u32).getLsbD 0 ∧ (0xf : u32).getLsbD 1 ∧ (0xf : u32).getLsbD 2 ∧
      (0xf : u32).getLsbD 3 := by decide
  simp only [nibbleParity, BitVec.getLsbD_and, BitVec.getLsbD_xor, BitVec.getLsbD_ushiftRight, List.foldr_cons,
    List.foldr_nil, Bool.xor_false, nibble, Bool.and_true, Nat.reduceAdd]
  ac_rfl

end NekoVoxel
