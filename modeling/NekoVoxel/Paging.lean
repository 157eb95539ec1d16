import NekoVoxel.Types
import Mathlib.Data.List.Range
import Mathlib.Data.Nat.ModEq

/-!
`paging`: the index range `[minindex, maxindex)` of one page when a list of `length`
entries is split into `pagecount` pages. All arithmetic is `u32` and wraps modulo `2^32`;
the two out-parameters are returned as a pair.
-/
namespace NekoVoxel

def paging (length page pagecount : u32) : u32 × u32 :=
  if length < 1 ∨ pagecount < 1 ∨ page < 1 ∨ page > pagecount then (0, 0)
  else if pagecount ≤ length then
    ((length * (page - 1) + (pagecount - 1)) / pagecount,
      (length * page + (pagecount - 1)) / pagecount)
  else if page < length then (page - 1, page)
  else (0, 0)

/-- The pages `1 .. pagecount` in order, each as the list of its indices. -/
def pages (length pagecount : u32) : List (List Nat) :=
  (List.range pagecount.toNat).map fun i =>
    let r := paging length (BitVec.ofNat 32 (i + 1)) pagecount
    List.range' r.1.toNat (r.2.toNat - r.1.toNat)

/-- `⌈length * i / pagecount⌉`, the first index of page `i + 1`. -/
def pageStart (length pagecount i : Nat) : Nat := (length * i + (pagecount - 1)) / pagecount

section Paging
variable {length page pagecount : u32}

theorem paging_invalid
    (invalid : length.toNat = 0 ∨ pagecount.toNat = 0 ∨ page.toNat = 0 ∨
      pagecount.toNat < page.toNat) :
    paging length page pagecount = (0, 0) := by
  rw [paging, if_pos]
  simp only [BitVec.lt_def, BitVec.ofNat_eq_ofNat, BitVec.toNat_ofNat]
  omega

theorem paging_fewer (low : 1 ≤ page.toNat) (high : page.toNat ≤ pagecount.toNat)
    (nonempty : 1 ≤ pagecount.toNat) (fewer : pagecount.toNat ≤ length.toNat)
    (noWrap : length.toNat * pagecount.toNat + pagecount.toNat - 1 < 2^32) :
    (paging length page pagecount).1.toNat =
        pageStart length.toNat pagecount.toNat (page.toNat - 1) ∧
      (paging length page pagecount).2.toNat =
        pageStart length.toNat pagecount.toNat page.toNat := by
  have first := Nat.mul_le_mul_left length.toNat (Nat.sub_le page.toNat 1)
  have last := Nat.mul_le_mul_left length.toNat high
  rw [paging, if_neg (by simp only [BitVec.lt_def, BitVec.ofNat_eq_ofNat, BitVec.toNat_ofNat]; omega),
    if_pos (BitVec.le_def.mpr fewer)]
  simp only [pageStart, BitVec.toNat_udiv, BitVec.toNat_add, BitVec.toNat_mul, BitVec.toNat_sub,
    BitVec.ofNat_eq_ofNat, BitVec.toNat_ofNat]
  have pageMinus : (2^32 - 1 % 2^32 + page.toNat) % 2^32 = page.toNat - 1 := by omega
  have countMinus : (2^32 - 1 % 2^32 + pagecount.toNat) % 2^32 = pagecount.toNat - 1 := by omega
  rw [pageMinus, countMinus]
  generalize length.toNat * (page.toNat - 1) = before at *
  generalize length.toNat * page.toNat = upto at *
  generalize length.toNat * pagecount.toNat = all at *
  constructor <;> congr 1 <;> omega

theorem paging_more (low : 1 ≤ page.toNat) (high : page.toNat ≤ pagecount.toNat)
    (nonempty : 1 ≤ length.toNat) (more : length.toNat < pagecount.toNat) :
    paging length page pagecount = if page < length then (page - 1, page) else (0, 0) := by
  rw [paging, if_neg (by simp only [BitVec.lt_def, BitVec.ofNat_eq_ofNat, BitVec.toNat_ofNat]; omega),
    if_neg (by simp only [BitVec.le_def]; omega)]

end Paging

theorem pageStart_mono {length pagecount i j : Nat} (le : i ≤ j) :
    pageStart length pagecount i ≤ pageStart length pagecount j :=
  Nat.div_le_div_right (Nat.add_le_add_right (Nat.mul_le_mul_left length le) _)

theorem pageStart_zero {length pagecount : Nat} (nonempty : 1 ≤ pagecount) :
    pageStart length pagecount 0 = 0 := by
  simp [pageStart, Nat.div_eq_of_lt (Nat.sub_lt nonempty Nat.one_pos)]

theorem pageStart_last {length pagecount : Nat} (nonempty : 1 ≤ pagecount) :
    pageStart length pagecount pagecount = length := by
  rw [pageStart, Nat.mul_comm, Nat.add_comm, Nat.add_mul_div_left _ _ nonempty,
    Nat.div_eq_of_lt (Nat.sub_lt nonempty Nat.one_pos), Nat.zero_add]

theorem flatten_ranges (g : Nat → Nat) (mono : ∀ i j, i ≤ j → g i ≤ g j) (n : Nat) :
    ((List.range n).map fun i => List.range' (g i) (g (i + 1) - g i)).flatten =
      List.range' (g 0) (g n - g 0) := by
  induction n with
  | zero => simp
  | succ n ih =>
    have before := mono 0 n (Nat.zero_le n)
    have step := mono n (n + 1) (Nat.le_succ n)
    have joined := List.range'_append_1 (g 0) (g n - g 0) (g (n + 1) - g n)
    rw [Nat.add_sub_cancel' before] at joined
    rw [List.range_succ, List.map_append, List.flatten_append, ih, List.map_singleton,
      List.flatten_singleton, joined]
    congr 1
    omega

theorem pageStart_step {length pagecount : Nat} (nonempty : 1 ≤ pagecount) (i : Nat) :
    pageStart length pagecount (i + 1) - pageStart length pagecount i = length / pagecount ∨
      pageStart length pagecount (i + 1) - pageStart length pagecount i =
        (length + pagecount - 1) / pagecount := by
  have positive : 0 < pagecount := nonempty
  have below : pagecount - 1 < pagecount := Nat.sub_lt nonempty Nat.one_pos
  rw [show length + pagecount - 1 = length + (pagecount - 1) by omega, Nat.add_div positive,
    Nat.div_eq_of_lt below, Nat.mod_eq_of_lt below]
  unfold pageStart
  rw [show length * (i + 1) + (pagecount - 1) = length * i + (pagecount - 1) + length by ring,
    Nat.add_div positive]
  have remainder := Nat.mod_lt (length * i + (pagecount - 1)) positive
  have part := Nat.mod_lt length positive
  generalize (length * i + (pagecount - 1)) / pagecount = q at *
  generalize (length * i + (pagecount - 1)) % pagecount = r at *
  generalize length / pagecount = lq at *
  generalize length % pagecount = lr at *
  split_ifs <;> omega

theorem flatten_singletons_below (m n : Nat) :
    ((List.range n).map fun i => if i < m then [i] else []).flatten = List.range (min n m) := by
  induction n with
  | zero => simp
  | succ n ih =>
    rw [List.range_succ, List.map_append, List.flatten_append, ih, List.map_singleton,
      List.flatten_singleton]
    by_cases below : n < m
    · rw [if_pos below, min_eq_left below.le, min_eq_left below, List.range_succ]
    · rw [if_neg below, min_eq_right (not_lt.mp below), min_eq_right (by omega), List.append_nil]

section Pages
variable {length pagecount : u32}

theorem pages_fewer (nonempty : 1 ≤ pagecount.toNat) (fewer : pagecount.toNat ≤ length.toNat)
    (noWrap : length.toNat * pagecount.toNat + pagecount.toNat - 1 < 2^32) :
    pages length pagecount = (List.range pagecount.toNat).map fun i =>
      List.range' (pageStart length.toNat pagecount.toNat i)
        (pageStart length.toNat pagecount.toNat (i + 1) - pageStart length.toNat pagecount.toNat i) := by
  apply List.map_congr_left
  intro i member
  have index : (BitVec.ofNat 32 (i + 1)).toNat = i + 1 := by
    have := List.mem_range.mp member
    have := pagecount.isLt
    simp only [BitVec.toNat_ofNat]
    omega
  have bounds := @paging_fewer _ (BitVec.ofNat 32 (i + 1)) _ (by omega)
    (by have := List.mem_range.mp member; omega) nonempty fewer noWrap
  simp only [bounds.1, bounds.2, index, Nat.add_sub_cancel]

/-- With no more pages than entries and no `u32` wrap, the pages in order partition
    `0 .. length - 1`, each page holding `⌊length / pagecount⌋` or `⌈length / pagecount⌉`. -/
theorem paging_partitions (nonempty : 1 ≤ pagecount.toNat)
    (fewer : pagecount.toNat ≤ length.toNat)
    (noWrap : length.toNat * pagecount.toNat + pagecount.toNat - 1 < 2^32) :
    (pages length pagecount).flatten = List.range length.toNat ∧
      ∀ page ∈ pages length pagecount, page.length = length.toNat / pagecount.toNat ∨
        page.length = (length.toNat + pagecount.toNat - 1) / pagecount.toNat := by
  rw [pages_fewer nonempty fewer noWrap]
  refine ⟨?_, ?_⟩
  · rw [flatten_ranges _ (fun _ _ le => pageStart_mono le), pageStart_zero nonempty,
      pageStart_last nonempty, List.range_eq_range', Nat.sub_zero]
  · intro page member
    obtain ⟨i, _, rfl⟩ := List.mem_map.mp member
    rw [List.length_range']
    exact pageStart_step nonempty i

theorem paging_ten_in_three :
    (pages 10 3).flatten = List.range 10 ∧
      ∀ page ∈ pages 10 3, page.length = 3 ∨ page.length = 4 :=
  @paging_partitions 10 3 (by decide) (by decide) (by decide)

/-- Without `u32` wrap, every page satisfies the documented `minindex <= maxindex <= length`. -/
theorem paging_within_of_noWrap (page : u32)
    (noWrap : length.toNat * pagecount.toNat + pagecount.toNat - 1 < 2^32) :
    (paging length page pagecount).1.toNat ≤ (paging length page pagecount).2.toNat ∧
      (paging length page pagecount).2.toNat ≤ length.toNat := by
  by_cases invalid : length.toNat = 0 ∨ pagecount.toNat = 0 ∨ page.toNat = 0 ∨
      pagecount.toNat < page.toNat
  · simp [paging_invalid invalid]
  by_cases fewer : pagecount.toNat ≤ length.toNat
  · have bounds := @paging_fewer _ page _ (by omega) (by omega) (by omega) fewer noWrap
    rw [bounds.1, bounds.2]
    exact ⟨pageStart_mono (Nat.sub_le _ 1), (pageStart_mono (by omega : page.toNat ≤
      pagecount.toNat)).trans_eq (pageStart_last (by omega))⟩
  · rw [paging_more (by omega) (by omega) (by omega) (by omega)]
    split
    · rename_i before
      have one : (1 : u32).toNat = 1 := rfl
      dsimp only
      rw [BitVec.lt_def] at before
      rw [BitVec.toNat_sub_of_le (BitVec.le_def.mpr (by omega)), one]
      omega
    · simp

theorem paging_within_last_page :
    (paging 10 3 3).1.toNat ≤ (paging 10 3 3).2.toNat ∧ (paging 10 3 3).2.toNat ≤ 10 :=
  paging_within_of_noWrap 3 (by decide)

theorem pages_more (nonempty : 1 ≤ length.toNat) (more : length.toNat < pagecount.toNat) :
    pages length pagecount =
      (List.range pagecount.toNat).map fun i => if i + 1 < length.toNat then [i] else [] := by
  apply List.map_congr_left
  intro i member
  have index : (BitVec.ofNat 32 (i + 1)).toNat = i + 1 := by
    have := List.mem_range.mp member
    have := pagecount.isLt
    simp only [BitVec.toNat_ofNat]
    omega
  have one : (1 : u32).toNat = 1 := rfl
  rw [paging_more (by omega) (by have := List.mem_range.mp member; omega) nonempty more]
  by_cases before : i + 1 < length.toNat
  · rw [if_pos (BitVec.lt_def.mpr (by omega)), if_pos before]
    dsimp only
    rw [BitVec.toNat_sub_of_le (BitVec.le_def.mpr (by omega)), index, one]
    simp
  · rw [if_neg (fun h => before (by rw [BitVec.lt_def] at h; omega)), if_neg before]
    rfl

/-- With more pages than entries, page `p` is `[p - 1, p)` while `p < length` and empty from
    page `length` on: the pages in order hold every entry but the last. -/
theorem paging_more_drops_last (nonempty : 1 ≤ length.toNat) (more : length.toNat < pagecount.toNat) :
    pages length pagecount =
        (List.range pagecount.toNat).map (fun i => if i + 1 < length.toNat then [i] else []) ∧
      (pages length pagecount).flatten = List.range (length.toNat - 1) := by
  refine ⟨pages_more nonempty more, ?_⟩
  simp only [pages_more nonempty more, ← Nat.lt_sub_iff_add_lt]
  rw [flatten_singletons_below, min_eq_right (by omega)]

theorem paging_three_in_five :
    pages 3 5 = (List.range 5).map (fun i => if i + 1 < 3 then [i] else []) ∧
      (pages 3 5).flatten = List.range 2 :=
  @paging_more_drops_last 3 5 (by decide) (by decide)

end Pages

/-- `pagecount > length`: the last entry is in no page, since page `length` is empty. -/
theorem paging_drops_last_entry : pages 1 2 = [[], []] := by decide

/-- `length * page` wraps: page 2 of `2^31` entries in 2 pages is `[2^30, 0)`. -/
theorem paging_wraps : paging 0x80000000 2 2 = (0x40000000, 0) := by decide

end NekoVoxel
