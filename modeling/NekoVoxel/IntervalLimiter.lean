import NekoVoxel.Types
import Mathlib.Algebra.Order.BigOperators.Group.List

/-!
`IntervalLimiter`: an accumulator of elapsed time that `step` answers `true` once a wanted
interval has built up, paying that interval out of the accumulator. A run is a caller that
steps the limiter with one fixed interval; time is exact rational arithmetic.
-/
namespace NekoVoxel

structure IntervalLimiter where
  m_accumulator : ℚ := 0
  deriving DecidableEq, Repr

namespace IntervalLimiter

def step (l : IntervalLimiter) (dtime wanted_interval : ℚ) : Bool × IntervalLimiter :=
  let m_accumulator := l.m_accumulator + dtime
  if m_accumulator < wanted_interval then (false, ⟨m_accumulator⟩)
  else (true, ⟨m_accumulator - wanted_interval⟩)

/-- The answers of `step` to the elapsed times `dtimes` in order, and the final limiter. -/
def run (l : IntervalLimiter) (wanted_interval : ℚ) : List ℚ → List Bool × IntervalLimiter
  | [] => ([], l)
  | dtime :: dtimes =>
    let (answer, l) := l.step dtime wanted_interval
    let (answers, l) := l.run wanted_interval dtimes
    (answer :: answers, l)

theorem step_cases (l : IntervalLimiter) (dtime w : ℚ) :
    (l.m_accumulator + dtime < w ∧ l.step dtime w = (false, ⟨l.m_accumulator + dtime⟩)) ∨
      (w ≤ l.m_accumulator + dtime ∧ l.step dtime w = (true, ⟨l.m_accumulator + dtime - w⟩)) := by
  by_cases short : l.m_accumulator + dtime < w
  · exact .inl ⟨short, if_pos short⟩
  · exact .inr ⟨not_lt.mp short, if_neg short⟩

theorem step_below {l : IntervalLimiter} {dtime w : ℚ} (low : 0 ≤ l.m_accumulator)
    (high : l.m_accumulator < w) (elapsed : 0 ≤ dtime ∧ dtime ≤ w) :
    0 ≤ (l.step dtime w).2.m_accumulator ∧ (l.step dtime w).2.m_accumulator < w := by
  rcases step_cases l dtime w with ⟨short, stepped⟩ | ⟨full, stepped⟩ <;> rw [stepped] <;>
    constructor <;> dsimp only <;> linarith [elapsed.1, elapsed.2]

theorem run_cons (l : IntervalLimiter) (w dtime : ℚ) (dtimes : List ℚ) :
    l.run w (dtime :: dtimes) =
      ((l.step dtime w).1 :: ((l.step dtime w).2.run w dtimes).1,
        ((l.step dtime w).2.run w dtimes).2) := rfl

theorem run_conserves (w : ℚ) (dtimes : List ℚ) :
    ∀ l : IntervalLimiter, l.m_accumulator + dtimes.sum =
      ((l.run w dtimes).1.count true : ℚ) * w + (l.run w dtimes).2.m_accumulator := by
  induction dtimes with
  | nil => intro l; simp [run]
  | cons dtime dtimes ih =>
    intro l
    have rest := ih (l.step dtime w).2
    rw [run_cons, List.sum_cons]
    rcases step_cases l dtime w with ⟨-, stepped⟩ | ⟨-, stepped⟩ <;> rw [stepped] at rest ⊢ <;>
      simp at rest ⊢ <;> linarith

theorem run_below {w : ℚ} (dtimes : List ℚ) (elapsed : ∀ d ∈ dtimes, 0 ≤ d ∧ d ≤ w) :
    ∀ {l : IntervalLimiter}, 0 ≤ l.m_accumulator → l.m_accumulator < w →
      0 ≤ (l.run w dtimes).2.m_accumulator ∧ (l.run w dtimes).2.m_accumulator < w := by
  induction dtimes with
  | nil => exact fun low high => ⟨low, high⟩
  | cons dtime dtimes ih =>
    intro l low high
    have next := step_below low high (elapsed dtime (List.mem_cons_self _ _))
    exact ih (fun d member => elapsed d (List.mem_cons_of_mem _ member)) next.1 next.2

end IntervalLimiter

/-- From a fresh limiter stepped with a fixed interval and no step longer than it, `step`
    answers `true` exactly `⌊T / wanted_interval⌋` times over a run of total time `T`: every
    answer pays one interval, and less than one interval is left unpaid. -/
theorem intervalLimiter_counts_intervals (w : ℚ) (positive : 0 < w) (dtimes : List ℚ)
    (elapsed : ∀ d ∈ dtimes, 0 ≤ d ∧ d ≤ w) :
    (({} : IntervalLimiter).run w dtimes).1.count true = ⌊dtimes.sum / w⌋₊ ∧
      dtimes.sum = ((({} : IntervalLimiter).run w dtimes).1.count true : ℚ) * w +
        (({} : IntervalLimiter).run w dtimes).2.m_accumulator ∧
      0 ≤ (({} : IntervalLimiter).run w dtimes).2.m_accumulator ∧
      (({} : IntervalLimiter).run w dtimes).2.m_accumulator < w := by
  have conserved := IntervalLimiter.run_conserves w dtimes {}
  have below := IntervalLimiter.run_below dtimes elapsed (l := {}) le_rfl positive
  rw [zero_add] at conserved
  refine ⟨?_, conserved, below⟩
  have total : 0 ≤ dtimes.sum := List.sum_nonneg fun d member => (elapsed d member).1
  rw [eq_comm, Nat.floor_eq_iff (div_nonneg total positive.le), le_div_iff₀ positive,
    div_lt_iff₀ positive]
  constructor <;> linarith [below.1, below.2]

theorem intervalLimiter_two_of_three :
    (({} : IntervalLimiter).run 1 [1/2, 1/2, 1]).1.count true = ⌊([1/2, 1/2, 1] : List ℚ).sum / 1⌋₊ :=
  (intervalLimiter_counts_intervals 1 (by norm_num) [1/2, 1/2, 1] (by norm_num)).1

end NekoVoxel
