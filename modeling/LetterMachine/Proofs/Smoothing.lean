import LetterMachine.Proofs.Congruence
import LetterMachine.Proofs.Repetition
import LetterMachine.Proofs.Turning
import Mathlib.Algebra.Order.BigOperators.Group.Finset
import Mathlib.Data.Int.Lemmas
import Mathlib.Tactic.Linarith
import Mathlib.Tactic.Ring

/-!
# Smoothing

Mem replaces each balanced letter by the mean of itself and its two neighbours on the ring, cut off
towards zero.  A mean lies between the numbers that it is taken of, so that no letter leaves the
balanced range and none is wrapped around.

Again and again, mem makes all letters equal.  The sum of their squares tells why: the square of a
mean is below the mean of the squares, by an amount that the steps from letter to letter give.  So
the sum falls as long as there is a step on the ring.
-/

open Finset

namespace LetterMachine

/-! ## Means of three -/

theorem le_tdiv_three {n m : Int} (h : 3 * m ≤ n) : m ≤ n.tdiv 3 := by
  rcases le_total 0 n with hn | hn
  · rw [Int.tdiv_eq_ediv_of_nonneg hn]
    omega
  · rw [← Int.neg_neg n, Int.neg_tdiv, Int.tdiv_eq_ediv_of_nonneg (by omega)]
    omega

theorem tdiv_three_le {n m : Int} (h : n ≤ 3 * m) : n.tdiv 3 ≤ m := by
  have hneg := le_tdiv_three (n := -n) (m := -m) (by omega)
  rw [Int.neg_tdiv] at hneg
  omega

/-- Cutting off towards zero makes no square greater. -/
theorem sq_tdiv_three_le (n : Int) : (3 * n.tdiv 3) ^ 2 ≤ n ^ 2 := by
  have habs : (3 * n.tdiv 3).natAbs ≤ n.natAbs := by
    rw [Int.natAbs_mul, Int.natAbs_tdiv]
    exact Nat.mul_div_le n.natAbs 3
  exact Int.natAbs_le_iff_sq_le.mp habs

/-- The square of a mean, against the mean of the squares. -/
theorem sq_mean_le (x y z : Int) :
    9 * ((x + y + z).tdiv 3) ^ 2 + (y - z) ^ 2 ≤ 3 * (x ^ 2 + y ^ 2 + z ^ 2) := by
  have hcut := sq_tdiv_three_le (x + y + z)
  have hxy := sq_nonneg (x - y)
  have hzx := sq_nonneg (z - x)
  nlinarith

namespace State

/-- The least balanced letter. -/
def lowest (s : State) : Int :=
  (range (21 + 1)).inf' nonempty_range_add_one fun i => balanced (s.reg i)

/-- The greatest balanced letter. -/
def highest (s : State) : Int :=
  (range (21 + 1)).sup' nonempty_range_add_one fun i => balanced (s.reg i)

/-- The sum of the squares of the balanced letters. -/
def energy (s : State) : Int := ∑ i ∈ range 22, balanced (s.reg i) ^ 2

/-- The sum of the squares of the steps from letter to letter, around the ring. -/
def roughness (s : State) : Int :=
  ∑ i ∈ range 22, (balanced (s.reg i) - balanced (s.reg ((i + 1) % 22))) ^ 2

/-- All balanced letters are the same number. -/
def Level (s : State) (b : Int) : Prop := ∀ i < 22, balanced (s.reg i) = b

variable (s : State)

/-! ## One step -/

theorem reg_mem {i : Nat} (h : i < 22) :
    (Opcode.mem.run s).reg i = residue (Opcode.neighbourMean s.reg i) := by
  rw [Opcode.reg_run .mem s (by omega)]
  simp [Opcode.entry, h]

theorem acc_mem :
    (Opcode.mem.run s).acc =
      residue ((∑ i ∈ range 22, Opcode.neighbourMean s.reg i).tdiv 22) :=
  Opcode.acc_run .mem s

/-- A mean of balanced letters is balanced, so that it is read as it is. -/
theorem balanced_reg_mem {i : Nat} (h : i < 22) :
    balanced ((Opcode.mem.run s).reg i) = Opcode.neighbourMean s.reg i := by
  have hlow := fun j => neg_eleven_le_balanced (s.reg j)
  have hhigh := fun j => balanced_le_ten (s.reg j)
  rw [s.reg_mem h, balanced_congr (residue_modEq _)]
  apply balanced_eq_self
  · apply le_tdiv_three
    linarith [hlow ((i + 21) % 22), hlow i, hlow ((i + 1) % 22)]
  · apply tdiv_three_le
    linarith [hhigh ((i + 21) % 22), hhigh i, hhigh ((i + 1) % 22)]

theorem lowest_le_mem : s.lowest ≤ (Opcode.mem.run s).lowest := by
  have hle : ∀ j < 22, s.lowest ≤ balanced (s.reg j) :=
    fun j hj => inf'_le (fun i => balanced (s.reg i)) (mem_range.mpr hj)
  apply le_inf'
  intro i hi
  have hi : i < 22 := mem_range.mp hi
  rw [s.balanced_reg_mem hi]
  apply le_tdiv_three
  linarith [hle ((i + 21) % 22) (by omega), hle i hi, hle ((i + 1) % 22) (by omega)]

theorem highest_mem_le : (Opcode.mem.run s).highest ≤ s.highest := by
  have hle : ∀ j < 22, balanced (s.reg j) ≤ s.highest :=
    fun j hj => le_sup' (fun i => balanced (s.reg i)) (mem_range.mpr hj)
  apply sup'_le
  intro i hi
  have hi : i < 22 := mem_range.mp hi
  rw [s.balanced_reg_mem hi]
  apply tdiv_three_le
  linarith [hle ((i + 21) % 22) (by omega), hle i hi, hle ((i + 1) % 22) (by omega)]

/-- Mem takes a ninth of the roughness off the energy at least. -/
theorem energy_mem_le : 9 * (Opcode.mem.run s).energy + s.roughness ≤ 9 * s.energy := by
  let b : Nat → Int := fun i => balanced (s.reg i)
  have hletter : ∀ i ∈ range 22,
      9 * balanced ((Opcode.mem.run s).reg i) ^ 2 + (b i - b ((i + 1) % 22)) ^ 2 ≤
        3 * (b ((i + 21) % 22) ^ 2 + b i ^ 2 + b ((i + 1) % 22) ^ 2) := by
    intro i hi
    rw [s.balanced_reg_mem (mem_range.mp hi)]
    exact sq_mean_le _ _ _
  calc 9 * (Opcode.mem.run s).energy + s.roughness
      = ∑ i ∈ range 22,
          (9 * balanced ((Opcode.mem.run s).reg i) ^ 2 + (b i - b ((i + 1) % 22)) ^ 2) := by
        rw [sum_add_distrib, ← mul_sum]
        rfl
    _ ≤ ∑ i ∈ range 22, 3 * (b ((i + 21) % 22) ^ 2 + b i ^ 2 + b ((i + 1) % 22) ^ 2) :=
        sum_le_sum hletter
    _ = 3 * (s.energy + s.energy + s.energy) := by
        -- each letter stands in three means
        rw [← mul_sum, sum_add_distrib, sum_add_distrib, sum_range_turn (b · ^ 2),
          sum_range_turn (b · ^ 2)]
        rfl
    _ = 9 * s.energy := by ring

theorem roughness_nonneg : 0 ≤ s.roughness := sum_nonneg fun _ _ => sq_nonneg _

/-- Without a step on the ring all letters are the first one. -/
theorem level_of_roughness (h : s.roughness = 0) : s.Level (balanced (s.reg 0)) := by
  have hsteps := (sum_eq_zero_iff_of_nonneg fun _ _ => sq_nonneg _).mp h
  intro i hi
  induction i with
  | zero => rfl
  | succ i ih =>
    have hstep := pow_eq_zero_iff (two_ne_zero) |>.mp (hsteps i (mem_range.mpr (by omega)))
    rw [Nat.mod_eq_of_lt hi] at hstep
    rw [← ih (by omega)]
    omega

theorem energy_mem_lt (h : s.roughness ≠ 0) : (Opcode.mem.run s).energy < s.energy := by
  have hle := s.energy_mem_le
  have hpos := s.roughness_nonneg
  omega

/-! ## Level states -/

section

variable {s} {b : Int} (h : s.Level b)
include h

theorem neighbourMean_of_level {i : Nat} (hi : i < 22) : Opcode.neighbourMean s.reg i = b := by
  have hthree : b + b + b = b * 3 := by ring
  unfold Opcode.neighbourMean
  rw [h _ (by omega), h i hi, h _ (by omega), hthree]
  exact Int.mul_tdiv_cancel b (by decide)

theorem reg_mem_of_level {i : Nat} (hi : i < 22) : (Opcode.mem.run s).reg i = residue b := by
  rw [s.reg_mem hi, neighbourMean_of_level h hi]

theorem acc_mem_of_level : (Opcode.mem.run s).acc = residue b := by
  have hsum : ∑ i ∈ range 22, Opcode.neighbourMean s.reg i = b * 22 := by
    rw [sum_congr rfl fun i hi => neighbourMean_of_level h (mem_range.mp hi)]
    simp [mul_comm]
  rw [acc_mem, hsum, Int.mul_tdiv_cancel b (by decide)]

theorem Level.mem : (Opcode.mem.run s).Level b := by
  intro i hi
  rw [s.balanced_reg_mem hi, neighbourMean_of_level h hi]

theorem mem_mem_of_level : Opcode.mem.run (Opcode.mem.run s) = Opcode.mem.run s := by
  apply ext_reg
  · intro i hi
    rw [reg_mem_of_level h.mem hi, reg_mem_of_level h hi]
  · rw [acc_mem_of_level h.mem, acc_mem_of_level h]

end

/-! ## Mem again and again -/

theorem exists_level : ∃ n b, (s.afterTimes n (.ofOpcode .mem)).Level b := by
  -- on the energy, which falls as long as the ring is rough
  induction henergy : s.energy.toNat using Nat.strong_induction_on generalizing s with
  | h e ih =>
    by_cases hrough : s.roughness = 0
    · exact ⟨0, _, s.level_of_roughness hrough⟩
    · have hfall := s.energy_mem_lt hrough
      have hnonneg : 0 ≤ (Opcode.mem.run s).energy := sum_nonneg fun _ _ => sq_nonneg _
      obtain ⟨n, b, hlevel⟩ := ih _ (by omega) (Opcode.mem.run s) rfl
      refine ⟨n + 1, b, ?_⟩
      rw [← afterTimes_apply]
      exact hlevel

/-- Mem makes each balanced letter the mean of itself and its neighbours, cut off towards zero, and
never leaves the range of these three.  Again and again, it makes all letters and the accumulator
one residue, and then it changes nothing. -/
theorem smooths_to_level (s : State) :
    let mem := Instruction.ofOpcode .mem
    (∀ i < 22,
      let before := balanced (s.reg ((i + 21) % 22))
      let own := balanced (s.reg i)
      let behind := balanced (s.reg ((i + 1) % 22))
      let next := balanced ((mem.apply s).reg i)
      next = (before + own + behind).tdiv 3 ∧
        min before (min own behind) ≤ next ∧ next ≤ max before (max own behind)) ∧
      s.lowest ≤ (mem.apply s).lowest ∧ (mem.apply s).highest ≤ s.highest ∧
      ∃ n ≥ 1, ∃ c, 0 ≤ c ∧ c < 22 ∧
        (∀ i < 22, (s.afterTimes n mem).reg i = c) ∧ (s.afterTimes n mem).acc = c ∧
        ∀ k ≥ n, s.afterTimes k mem = s.afterTimes n mem := by
  intro mem
  refine ⟨fun i hi => ?_, s.lowest_le_mem, s.highest_mem_le, ?_⟩
  · intro before own behind next
    have hnext : next = (before + own + behind).tdiv 3 := s.balanced_reg_mem hi
    refine ⟨hnext, ?_, ?_⟩
    · rw [hnext]
      exact le_tdiv_three (by omega)
    · rw [hnext]
      exact tdiv_three_le (by omega)
  -- one step more, as level letters need not be reduced, nor the accumulator be theirs
  · obtain ⟨n, b, hlevel⟩ := s.exists_level
    have hstep : s.afterTimes (n + 1) mem = Opcode.mem.run (s.afterTimes n mem) :=
      s.afterTimes_succ mem n
    refine ⟨n + 1, by omega, residue b, residue_nonneg b, residue_lt b, fun i hi => ?_, ?_, ?_⟩
    · rw [hstep]
      exact reg_mem_of_level hlevel hi
    · rw [hstep]
      exact acc_mem_of_level hlevel
    · intro k hk
      apply s.afterTimes_of_rest mem _ hk
      rw [hstep]
      exact mem_mem_of_level hlevel

/-- A single letter of ten between letters of minus eleven, and letters beyond the residues: the
mean is cut off towards zero. -/
theorem smooths_to_level_peak :
    let mem := Instruction.ofOpcode .mem
    let s := ofSlots fun j => if j.val = 0 then 32 else 22 * j.val + 11
    balanced ((mem.apply s).reg 0) = -4 ∧ -11 ≤ balanced ((mem.apply s).reg 0) ∧
      balanced ((mem.apply s).reg 0) ≤ 10 ∧
      ∃ n ≥ 1, s.afterTimes (n + 1) mem = s.afterTimes n mem := by
  intro mem s
  obtain ⟨hletters, -, -, n, hn, c, -, -, -, -, hrest⟩ := s.smooths_to_level
  obtain ⟨hmean, hlow, hhigh⟩ := hletters 0 (by decide)
  refine ⟨hmean.trans (by decide +kernel), ?_, ?_, n, hn, hrest (n + 1) (by omega)⟩
  · exact le_trans (by decide +kernel) hlow
  · exact le_trans hhigh (by decide +kernel)

end State

end LetterMachine
