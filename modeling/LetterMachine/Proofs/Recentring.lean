import LetterMachine.Proofs.Congruence
import LetterMachine.Proofs.Repetition
import Mathlib.Algebra.Order.BigOperators.Group.Finset

/-!
# Recentring

Lamed takes the mean of the balanced letters off each of them, and puts their sum into the
accumulator.  A letter that leaves the balanced range is wrapped around, so that the sum may even
grow: by 22 for each letter that falls below the range, and it falls by 22 for each letter above it.

Seen from outside, lamed moves the point that the letters are read from.  If this point moves on by
one, the sum of the readings falls by 22 at most, and the readings of a letter from all 22 points
add up to -11.  So the sum cannot stay above 21 from all points, nor below -21, and lamed, which
moves by the mean, never moves beyond the first point where it does not.
-/

open Finset

namespace LetterMachine

/-! ## Balanced numbers -/

/-- A number that is one turn beyond the range at most is brought back by one turn. -/
theorem balanced_eq_wrapped {x : Int} (hlow : -33 ≤ x) (hhigh : x ≤ 32) :
    balanced x = if x < -11 then x + 22 else if 10 < x then x - 22 else x := by
  unfold balanced residue
  split <;> split <;> omega

theorem balanced_le_pred (x : Int) : balanced x ≤ balanced (x - 1) + 1 := by
  unfold balanced residue
  split <;> split <;> omega

/-- The readings of a number from all points of the ring, in either direction. -/
theorem sum_balanced_sub {σ : Int} (hσ : σ = 1 ∨ σ = -1) (x : Int) :
    ∑ d ∈ range 22, balanced (x - σ * (d : Nat)) = -11 := by
  have hresidues : ∀ σ ∈ [(1 : Int), -1], ∀ r ∈ range 22,
      ∑ d ∈ range 22, balanced ((r : Nat) - σ * (d : Nat)) = -11 := by decide
  have hdirection : σ ∈ [(1 : Int), -1] := by
    rw [List.mem_pair]
    exact hσ
  obtain ⟨r, hr, hx⟩ := exists_modEq_range x
  rw [← hresidues σ hdirection r hr]
  exact sum_congr rfl fun d _ => balanced_congr (hx.sub_right _)

namespace State

/-- The sum of the balanced letters. -/
def balancedSum (s : State) : Int := Row.sum (Row.balance s.letters)

/-- The mean of the balanced letters, cut off towards zero. -/
def balancedMean (s : State) : Int := s.balancedSum.tdiv 22

/-- Along the direction of the sum, the mean is that of numbers that are not negative. -/
theorem balancedMean_spec {s : State} {σ : Int} (hσ : σ = 1 ∨ σ = -1)
    (hs : 0 ≤ σ * s.balancedSum) :
    ∃ m : Nat, s.balancedMean = σ * m ∧ 22 * m ≤ σ * s.balancedSum ∧
      σ * s.balancedSum < 22 * m + 22 := by
  unfold balancedMean
  generalize s.balancedSum = n at hs ⊢
  rcases hσ with rfl | rfl
  · refine ⟨(n / 22).toNat, ?_, by omega, by omega⟩
    rw [Int.tdiv_eq_ediv_of_nonneg (by omega)]
    omega
  · refine ⟨(-n / 22).toNat, ?_, by omega, by omega⟩
    rw [← Int.neg_neg n, Int.neg_tdiv, Int.tdiv_eq_ediv_of_nonneg (by omega)]
    omega

/-- The sum of the balanced letters as they are read from a point of the ring. -/
def sumFrom (s : State) (c : Int) : Int := ∑ i ∈ range 22, balanced (s.reg i - c)

/-- The state after lamed so many times. -/
def recentred (s : State) (n : Nat) : State :=
  s.after (List.replicate n (Instruction.ofOpcode .lamed))

section

variable (s : State)

theorem sumFrom_zero : s.sumFrom 0 = s.balancedSum := by
  unfold sumFrom balancedSum
  rw [sum_balance]
  simp

theorem balancedSum_bounds : -242 ≤ s.balancedSum ∧ s.balancedSum ≤ 220 := by
  unfold balancedSum
  rw [sum_balance]
  constructor
  · calc (-242 : Int) = ∑ _i ∈ range 22, (-11 : Int) := by simp
      _ ≤ _ := sum_le_sum fun i _ => neg_eleven_le_balanced _
  · calc _ ≤ ∑ _i ∈ range 22, (10 : Int) := sum_le_sum fun i _ => balanced_le_ten _
      _ = 220 := by simp

theorem exists_direction : ∃ σ : Int, (σ = 1 ∨ σ = -1) ∧ 0 ≤ σ * s.balancedSum := by
  rcases le_total 0 s.balancedSum with h | h
  · exact ⟨1, .inl rfl, by omega⟩
  · exact ⟨-1, .inr rfl, by omega⟩

theorem balancedMean_bounds : -11 ≤ s.balancedMean ∧ s.balancedMean ≤ 10 := by
  obtain ⟨hlow, hhigh⟩ := s.balancedSum_bounds
  obtain ⟨σ, hσ, hsum⟩ := s.exists_direction
  obtain ⟨m, hmean, hle, -⟩ := balancedMean_spec hσ hsum
  rcases hσ with rfl | rfl <;> omega

theorem balancedMean_eq_zero (h : |s.balancedSum| < 22) : s.balancedMean = 0 := by
  obtain ⟨hlow, hhigh⟩ := abs_lt.mp h
  obtain ⟨σ, hσ, hsum⟩ := s.exists_direction
  obtain ⟨m, hmean, hle, -⟩ := balancedMean_spec hσ hsum
  rcases hσ with rfl | rfl <;> omega

theorem sum_sub_balancedMean :
    ∑ i ∈ range 22, (balanced (s.reg i) - s.balancedMean) =
      s.balancedSum - 22 * s.balancedMean := by
  unfold balancedSum
  rw [sum_sub_distrib, sum_balance]
  simp

theorem recentred_succ (n : Nat) :
    s.recentred (n + 1) = Opcode.lamed.run (s.recentred n) :=
  s.afterTimes_succ (.ofOpcode .lamed) n

/-! ## One step -/

theorem reg_lamed {i : Nat} (h : i < 22) :
    (Opcode.lamed.run s).reg i = residue (balanced (s.reg i) - s.balancedMean) := by
  rw [Opcode.reg_run .lamed s (by omega)]
  unfold balancedMean balancedSum
  rw [sum_balance]
  simp [Opcode.entry, h]

theorem acc_lamed : (Opcode.lamed.run s).acc = residue s.balancedSum := rfl

/-- Lamed moves the point that the letters are read from by their mean. -/
theorem sumFrom_lamed (c : Int) :
    (Opcode.lamed.run s).sumFrom c = s.sumFrom (s.balancedMean + c) := by
  unfold sumFrom
  refine sum_congr rfl fun i hi => balanced_congr ?_
  rw [s.reg_lamed (mem_range.mp hi), ← sub_sub]
  exact (((residue_modEq _).trans ((balanced_modEq _).sub_right _))).sub_right _

theorem balancedSum_lamed : (Opcode.lamed.run s).balancedSum = s.sumFrom s.balancedMean := by
  rw [← sumFrom_zero, sumFrom_lamed, add_zero]

theorem balancedSum_lamed_modEq :
    (Opcode.lamed.run s).balancedSum ≡ s.balancedSum [ZMOD 22] := by
  have hletters : s.sumFrom s.balancedMean ≡
      ∑ i ∈ range 22, (balanced (s.reg i) - s.balancedMean) [ZMOD 22] :=
    Int.ModEq.sum fun i _ => (balanced_modEq _).trans ((balanced_modEq _).symm.sub_right _)
  rw [balancedSum_lamed]
  rw [sum_sub_balancedMean] at hletters
  refine hletters.trans ?_
  exact Int.modEq_iff_dvd.mpr ⟨s.balancedMean, by omega⟩

/-- Behind lamed, letters that add up to less than 22 stay as they are. -/
theorem lamed_lamed (h : |(Opcode.lamed.run s).balancedSum| < 22) :
    Opcode.lamed.run (Opcode.lamed.run s) = Opcode.lamed.run s := by
  have hmean := balancedMean_eq_zero _ h
  -- the letters lose nothing, and the accumulator has the residue of the sum already
  apply ext_reg
  · intro n hn
    rw [reg_lamed _ hn, hmean, sub_zero, residue_balanced, reg_lamed _ hn]
    exact residue_congr (residue_modEq _)
  · rw [acc_lamed, acc_lamed]
    exact residue_congr s.balancedSum_lamed_modEq

/-! ## Letters that wrap around -/

/-- The letters that fall below the balanced range as the mean is taken off. -/
def fallen (s : State) : Finset Nat :=
  {i ∈ range 22 | balanced (s.reg i) - s.balancedMean < -11}

/-- The letters that rise above the balanced range as the mean is taken off. -/
def risen (s : State) : Finset Nat :=
  {i ∈ range 22 | 10 < balanced (s.reg i) - s.balancedMean}

theorem balanced_reg_lamed {i : Nat} (h : i < 22) :
    balanced ((Opcode.lamed.run s).reg i) =
      let x := balanced (s.reg i) - s.balancedMean
      if x < -11 then x + 22 else if 10 < x then x - 22 else x := by
  obtain ⟨hlow, hhigh⟩ := s.balancedMean_bounds
  have hlow' := neg_eleven_le_balanced (s.reg i)
  have hhigh' := balanced_le_ten (s.reg i)
  rw [s.reg_lamed h, balanced_congr (residue_modEq _)]
  exact balanced_eq_wrapped (by omega) (by omega)

theorem balancedSum_lamed_eq :
    (Opcode.lamed.run s).balancedSum =
      s.balancedSum - 22 * s.balancedMean + 22 * (#s.fallen - #s.risen) := by
  have hfallen : (#s.fallen : Int) =
      ∑ i ∈ range 22, if balanced (s.reg i) - s.balancedMean < -11 then 1 else 0 :=
    (sum_boole _ _).symm
  have hrisen : (#s.risen : Int) =
      ∑ i ∈ range 22, if 10 < balanced (s.reg i) - s.balancedMean then 1 else 0 :=
    (sum_boole _ _).symm
  have hsum : (Opcode.lamed.run s).balancedSum =
      ∑ i ∈ range 22, balanced ((Opcode.lamed.run s).reg i) := sum_balance _
  rw [hsum, hfallen, hrisen, ← sum_sub_balancedMean, ← sum_sub_distrib, mul_sum, ← sum_add_distrib]
  refine sum_congr rfl fun i hi => ?_
  rw [s.balanced_reg_lamed (mem_range.mp hi)]
  dsimp only
  split
  · rw [if_neg (by omega)]
    omega
  · split <;> omega

/-- Letters fall or rise with the sign of the mean, and never both. -/
theorem fallen_or_risen_empty : s.fallen = ∅ ∨ s.risen = ∅ := by
  rcases le_total 0 s.balancedMean with h | h
  · refine .inr (filter_eq_empty_iff.mpr fun i _ => ?_)
    have hhigh := balanced_le_ten (s.reg i)
    omega
  · refine .inl (filter_eq_empty_iff.mpr fun i _ => ?_)
    have hlow := neg_eleven_le_balanced (s.reg i)
    omega

/-- What is left of the sum where the mean is taken off 22 times. -/
theorem sub_balancedMean :
    s.balancedSum - 22 * s.balancedMean = s.balancedSum.tmod 22 ∧
      |s.balancedSum.tmod 22| < 22 ∧
      (s.balancedSum.tmod 22 = 0 ∨ (s.balancedSum.tmod 22).sign = s.balancedSum.sign) := by
  have hparts : 22 * s.balancedMean + s.balancedSum.tmod 22 = s.balancedSum :=
    Int.mul_tdiv_add_tmod s.balancedSum 22
  obtain ⟨σ, hσ, hsum⟩ := s.exists_direction
  obtain ⟨m, hmean, hle, hlt⟩ := balancedMean_spec hσ hsum
  refine ⟨by omega, ?_, ?_⟩
  · rw [abs_lt]
    rcases hσ with rfl | rfl <;> omega
  · by_cases hzero : s.balancedSum.tmod 22 = 0
    · exact .inl hzero
    · right
      rcases hσ with rfl | rfl
      · rw [Int.sign_eq_one_of_pos (by omega), Int.sign_eq_one_of_pos (by omega)]
      · rw [Int.sign_eq_neg_one_of_neg (by omega), Int.sign_eq_neg_one_of_neg (by omega)]

end

/-- Lamed takes 22 means off the balanced sum, and adds 22 for each letter that falls below the
balanced range and takes 22 off for each that rises above it; letters do not do both at once, and
each is wrapped around once at most.  If none is, the remainder is left, and a second time changes
nothing. -/
theorem balancedSum_apply_lamed (s : State) :
    let next := (Instruction.ofOpcode .lamed).apply s
    next.balancedSum = s.balancedSum - 22 * s.balancedMean + 22 * (#s.fallen - #s.risen) ∧
      (#s.fallen = 0 ∨ #s.risen = 0) ∧
      (∀ i < 22, balanced (next.reg i) =
        let x := balanced (s.reg i) - s.balancedMean
        if x < -11 then x + 22 else if 10 < x then x - 22 else x) ∧
      (#s.fallen = 0 → #s.risen = 0 →
        next.balancedSum = s.balancedSum.tmod 22 ∧ |next.balancedSum| < 22 ∧
          (next.balancedSum = 0 ∨ next.balancedSum.sign = s.balancedSum.sign) ∧
          (Instruction.ofOpcode .lamed).apply next = next) := by
  intro next
  have hlaw : next.balancedSum =
      s.balancedSum - 22 * s.balancedMean + 22 * (#s.fallen - #s.risen) := s.balancedSum_lamed_eq
  refine ⟨hlaw, ?_, fun i hi => s.balanced_reg_lamed hi, fun hfallen hrisen => ?_⟩
  · rw [card_eq_zero, card_eq_zero]
    exact s.fallen_or_risen_empty
  · obtain ⟨hrest, hsmall, hsign⟩ := s.sub_balancedMean
    have hnext : next.balancedSum = s.balancedSum.tmod 22 := by
      rw [hlaw, hfallen, hrisen, ← hrest]
      omega
    rw [hnext]
    refine ⟨rfl, hsmall, hsign, s.lamed_lamed ?_⟩
    show |next.balancedSum| < 22
    rw [hnext]
    exact hsmall

/-- Ten letters of four and twelve of three lose a mean of three, and none wraps around. -/
theorem balancedSum_apply_lamed_fours :
    let s := State.ofSlots fun j => if j.val < 10 then 4 else 3
    let next := (Instruction.ofOpcode .lamed).apply s
    (#s.fallen = 0 ∧ #s.risen = 0) ∧ next.balancedSum = 10 ∧
      (Instruction.ofOpcode .lamed).apply next = next := by
  intro s next
  have hfallen : #s.fallen = 0 := by decide +kernel
  have hrisen : #s.risen = 0 := by decide +kernel
  obtain ⟨-, -, -, hrest⟩ := s.balancedSum_apply_lamed
  obtain ⟨hsum, -, -, hagain⟩ := hrest hfallen hrisen
  exact ⟨⟨hfallen, hrisen⟩, hsum.trans (by decide +kernel), hagain⟩

/-- A letter that wraps around makes the sum go beyond the remainder. -/
example :
    let s := State.ofSlots fun j => if j.val = 0 then 11 else 10
    ((Instruction.ofOpcode .lamed).apply s).balancedSum = 23 ∧ #s.fallen = 1 := by
  decide +kernel

/-! ## Lamed again and again -/

section

variable (s : State)

theorem sumFrom_le_succ (c : Int) : s.sumFrom c ≤ s.sumFrom (c + 1) + 22 := by
  have hone : ∀ i ∈ range 22, balanced (s.reg i - c) ≤ balanced (s.reg i - (c + 1)) + 1 := by
    intro i _
    rw [← sub_sub]
    exact balanced_le_pred _
  calc s.sumFrom c ≤ ∑ i ∈ range 22, (balanced (s.reg i - (c + 1)) + 1) := sum_le_sum hone
    _ = s.sumFrom (c + 1) + 22 := by rw [sum_add_distrib]; rfl

theorem sumFrom_le_add (c : Int) (k : Nat) : s.sumFrom c ≤ s.sumFrom (c + k) + 22 * k := by
  induction k with
  | zero => simp
  | succ k ih =>
    have hstep := s.sumFrom_le_succ (c + k)
    rw [Nat.cast_succ, ← add_assoc]
    omega

section

variable {σ : Int} (hσ : σ = 1 ∨ σ = -1)
include hσ

/-- In either direction, the sum falls by 22 at most from one point to the next. -/
theorem mul_balancedSum_le (k : Nat) :
    σ * s.balancedSum ≤ σ * s.sumFrom (σ * k) + 22 * k := by
  rw [← sumFrom_zero]
  rcases hσ with rfl | rfl
  · have h := s.sumFrom_le_add 0 k
    rw [zero_add] at h
    rw [one_mul, one_mul, one_mul]
    exact h
  · have h := s.sumFrom_le_add (-1 * k) k
    have hback : -1 * (k : Int) + k = 0 := by omega
    rw [hback] at h
    omega

/-- The readings of all letters from all points add up to a number that no letter has a part in. -/
theorem sum_sumFrom : ∑ d ∈ range 22, s.sumFrom (σ * (d : Nat)) = -242 := by
  unfold sumFrom
  rw [sum_comm, sum_congr rfl fun i _ => sum_balanced_sub hσ (s.reg i)]
  rfl

/-- In either direction, the sum is below 22 from some point. -/
theorem exists_sumFrom_lt : ∃ d < 22, σ * s.sumFrom (σ * (d : Nat)) < 22 := by
  have hlt : ∑ d ∈ range 22, σ * s.sumFrom (σ * (d : Nat)) < ∑ _d ∈ range 22, (22 : Int) := by
    rw [← mul_sum, s.sum_sumFrom hσ]
    rcases hσ with rfl | rfl <;> decide
  obtain ⟨d, hd, hlow⟩ := exists_lt_of_sum_lt hlt
  exact ⟨d, mem_range.mp hd, hlow⟩

/-- If the sum is low from a point in its direction, lamed comes to rest within as many steps. -/
theorem exists_rest {s : State} {d : Nat} (hs : 0 ≤ σ * s.balancedSum)
    (hd : σ * s.sumFrom (σ * d) < 22) : ∃ n ≤ d, |(s.recentred n).balancedSum| < 22 := by
  -- on the way that is left to the low point: the sum keeps its sign until it is small
  induction d using Nat.strong_induction_on generalizing s with
  | h d ih =>
    by_cases hsmall : |s.balancedSum| < 22
    · exact ⟨0, Nat.zero_le d, hsmall⟩
    · obtain ⟨m, hmean, hle, hlt⟩ := balancedMean_spec hσ hs
      have hfar : 22 ≤ σ * s.balancedSum := by
        rw [abs_lt] at hsmall
        rcases hσ with rfl | rfl <;> omega
      -- the mean does not lead beyond the point where the sum is low
      have hmd : m ≤ d := by
        have hfall := s.mul_balancedSum_le hσ d
        omega
      let next := Opcode.lamed.run s
      have hnext : 0 ≤ σ * next.balancedSum := by
        have hfall := s.mul_balancedSum_le hσ m
        rw [balancedSum_lamed, hmean]
        omega
      have hlow : σ * next.sumFrom (σ * (d - m : Nat)) < 22 := by
        rw [sumFrom_lamed, hmean, ← mul_add, ← Nat.cast_add, Nat.add_sub_cancel' hmd]
        exact hd
      obtain ⟨n, hn, hrest⟩ := ih (d - m) (by omega) hnext hlow
      have hafter : s.recentred (n + 1) = next.recentred n := rfl
      exact ⟨n + 1, by omega, hafter ▸ hrest⟩

end

theorem balancedSum_recentred_modEq (n : Nat) :
    (s.recentred n).balancedSum ≡ s.balancedSum [ZMOD 22] := by
  induction n with
  | zero => rfl
  | succ n ih =>
    rw [recentred_succ]
    exact (balancedSum_lamed_modEq _).trans ih

/-- Where the sum is small, lamed changes the letters for the last time, and keeps the sum. -/
theorem lamed_of_small (h : |s.balancedSum| < 22) :
    (Opcode.lamed.run s).balancedSum = s.balancedSum ∧
      Opcode.lamed.run (Opcode.lamed.run s) = Opcode.lamed.run s := by
  have hsum : (Opcode.lamed.run s).balancedSum = s.balancedSum := by
    rw [balancedSum_lamed, s.balancedMean_eq_zero h, sumFrom_zero]
  refine ⟨hsum, s.lamed_lamed ?_⟩
  rw [hsum]
  exact h

theorem recentred_of_rest {n : Nat}
    (h : Opcode.lamed.run (s.recentred n) = s.recentred n) {k : Nat} (hk : n ≤ k) :
    s.recentred k = s.recentred n :=
  s.afterTimes_of_rest (.ofOpcode .lamed) h hk

/-- Lamed comes to rest within 22 steps: from there on the state stays the same, and the balanced
letters add up to less than 22.  All the way the accumulator holds the residue of the first sum. -/
theorem exists_recentred_rest :
    ∃ n, 1 ≤ n ∧ n ≤ 22 ∧ s.recentred (n + 1) = s.recentred n ∧
      (∀ k, n ≤ k → s.recentred k = s.recentred n) ∧ |(s.recentred n).balancedSum| < 22 ∧
      ∀ k, 1 ≤ k → (s.recentred k).acc = residue s.balancedSum := by
  obtain ⟨σ, hσ, hsum⟩ := s.exists_direction
  obtain ⟨d, hd, hlow⟩ := s.exists_sumFrom_lt hσ
  obtain ⟨n, hn, hsmall⟩ := exists_rest hσ hsum hlow
  -- one step more, as the accumulator may still hold what it held before the first step
  obtain ⟨hkept, hrest⟩ := lamed_of_small _ hsmall
  rw [← recentred_succ] at hkept hrest
  refine ⟨n + 1, by omega, by omega, ?_, fun k hk => s.recentred_of_rest hrest hk, ?_, ?_⟩
  · rw [recentred_succ, hrest]
  · rw [hkept]
    exact hsmall
  · intro k hk
    obtain ⟨j, rfl⟩ := Nat.exists_eq_add_of_le' hk
    rw [recentred_succ, acc_lamed]
    exact residue_congr (s.balancedSum_recentred_modEq j)

end

/-- A letter that wraps around leaves a sum of 23 behind the first step, which is not at rest. -/
theorem exists_recentred_rest_overshot :
    let s := ofSlots fun j => if j.val = 0 then 11 else 10
    (s.recentred 1).balancedSum = 23 ∧
      ∃ n, n ≤ 22 ∧ s.recentred 22 = s.recentred n ∧ |(s.recentred 22).balancedSum| < 22 ∧
        (s.recentred 22).acc = 1 := by
  intro s
  obtain ⟨n, -, hn, -, hrest, hsmall, hacc⟩ := s.exists_recentred_rest
  have hlast := hrest 22 hn
  rw [← hlast] at hsmall
  have hone : (s.recentred 22).acc = 1 := (hacc 22 (by decide)).trans (by decide +kernel)
  exact ⟨by decide +kernel, n, hn, hlast, hsmall, hone⟩

end State

end LetterMachine
