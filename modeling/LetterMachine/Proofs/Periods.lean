import LetterMachine.Proofs.Congruence
import LetterMachine.Proofs.Repetition
import Mathlib.Algebra.Order.BigOperators.Group.Finset
import Mathlib.Tactic.Ring

/-!
# Operators that settle

Some operators change nothing when they are applied again.  Hei has made signs of the letters, and
signs are their own signs; yod and ayin read what they do not write.  Tsadi does read what it
writes, but the half that it raises is the heavier one, and only gets heavier.

Tet and dalet go round.  Tet squares the letters, and modulo 22 the 32nd power of a number is its
square; dalet takes the differences of the halves, each time minus twice those before.
-/

open Finset

namespace LetterMachine

open Opcode

/-! ## Greatest numbers -/

theorem le_greatestTo {n : Nat} (f : Nat → Int) {i : Nat} (hi : i ≤ n) : f i ≤ greatestTo n f :=
  le_sup' f (mem_range.mpr (Nat.lt_succ_of_le hi))

theorem exists_eq_greatestTo (n : Nat) (f : Nat → Int) : ∃ i ≤ n, f i = greatestTo n f := by
  obtain ⟨i, hi, hmax⟩ := exists_mem_eq_sup' (nonempty_range_add_one (n := n)) f
  exact ⟨i, Nat.lt_succ_iff.mp (mem_range.mp hi), hmax.symm⟩

namespace State

variable (s : State)

/-! ## Signs -/

theorem reg_hei {n : Nat} (h : n < 22) : (hei.run s).reg n = (balanced (s.reg n)).sign := by
  rw [reg_run .hei s (by omega)]
  simp [entry, h]

theorem acc_hei :
    (hei.run s).acc = residue (∑ i ∈ range 22, (balanced (s.reg i)).sign) :=
  acc_run .hei s

theorem sign_balanced_sign (x : Int) : (balanced x.sign).sign = x.sign := by
  rcases Int.sign_trichotomy x with h | h | h
  all_goals
    rw [h]
    rfl

theorem hei_hei : hei.run (hei.run s) = hei.run s := by
  have hletter : ∀ n < 22,
      (balanced ((hei.run s).reg n)).sign = (balanced (s.reg n)).sign := by
    intro n hn
    rw [s.reg_hei hn, sign_balanced_sign]
  apply ext_reg
  · intro n hn
    rw [reg_hei _ hn, hletter n hn, s.reg_hei hn]
  · rw [acc_hei, acc_hei, sum_congr rfl fun n hn => hletter n (mem_range.mp hn)]

/-! ## The heavier half -/

/-- The balanced letters of the half from a place on. -/
def half (h : Nat) (i : Nat) : Int := balanced (s.reg (i + h))

def weight (h : Nat) : Int := ∑ i ∈ range 11, s.half h i

/-- By how much the first half is heavier. -/
def tilt : Int := s.weight 0 - s.weight 11

theorem reg_tsadi {n : Nat} (h : n < 22) :
    (tsadi.run s).reg n =
      if n = 0 ∧ 0 < s.tilt then residue (greatestTo 10 (s.half 0))
      else if n = 11 ∧ s.tilt < 0 then residue (greatestTo 10 (s.half 11))
      else s.reg n := by
  have hacc : n ≠ 22 := by omega
  have hfirst : 0 < s.tilt ↔ s.weight 0 > s.weight 11 := sub_pos
  have hsecond : s.tilt < 0 ↔ s.weight 11 > s.weight 0 := sub_neg
  have hentry : tsadi.entry s.reg n =
      if n = 0 ∧ s.weight 0 > s.weight 11 then some (residue (greatestTo 10 (s.half 0)))
      else if n = 11 ∧ s.weight 11 > s.weight 0 then some (residue (greatestTo 10 (s.half 11)))
      else none := by
    rw [entry, if_neg hacc]
    rfl
  rw [reg_run .tsadi s (by omega), hentry]
  simp only [hfirst, hsecond]
  split
  · rfl
  · split <;> rfl

theorem reg_tsadi_of_even (h : s.tilt = 0) {n : Nat} (hn : n < 22) :
    (tsadi.run s).reg n = s.reg n := by
  rw [s.reg_tsadi hn, if_neg (by omega), if_neg (by omega)]

theorem acc_tsadi : (tsadi.run s).acc = residue s.tilt.sign :=
  acc_run .tsadi s

/-- The head of a half is raised to the greatest letter of the half, and all else stays. -/
structure Raised (s t : State) (h : Nat) : Prop where
  head : t.reg h = residue (greatestTo 10 (s.half h))
  rest : ∀ n < 22, n ≠ h → t.reg n = s.reg n

theorem balanced_greatest (h : Nat) :
    balanced (residue (greatestTo 10 (s.half h))) = greatestTo 10 (s.half h) := by
  obtain ⟨i, -, hi⟩ := exists_eq_greatestTo 10 (s.half h)
  rw [balanced_congr (residue_modEq _), ← hi]
  exact balanced_eq_self (neg_eleven_le_balanced _) (balanced_le_ten _)

namespace Raised

variable {s} {t : State} {h : Nat} (ht : Raised s t h)
include ht

theorem half_head : t.half h 0 = greatestTo 10 (s.half h) := by
  unfold half
  rw [Nat.zero_add, ht.head]
  exact s.balanced_greatest h

theorem half_rest {j i : Nat} (hlt : i + j < 22) (hne : i + j ≠ h) : t.half j i = s.half j i := by
  unfold half
  rw [ht.rest _ hlt hne]

variable (hh : h ≤ 11)
include hh

theorem weight_le : s.weight h ≤ t.weight h := by
  apply sum_le_sum
  intro i hi
  have hi : i < 11 := mem_range.mp hi
  by_cases hhead : i = 0
  · subst hhead
    rw [ht.half_head]
    exact le_greatestTo _ (by omega)
  · rw [ht.half_rest (by omega) (by omega)]

theorem greatest : greatestTo 10 (t.half h) = greatestTo 10 (s.half h) := by
  symm
  apply eq_greatestTo
  · intro i hi
    by_cases hhead : i = 0
    · rw [hhead, ht.half_head]
    · rw [ht.half_rest (by omega) (by omega)]
      exact le_greatestTo _ hi
  · exact ⟨0, by omega, ht.half_head⟩

end Raised

theorem weight_of_raised {s t : State} {h j : Nat} (ht : Raised s t h)
    (hj : ∀ i < 11, i + j < 22 ∧ i + j ≠ h) : t.weight j = s.weight j :=
  sum_congr rfl fun i hi => ht.half_rest (hj i (mem_range.mp hi)).1 (hj i (mem_range.mp hi)).2

theorem tsadi_raises_first (h : 0 < s.tilt) : Raised s (tsadi.run s) 0 where
  head := by rw [s.reg_tsadi (by omega), if_pos ⟨rfl, h⟩]
  rest n hn hne := by rw [s.reg_tsadi hn, if_neg (by omega), if_neg (by omega)]

theorem tsadi_raises_second (h : s.tilt < 0) : Raised s (tsadi.run s) 11 where
  head := by rw [s.reg_tsadi (by omega), if_neg (by omega), if_pos ⟨rfl, h⟩]
  rest n hn hne := by rw [s.reg_tsadi hn, if_neg (by omega), if_neg (by omega)]

/-- Raising a half once more, and telling the same side, changes nothing. -/
theorem tsadi_tsadi_of_raised {h : Nat} (ht : Raised s (tsadi.run s) h)
    (ht' : Raised (tsadi.run s) (tsadi.run (tsadi.run s)) h) (hh : h ≤ 11)
    (hsign : (tsadi.run s).tilt.sign = s.tilt.sign) :
    tsadi.run (tsadi.run s) = tsadi.run s := by
  apply ext_reg
  · intro n hn
    by_cases hhead : n = h
    · rw [hhead, ht'.head, ht.greatest hh, ht.head]
    · exact ht'.rest n hn hhead
  · rw [acc_tsadi, acc_tsadi, hsign]

theorem tsadi_tsadi : tsadi.run (tsadi.run s) = tsadi.run s := by
  rcases lt_trichotomy 0 s.tilt with hfirst | heven | hsecond
  · have ht := s.tsadi_raises_first hfirst
    have hheavier : 0 < (tsadi.run s).tilt := by
      have hweight := ht.weight_le (by omega)
      have hother := weight_of_raised ht (j := 11) fun i hi => by omega
      unfold tilt at hfirst ⊢
      omega
    apply s.tsadi_tsadi_of_raised ht (tsadi_raises_first _ hheavier) (by omega)
    rw [Int.sign_eq_one_of_pos hheavier, Int.sign_eq_one_of_pos hfirst]
  · have hweight : ∀ j ≤ 11, (tsadi.run s).weight j = s.weight j := by
      intro j hj
      refine sum_congr rfl fun i hi => congrArg balanced ?_
      have hi : i < 11 := mem_range.mp hi
      exact s.reg_tsadi_of_even heven.symm (by omega)
    have heven' : (tsadi.run s).tilt = 0 := by
      unfold tilt at heven ⊢
      rw [hweight 0 (by omega), hweight 11 (by omega), ← heven]
    apply ext_reg
    · intro n hn
      exact reg_tsadi_of_even _ heven' hn
    · rw [acc_tsadi, acc_tsadi, heven', ← heven]
  · have ht := s.tsadi_raises_second hsecond
    have hheavier : (tsadi.run s).tilt < 0 := by
      have hweight := ht.weight_le (by omega)
      have hother := weight_of_raised ht (j := 0) fun i hi => by omega
      unfold tilt at hsecond ⊢
      omega
    apply s.tsadi_tsadi_of_raised ht (tsadi_raises_second _ hheavier) (by omega)
    rw [Int.sign_eq_neg_one_of_neg hheavier, Int.sign_eq_neg_one_of_neg hsecond]

theorem yod_yod : yod.run (yod.run s) = yod.run s := by simp [run]

theorem ayin_ayin : ayin.run (ayin.run s) = ayin.run s := by simp [run]

/-! ## Squares -/

theorem reg_tet {n : Nat} (h : n < 22) : (tet.run s).reg n = residue (s.reg n * s.reg n) := by
  rw [reg_run .tet s (by omega)]
  simp [entry, h]

theorem acc_tet : (tet.run s).acc = residue (∑ i ∈ range 22, s.reg i * s.reg i) :=
  acc_run .tet s

theorem tet_congr {s t : State}
    (h : ∀ n < 22, s.reg n * s.reg n ≡ t.reg n * t.reg n [ZMOD 22]) : tet.run s = tet.run t := by
  apply ext_reg
  · intro n hn
    rw [s.reg_tet hn, t.reg_tet hn, residue_congr (h n hn)]
  · have hsum : ∑ i ∈ range 22, s.reg i * s.reg i ≡ ∑ i ∈ range 22, t.reg i * t.reg i [ZMOD 22] :=
      Int.ModEq.sum fun i hi => h i (mem_range.mp hi)
    rw [acc_tet, acc_tet, residue_congr hsum]

theorem reg_afterTimes_tet {n : Nat} (h : n < 22) (m : Nat) :
    (s.afterTimes m (.ofOpcode .tet)).reg n ≡ s.reg n ^ 2 ^ m [ZMOD 22] := by
  induction m with
  | zero =>
    rw [Nat.pow_zero, pow_one]
    rfl
  | succ m ih =>
    have hsquare : s.reg n ^ 2 ^ (m + 1) = s.reg n ^ 2 ^ m * s.reg n ^ 2 ^ m := by
      rw [pow_succ 2 m, pow_mul, pow_two]
    rw [afterTimes_succ, Instruction.apply_ofOpcode, reg_tet _ h, hsquare]
    exact (residue_modEq _).trans (ih.mul ih)

theorem pow_sixteen_mul_self (x : Int) : x ^ 16 * x ^ 16 ≡ x * x [ZMOD 22] := by
  have hresidues : ∀ r ∈ range 22,
      ((r : Nat) : Int) ^ 16 * (r : Nat) ^ 16 ≡ (r : Nat) * (r : Nat) [ZMOD 22] := by
    decide +kernel
  obtain ⟨r, hr, hx⟩ := exists_modEq_range x
  exact ((hx.pow 16).mul (hx.pow 16)).trans ((hresidues r hr).trans (hx.mul hx).symm)

theorem afterTimes_five_tet :
    s.afterTimes 5 (.ofOpcode .tet) = s.afterTimes 1 (.ofOpcode .tet) := by
  rw [afterTimes_succ s _ 4, afterTimes_succ s _ 0, Instruction.apply_ofOpcode]
  apply tet_congr
  intro n hn
  have hpower := s.reg_afterTimes_tet hn 4
  exact (hpower.mul hpower).trans (pow_sixteen_mul_self _)

/-! ## Differences -/

/-- What a letter lacks to the letter in its place of the other half. -/
def lack (n : Nat) : Int := s.reg ((n + 11) % 22) - s.reg n

theorem reg_dalet {n : Nat} (h : n < 22) : (dalet.run s).reg n = residue (s.lack n) := by
  rw [reg_run .dalet s (by omega)]
  unfold lack
  by_cases hn : n < 11
  · have hplace : (n + 11) % 22 = n + 11 := by omega
    simp [entry, hn, hplace]
  · have hplace : (n + 11) % 22 = n - 11 := by omega
    simp [entry, hn, h, hplace]

theorem dalet_congr {s t : State} (h : ∀ n < 22, s.lack n ≡ t.lack n [ZMOD 22])
    (hacc : s.acc = t.acc) : dalet.run s = dalet.run t := by
  apply ext_reg
  · intro n hn
    rw [s.reg_dalet hn, t.reg_dalet hn, residue_congr (h n hn)]
  · rw [acc_run_of_entry rfl, acc_run_of_entry rfl, hacc]

theorem lack_dalet {n : Nat} (h : n < 22) : (dalet.run s).lack n ≡ -2 * s.lack n [ZMOD 22] := by
  have hplace : ((n + 11) % 22 + 11) % 22 = n := by omega
  have htwice : s.lack ((n + 11) % 22) - s.lack n = -2 * s.lack n := by
    unfold lack
    rw [hplace]
    ring
  have hread : (dalet.run s).lack n =
      (dalet.run s).reg ((n + 11) % 22) - (dalet.run s).reg n := rfl
  rw [hread, s.reg_dalet (by omega), s.reg_dalet h, ← htwice]
  exact (residue_modEq _).sub (residue_modEq _)

theorem lack_afterTimes_dalet {n : Nat} (h : n < 22) (m : Nat) :
    (s.afterTimes m (.ofOpcode .dalet)).lack n ≡ (-2) ^ m * s.lack n [ZMOD 22] := by
  induction m with
  | zero =>
    rw [pow_zero, one_mul]
    rfl
  | succ m ih =>
    rw [afterTimes_succ, Instruction.apply_ofOpcode, pow_succ', mul_assoc]
    exact (lack_dalet _ h).trans (ih.mul_left (-2))

theorem acc_afterTimes_dalet (m : Nat) : (s.afterTimes m (.ofOpcode .dalet)).acc = s.acc := by
  induction m with
  | zero => rfl
  | succ m ih =>
    rw [afterTimes_succ, Instruction.apply_ofOpcode, acc_run_of_entry rfl, ih]

theorem afterTimes_seven_dalet :
    s.afterTimes 7 (.ofOpcode .dalet) = s.afterTimes 2 (.ofOpcode .dalet) := by
  rw [afterTimes_succ s _ 6, afterTimes_succ s _ 1, Instruction.apply_ofOpcode]
  apply dalet_congr
  · intro n hn
    -- the sixth power of -2 is 64, three times 22 above -2
    have hpower : (-2) ^ 6 * s.lack n ≡ (-2) ^ 1 * s.lack n [ZMOD 22] :=
      Int.ModEq.mul_right _ (by decide)
    exact (s.lack_afterTimes_dalet hn 6).trans
      (hpower.trans (s.lack_afterTimes_dalet hn 1).symm)
  · rw [acc_afterTimes_dalet, acc_afterTimes_dalet]

/-- Operators that settle, to the numbers as they are stored.  Hei, yod, ayin and tsadi change
nothing the second time; tet comes back to the first squares after four steps more, and dalet to the
second differences after five. -/
theorem afterTimes_settles :
    s.afterTimes 2 (.ofOpcode .hei) = s.afterTimes 1 (.ofOpcode .hei) ∧
      s.afterTimes 2 (.ofOpcode .yod) = s.afterTimes 1 (.ofOpcode .yod) ∧
      s.afterTimes 2 (.ofOpcode .ayin) = s.afterTimes 1 (.ofOpcode .ayin) ∧
      s.afterTimes 2 (.ofOpcode .tsadi) = s.afterTimes 1 (.ofOpcode .tsadi) ∧
      s.afterTimes 5 (.ofOpcode .tet) = s.afterTimes 1 (.ofOpcode .tet) ∧
      s.afterTimes 7 (.ofOpcode .dalet) = s.afterTimes 2 (.ofOpcode .dalet) :=
  ⟨s.hei_hei, s.yod_yod, s.ayin_ayin, s.tsadi_tsadi, s.afterTimes_five_tet,
    s.afterTimes_seven_dalet⟩

end State

end LetterMachine
