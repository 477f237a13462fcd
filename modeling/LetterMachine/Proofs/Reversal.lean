import LetterMachine.Proofs.Operands
import LetterMachine.Proofs.Repetition
import LetterMachine.Proofs.Turning
import Mathlib.Tactic.Ring

/-!
# Operators that come back

Some operators only move letters: they swap the halves, rotate the quartets or turn the ring, and
after some repetitions every number is back in its place, as it was stored.

Others write residues.  These come back modulo 22: they undo one another, or they add the same
number each time, and 22 times any number is nothing.
-/

namespace LetterMachine.State

open Opcode

variable (s : State)

/-! ## Letters that are moved -/

theorem reg_vav {n : Nat} (h : n < 22) : (vav.run s).reg n = s.reg ((n + 11) % 22) := by
  rw [reg_run .vav s (by omega)]
  by_cases hn : n < 11
  · have hplace : (n + 11) % 22 = n + 11 := by omega
    simp [entry, hn, hplace]
  · have hplace : (n + 11) % 22 = n - 11 := by omega
    simp [entry, hn, h, hplace]

theorem vav_vav : vav.run (vav.run s) = s := by
  apply ext_reg
  · intro n hn
    have hplace : ((n + 11) % 22 + 11) % 22 = n := by omega
    rw [reg_vav _ hn, reg_vav _ (by omega), hplace]
  · rw [acc_run_of_entry rfl, acc_run_of_entry rfl]

theorem inQuartet_two_two (n : Nat) : Row.inQuartet (Row.inQuartet n 2) 2 = n := by
  unfold Row.inQuartet
  omega

theorem inQuartet_lt {n : Nat} (h : n < 20) : Row.inQuartet n 2 < 20 := by
  unfold Row.inQuartet
  omega

theorem reg_tav {n : Nat} (h : n < 23) :
    (tav.run s).reg n = if n < 20 then s.reg (Row.inQuartet n 2) else s.reg n := by
  rw [reg_run .tav s h, entry]
  split <;> rfl

theorem tav_tav : tav.run (tav.run s) = s := by
  apply ext_reg
  · intro n hn
    by_cases hquartet : n < 20
    · have hplace := inQuartet_lt hquartet
      rw [reg_tav _ (by omega), if_pos hquartet, reg_tav _ (by omega), if_pos hplace,
        inQuartet_two_two]
    · rw [reg_tav _ (by omega), if_neg hquartet, reg_tav _ (by omega), if_neg hquartet]
  · rw [acc_run_of_entry rfl, acc_run_of_entry rfl]

/-! ## The ring -/

theorem samekh_eq_turn : samekh.run s = s.turn (-residue s.acc) := rfl

theorem afterTimes_samekh (m : Nat) :
    s.afterTimes m (.ofOpcode .samekh) = s.turn (-(m * residue s.acc)) := by
  induction m with
  | zero => exact (s.turn_of_dvd (by simp)).symm
  | succ m ih =>
    have hsum : -residue s.acc + -(m * residue s.acc) = -((m + 1 : Nat) * residue s.acc) := by
      rw [Nat.cast_succ]
      ring
    rw [afterTimes_succ, ih, Instruction.apply_ofOpcode, samekh_eq_turn, acc_turn, turn_turn, hsum]

theorem afterTimes_samekh_of_dvd {m : Nat} (h : 22 ∣ m * s.acc) :
    s.afterTimes m (.ofOpcode .samekh) = s := by
  have hmul : m * residue s.acc ≡ m * s.acc [ZMOD 22] := (residue_modEq s.acc).mul_left m
  have hdvd : 22 ∣ m * residue s.acc :=
    Int.modEq_zero_iff_dvd.mp (hmul.trans (Int.modEq_zero_iff_dvd.mpr h))
  rw [afterTimes_samekh, turn_of_dvd _ (Int.dvd_neg.mpr hdvd)]

/-! ## Modulo 22 -/

/-- Where every step adds the same numbers, these come together to a multiple of 22. -/
theorem congruent_of_adds {x : Nat → State} {a : Nat → Int}
    (h : ∀ m, ∀ n < 23, (x (m + 1)).reg n ≡ (x m).reg n + a n [ZMOD 22]) {m : Nat}
    (hm : ∀ n, 22 ∣ m * a n) : (x m).Congruent (x 0) := by
  have hadds : ∀ m : Nat, ∀ n < 23, (x m).reg n ≡ (x 0).reg n + m * a n [ZMOD 22] := by
    intro m n hn
    induction m with
    | zero => simp
    | succ m ih =>
      have hsum : (x 0).reg n + m * a n + a n = (x 0).reg n + (m + 1 : Nat) * a n := by
        rw [Nat.cast_succ]
        ring
      rw [← hsum]
      exact (h m n hn).trans (ih.add_right _)
  apply congruent_of_reg
  intro n hn
  have hzero := (Int.modEq_zero_iff_dvd.mpr (hm n)).add_left ((x 0).reg n)
  rw [add_zero] at hzero
  exact (hadds m n hn).trans hzero

/-- The step adds the same numbers to the registers of every state, modulo 22. -/
def Adds (f : State → State) (a : Nat → Int) : Prop :=
  ∀ t : State, ∀ n < 23, (f t).reg n ≡ t.reg n + a n [ZMOD 22]

theorem Adds.undo {f g : State → State} {a : Nat → Int} (hf : Adds f a)
    (hg : Adds g (-a)) : (g (f s)).Congruent s := by
  apply congruent_of_reg
  intro n hn
  have hback := (hf s n hn).add_right (-a n)
  rw [add_neg_cancel_right] at hback
  exact (hg (f s) n hn).trans hback

theorem Adds.iterate {f : State → State} {a : Nat → Int} (h : Adds f a) {m : Nat}
    (hm : ∀ n, 22 ∣ m * a n) : (f^[m] s).Congruent s := by
  refine congruent_of_adds (x := fun m => f^[m] s) (fun m n hn => ?_) hm
  rw [Function.iterate_succ_apply']
  exact h _ n hn

/-- One for a letter, and nothing for the accumulator. -/
def perLetter (n : Nat) : Int := if n < 22 then 1 else 0

theorem adds_zayin : Adds zayin.run perLetter := by
  intro t n h
  rw [reg_run .zayin t h, entry, perLetter]
  split
  · exact residue_modEq _
  · obtain rfl : n = 22 := by omega
    exact Int.modEq_iff_dvd.mpr ⟨-1, by simp⟩

theorem adds_chet : Adds chet.run (-perLetter) := by
  intro t n h
  rw [reg_run .chet t h, entry, Pi.neg_apply, perLetter]
  split
  · exact residue_modEq _
  · obtain rfl : n = 22 := by omega
    exact Int.modEq_iff_dvd.mpr ⟨1, by simp⟩

theorem zayin_chet_congruent : (zayin.run (chet.run s)).Congruent s := by
  refine adds_chet.undo s ?_
  rw [neg_neg]
  exact adds_zayin

/-- Qof mirrors the letters and adds to each its place, and the places of two mirrored letters add
up to 21. -/
theorem adds_qof_qof : Adds qof.run^[2] (-perLetter) := by
  intro t n h
  rw [Function.iterate_succ_apply, Function.iterate_one, Pi.neg_apply]
  by_cases hn : n < 22
  · have hmirror : 21 - (21 - n) = n := by omega
    have hplaces : t.reg n + (21 - n : Nat) + n = t.reg n + 21 := by omega
    rw [reg_run .qof _ h, entry, perLetter, if_pos hn, if_pos hn, Option.getD_some,
      reg_run .qof _ (by omega), entry, if_pos (by omega), Option.getD_some, hmirror]
    refine (residue_modEq _).trans (((residue_modEq _).add_right _).trans ?_)
    rw [hplaces]
    exact Int.modEq_iff_dvd.mpr ⟨-1, by ring⟩
  · obtain rfl : n = 22 := by omega
    rw [reg_acc, acc_run_of_entry rfl, acc_run_of_entry rfl]
    exact Int.modEq_iff_dvd.mpr ⟨0, by simp [perLetter, reg_acc]⟩

theorem qof_qof_congruent : (qof.run^[2] s).Congruent (chet.run s) := by
  apply congruent_of_reg
  intro n hn
  exact (adds_qof_qof s n hn).trans (adds_chet s n hn).symm

theorem reg_nun_modEq {n : Nat} (h : n < 23) : (nun.run s).reg n ≡ -s.reg n [ZMOD 22] := by
  rw [reg_run .nun s h]
  exact (residue_modEq _).trans ((balanced_modEq _).neg)

theorem nun_nun_congruent : (nun.run (nun.run s)).Congruent s := by
  apply congruent_of_reg
  intro n hn
  have hneg := (reg_nun_modEq s hn).neg
  rw [neg_neg] at hneg
  exact (reg_nun_modEq _ hn).trans hneg

/-! ## Twenty-two times -/

theorem afterTimes_congruent_of_adds {i : Instruction} {a : Nat → Int} (h : Adds i.apply a) :
    (s.afterTimes 22 i).Congruent s := by
  rw [afterTimes_eq_iterate]
  exact h.iterate s fun n => Int.dvd_mul_right 22 (a n)

/-- Two by two, where an instruction adds the same numbers only every other time. -/
theorem afterTimes_two_mul_congruent {i : Instruction} {a : Nat → Int} (h : Adds i.apply^[2] a)
    {m : Nat} (hm : ∀ n, 22 ∣ m * a n) : (s.afterTimes (2 * m) i).Congruent s := by
  rw [afterTimes_eq_iterate, Function.iterate_mul]
  exact h.iterate s hm

theorem afterTimes_qof_congruent : (s.afterTimes 44 (.ofOpcode .qof)).Congruent s :=
  s.afterTimes_two_mul_congruent (i := .ofOpcode .qof) (m := 22) adds_qof_qof
    fun n => Int.dvd_mul_right 22 ((-perLetter) n)

/-- Half as many steps are not enough: 22 of qof are eleven of chet. -/
example : (zero.afterTimes 22 (.ofOpcode .qof)).reg 0 = 11 := by decide +kernel

section

variable (k : Int)

theorem reg_bet {n : Nat} (h : n < 23) :
    (bet.runWith k s).reg n =
      if 11 ≤ n ∧ n < 22 then residue (s.reg n + s.reg (n - 11) + k) else s.reg n := by
  rw [reg_runWith .bet k s h, entryWith]
  split <;> rfl

theorem reg_afterTimes_bet {n : Nat} (h : n < 11) (m : Nat) :
    (s.afterTimes m ⟨.bet, .immediate, k⟩).reg n = s.reg n := by
  induction m with
  | zero => rfl
  | succ m ih =>
    rw [afterTimes_succ, Instruction.apply_immediate, reg_bet _ k (by omega), if_neg (by omega), ih]

/-- What bet adds to the second half stands in the first half, which it does not change. -/
theorem afterTimes_bet_congruent : (s.afterTimes 22 ⟨.bet, .immediate, k⟩).Congruent s := by
  refine congruent_of_adds (x := fun m => s.afterTimes m ⟨.bet, .immediate, k⟩)
    (a := fun n => if 11 ≤ n ∧ n < 22 then s.reg (n - 11) + k else 0) (m := 22) ?_
    fun n => Int.dvd_mul_right 22 _
  intro m n hn
  rw [afterTimes_succ, Instruction.apply_immediate, reg_bet _ k hn]
  by_cases hsecond : 11 ≤ n ∧ n < 22
  · have hfirst := s.reg_afterTimes_bet k (n := n - 11) (by omega) m
    rw [if_pos hsecond, if_pos hsecond, hfirst, ← add_assoc]
    exact residue_modEq _
  · rw [if_neg hsecond, if_neg hsecond, add_zero]

theorem afterTimes_bet (m : Nat) :
    s.afterTimes m (.ofOpcode .bet) = s.afterTimes m ⟨.bet, .immediate, 0⟩ := by
  have happly : (Instruction.ofOpcode .bet).apply = Instruction.apply ⟨.bet, .immediate, 0⟩ := by
    funext t
    rw [Instruction.apply_ofOpcode, Instruction.apply_immediate]
    exact (runWith_zero t (by decide)).symm
  rw [afterTimes_eq_iterate, afterTimes_eq_iterate, happly]

theorem reg_tavWith {n : Nat} (h : n < 23) :
    (tav.runWith k s).reg n =
      if n < 20 then residue (s.reg (Row.inQuartet n 2) + k) else s.reg n := by
  rw [reg_runWith .tav k s h, entryWith]
  split <;> rfl

/-- The quartets are back in their places, and twice the operand has been added. -/
theorem adds_tav_tav :
    Adds (tav.runWith k)^[2] fun n => if n < 20 then 2 * k else 0 := by
  intro t n h
  dsimp only
  rw [Function.iterate_succ_apply, Function.iterate_one, reg_tavWith _ k h]
  by_cases hn : n < 20
  · have hplace := inQuartet_lt hn
    have htwo : t.reg n + 2 * k = t.reg n + k + k := by ring
    rw [if_pos hn, if_pos hn, reg_tavWith _ k (by omega), if_pos hplace, inQuartet_two_two, htwo]
    exact (residue_modEq _).trans ((residue_modEq _).add_right k)
  · rw [if_neg hn, if_neg hn, reg_tavWith _ k h, if_neg hn, add_zero]

theorem afterTimes_tav_congruent : (s.afterTimes 22 ⟨.tav, .immediate, k⟩).Congruent s := by
  refine s.afterTimes_two_mul_congruent (i := ⟨.tav, .immediate, k⟩) (m := 11) (adds_tav_tav k)
    fun n => ?_
  have hoperands : ((11 : Nat) : Int) * (2 * k) = 22 * k := by ring
  split
  · exact ⟨k, hoperands⟩
  · simp

end

/-- Operators that come back.  Vav and tav do so in two steps, and samekh as soon as it has turned
the ring all around, to the numbers as they were stored.  Modulo 22, zayin and chet undo one another
and nun undoes itself, two steps of qof are one of chet, and bet, zayin, chet and, with any operand,
bet and tav come back in 22 steps. -/
theorem afterTimes_comesBack :
    (s.afterTimes 2 (.ofOpcode .vav) = s ∧ s.afterTimes 2 (.ofOpcode .tav) = s ∧
      s.afterTimes 22 (.ofOpcode .samekh) = s ∧
      ∀ m : Nat, 22 ∣ m * s.acc → s.afterTimes m (.ofOpcode .samekh) = s) ∧
    ((s.after [.ofOpcode .chet, .ofOpcode .zayin]).Congruent s ∧
      (s.after [.ofOpcode .zayin, .ofOpcode .chet]).Congruent s ∧
      (s.afterTimes 2 (.ofOpcode .nun)).Congruent s ∧
      (s.afterTimes 44 (.ofOpcode .qof)).Congruent s ∧
      (∀ op ∈ [bet, zayin, chet], (s.afterTimes 22 (.ofOpcode op)).Congruent s) ∧
      (∀ op ∈ [bet, tav], ∀ k, (s.afterTimes 22 ⟨op, .immediate, k⟩).Congruent s) ∧
      (s.afterTimes 2 (.ofOpcode .qof)).Congruent (s.afterTimes 1 (.ofOpcode .chet))) := by
  refine ⟨⟨s.vav_vav, s.tav_tav, ?_, fun m hm => s.afterTimes_samekh_of_dvd hm⟩,
    s.zayin_chet_congruent, adds_zayin.undo s adds_chet, s.nun_nun_congruent,
    s.afterTimes_qof_congruent, ?_, ?_, s.qof_qof_congruent⟩
  · exact s.afterTimes_samekh_of_dvd (Int.dvd_mul_right 22 _)
  · intro op hop
    rcases List.mem_cons.mp hop with rfl | hop
    · rw [afterTimes_bet]
      exact s.afterTimes_bet_congruent 0
    · rcases List.mem_pair.mp hop with rfl | rfl
      · exact s.afterTimes_congruent_of_adds adds_zayin
      · exact s.afterTimes_congruent_of_adds adds_chet
  · intro op hop k
    rcases List.mem_pair.mp hop with rfl | rfl
    · exact s.afterTimes_bet_congruent k
    · exact s.afterTimes_tav_congruent k

/-- An accumulator of 33 turns the ring by half, so that two turns are enough; and an operand that
is neither reduced nor positive. -/
theorem afterTimes_comesBack_half :
    let s := ofSlots fun j => 3 * j.val - 33
    (22 ∣ (2 : Nat) * s.acc ∧ tav ∈ [bet, tav]) ∧ s.afterTimes 2 (.ofOpcode .samekh) = s ∧
      s.afterTimes 1 (.ofOpcode .samekh) ≠ s ∧
      (s.afterTimes 22 ⟨.tav, .immediate, -37⟩).Congruent s := by
  intro s
  have hdvd : 22 ∣ (2 : Nat) * s.acc := by decide
  have htav : tav ∈ [bet, tav] := by decide
  obtain ⟨⟨-, -, -, hsamekh⟩, -, -, -, -, -, hoperand, -⟩ := s.afterTimes_comesBack
  exact ⟨⟨hdvd, htav⟩, hsamekh 2 hdvd, by decide +kernel, hoperand tav htav (-37)⟩

end LetterMachine.State
