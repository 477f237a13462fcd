import LetterMachine.Proofs.Row

/-!
# The table of operators

The effect of every instruction, register by register: what it writes into a register as a function
of the register's number and of the old contents alone.  Registers 0 to 21 are the letters, 22 is
the accumulator; a register for which the table has no entry keeps what it holds.  Applying an
instruction does exactly what the table says.
-/

open Finset

namespace LetterMachine

/-- The number in a register, by the register's number: the accumulator stands behind the letters. -/
def State.reg (s : State) (n : Nat) : Int :=
  if h : n < 22 then s.letters[n] else s.acc

namespace Opcode

def roundEntry (k : Int) (old : Nat → Int) (n : Nat) : Option Int :=
  let m₀ := old 0 + 3 * old 2 + k
  let m₁ := old 1 + 5 * old 3 + k
  match n with
  | 0 => some (m₀ + m₁)
  | 1 => some (m₀ - m₁)
  | 2 => some (3 * m₀ - m₁)
  | 3 => some (2 * m₁ + old 0)
  | _ => none

def shinEntry (old : Nat → Int) (n : Nat) : Option Int :=
  if n < 20 then some (residue (old n * old n + old (Row.inQuartet n 1))) else none

def neighbourMean (old : Nat → Int) (n : Nat) : Int :=
  (balanced (old ((n + 21) % 22)) + balanced (old n) + balanced (old ((n + 1) % 22))).tdiv 3

/-- The correlation of the first half with the eleven letters from place `11 + k` of the ring on. -/
def correlation (old : Nat → Int) (k : Nat) : Int :=
  ∑ i ∈ range 11, balanced (old i) * balanced (old ((i + 11 + k) % 22))

/-- What an opcode by itself writes into register `n`. -/
def entry (op : Opcode) (old : Nat → Int) (n : Nat) : Option Int :=
  match op with
  | alef => none
  | bet => if 11 ≤ n ∧ n < 22 then some (residue (old n + old (n - 11))) else none
  | gimel => if 11 ≤ n ∧ n < 22 then some (residue (old n * old (n - 11))) else none
  | dalet =>
    if n < 11 then some (residue (old (n + 11) - old n))
    else if n < 22 then some (residue (old (n - 11) - old n))
    else none
  | hei =>
    if n < 22 then some (balanced (old n)).sign
    else some (residue (∑ i ∈ range 22, (balanced (old i)).sign))
  | vav => if n < 11 then some (old (n + 11)) else if n < 22 then some (old (n - 11)) else none
  | zayin => if n < 22 then some (residue (old n + 1)) else some (old 22 + 22)
  | chet => if n < 22 then some (residue (old n - 1)) else some (old 22 - 22)
  | tet =>
    if n < 22 then some (residue (old n * old n))
    else some (residue (∑ i ∈ range 22, old i * old i))
  | yod => if n < 22 then some (old 22) else none
  | kaf => if n < 22 then some (residue (∑ j ∈ range 4, old ((n + j) % 22))) else none
  | lamed =>
    let total := ∑ i ∈ range 22, balanced (old i)
    if n < 22 then some (residue (balanced (old n) - total.tdiv 22)) else some (residue total)
  | mem =>
    if n < 22 then some (residue (neighbourMean old n))
    else some (residue ((∑ i ∈ range 22, neighbourMean old i).tdiv 22))
  | nun => some (residue (-balanced (old n)))
  | samekh => if n < 22 then some (old ((n - residue (old 22)) % 22).toNat) else none
  | ayin => if n < 22 then none else some (residue (greatestTo 10 (correlation old)))
  | pe =>
    if n = 1 ∨ n = 21 then some (residue (old n + old 0))
    else if n = 22 then some (old 0)
    else none
  | tsadi =>
    let first := ∑ i ∈ range 11, balanced (old i)
    let second := ∑ i ∈ range 11, balanced (old (i + 11))
    if n = 22 then some (residue (first - second).sign)
    else if n = 0 ∧ first > second then
      some (residue (greatestTo 10 fun i => balanced (old i)))
    else if n = 11 ∧ second > first then
      some (residue (greatestTo 10 fun i => balanced (old (i + 11))))
    else none
  | qof => if n < 22 then some (residue (old (21 - n) + n)) else none
  | resh =>
    let stride := if balanced (old 1) = 0 then 1 else balanced (old 1)
    if n < 22 then some (residue (balanced (old 22) + n * stride)) else none
  | shin =>
    if n < 22 then shinEntry old n
    else
      some (residue (greatestTo 21 fun i =>
        ((balanced ((shinEntry old i).getD (old i))).natAbs : Int)))
  | tav => if n < 20 then some (old (Row.inQuartet n 2)) else none
  | sovav => roundEntry 0 old n

/-- What an opcode with an operand writes into register `n`: four opcodes take it up. -/
def entryWith (op : Opcode) (k : Int) (old : Nat → Int) (n : Nat) : Option Int :=
  match op with
  | bet => if 11 ≤ n ∧ n < 22 then some (residue (old n + old (n - 11) + k)) else none
  | gimel => if 11 ≤ n ∧ n < 22 then some (residue (old n * old (n - 11) + k)) else none
  | tav => if n < 20 then some (residue (old (Row.inQuartet n 2) + k)) else none
  | sovav => roundEntry k old n
  | _ => op.entry old n

end Opcode

/-- What an instruction writes into register `n`.  A query writes into the accumulator only. -/
def Instruction.entry (i : Instruction) (old : Nat → Int) (n : Nat) : Option Int :=
  match i.mode with
  | .plain => i.op.entry old n
  | .query =>
    if n = 22 then some (residue (∑ j ∈ range 23, ((i.op.entry old j).getD (old j) - old j)))
    else none
  | .immediate => i.op.entryWith i.operand old n

namespace State

theorem letters_getElem (s : State) (n : Nat) (h : n < 22) : s.letters[n] = s.reg n :=
  (dif_pos h).symm

theorem reg_acc (s : State) : s.reg 22 = s.acc := rfl

theorem reg_val (s : State) (i : Slot) : s.reg i.val = s.get i := rfl

/-- Every number means a slot: behind the letters there is the accumulator only. -/
theorem exists_reg_eq_get (n : Nat) : ∃ j : Slot, ∀ s : State, s.reg n = s.get j := by
  by_cases hn : n < 22
  · exact ⟨⟨n, by omega⟩, fun _ => rfl⟩
  · exact ⟨Slot.acc, fun _ => dif_neg hn⟩

theorem ext_reg_lt {s t : State} (h : ∀ n < 23, s.reg n = t.reg n) : s = t :=
  ext_get fun j => h j.val j.isLt

/-- States are equal iff their letters and their accumulators are. -/
theorem ext_reg {s t : State} (hletters : ∀ n < 22, s.reg n = t.reg n) (hacc : s.acc = t.acc) :
    s = t := by
  apply ext_reg_lt
  intro n hn
  by_cases hletter : n < 22
  · exact hletters n hletter
  · obtain rfl : n = 22 := by omega
    exact hacc

theorem getElem_balance (s : State) (n : Nat) (h : n < 22) :
    (Row.balance s.letters)[n] = balanced (s.reg n) := by
  rw [Row.getElem_balance, letters_getElem]

theorem sum_balance (s : State) :
    Row.sum (Row.balance s.letters) = ∑ i ∈ range 22, balanced (s.reg i) :=
  sum_eq_sum_range _ _ s.getElem_balance

theorem getElem_first_balance (s : State) (n : Nat) (h : n < 11) :
    (Row.balance s.letters).first[n] = balanced (s.reg n) := by
  rw [Row.getElem_first, getElem_balance]

theorem getElem_second_balance (s : State) (n : Nat) (h : n < 11) :
    (Row.balance s.letters).second[n] = balanced (s.reg (n + 11)) := by
  rw [Row.getElem_second, getElem_balance, Nat.add_comm]

end State

/-! ## Letters -/

namespace Opcode

open State

theorem letters_mapSecond (f : Int → Int → Int) (s : State) (n : Nat) (h : n < 22) :
    (Row.mapSecond f s.letters)[n] =
      (if 11 ≤ n ∧ n < 22 then some (f (s.reg (n - 11)) (s.reg n)) else none).getD (s.reg n) := by
  rw [Row.getElem_mapSecond]
  simp only [letters_getElem]
  -- the first half is kept, the second is changed
  by_cases hn : n < 11
  · rw [dif_pos hn, if_neg (by omega)]
    rfl
  · rw [dif_neg hn, if_pos (by omega)]
    rfl

/-- Quartets changed one by one, where `value` tells what each place of a quartet receives. -/
theorem letters_overQuartets (f : Int → Int → Int → Int → Vector Int 4) (s : State)
    (value : Nat → Int)
    (hvalue : ∀ q j (hj : j < 4), (f (s.reg (4 * q)) (s.reg (4 * q + 1)) (s.reg (4 * q + 2))
      (s.reg (4 * q + 3)))[j] = value (4 * q + j)) (n : Nat) (h : n < 22) :
    (Row.overQuartets f s.letters)[n] =
      (if n < 20 then some (value n) else none).getD (s.reg n) := by
  by_cases hn : n < 20
  -- a place is told by its quartet and its place in the quartet
  · have hplace : 4 * (n / 4) + n % 4 = n := by omega
    rw [Row.getElem_overQuartets f s.letters_getElem hn, if_pos hn,
      hvalue (n / 4) (n % 4) (by omega), hplace]
    rfl
  · rw [Row.getElem_overQuartets_of_le f s.letters (by omega) h, if_neg hn, letters_getElem]
    rfl

theorem inQuartet_of_lt (q k : Nat) {j : Nat} (hj : j < 4) :
    Row.inQuartet (4 * q + j) k = 4 * q + (j + k) % 4 := by
  unfold Row.inQuartet
  omega

/-- Quartets in which each letter meets the next. -/
theorem letters_mix (g : Int → Int → Int) (s : State) (n : Nat) (h : n < 22) :
    (Row.overQuartets (fun a b c d => #v[g a b, g b c, g c d, g d a]) s.letters)[n] =
      (if n < 20 then some (g (s.reg n) (s.reg (Row.inQuartet n 1))) else none).getD (s.reg n) := by
  apply letters_overQuartets _ s fun n => g (s.reg n) (s.reg (Row.inQuartet n 1))
  intro q j hj
  rw [inQuartet_of_lt q 1 hj]
  match j, hj with
  | 0, _ | 1, _ | 2, _ | 3, _ => rfl

theorem letters_rotate (g : Int → Int) (s : State) (n : Nat) (h : n < 22) :
    (Row.overQuartets (fun a b c d => #v[g c, g d, g a, g b]) s.letters)[n] =
      (if n < 20 then some (g (s.reg (Row.inQuartet n 2))) else none).getD (s.reg n) := by
  apply letters_overQuartets _ s fun n => g (s.reg (Row.inQuartet n 2))
  intro q j hj
  rw [inQuartet_of_lt q 2 hj]
  match j, hj with
  | 0, _ | 1, _ | 2, _ | 3, _ => rfl

theorem letters_round (k : Int) (s : State) (n : Nat) (h : n < 22) :
    (s.round k).letters[n] = (roundEntry k s.reg n).getD (s.reg n) := by
  have hletters := s.letters_getElem
  unfold State.round roundEntry
  match n with
  | 0 | 1 | 2 | 3 => simp [hletters]
  | n + 4 => simp [hletters]

theorem letters_kaf (s : State) (n : Nat) (h : n < 22) :
    (kaf.run s).letters[n] = residue (∑ j ∈ range 4, s.reg ((n + j) % 22)) := by
  -- the window of four is summed as two windows of two
  have hpairs : ∀ i (hi : i < 22),
      (Vector.zipWith (· + ·) s.letters (Row.turn 1 s.letters))[i] =
        s.reg i + s.reg ((i + 1) % 22) := by
    intro i hi
    have hbehind : (((i : Int) + 1) % 22).toNat = (i + 1) % 22 := by omega
    rw [Vector.getElem_zipWith, Row.getElem_turn_of_eq s.letters_getElem, letters_getElem, hbehind]
  have hbehind : (((n : Int) + 2) % 22).toNat = (n + 2) % 22 := by omega
  have hthird : ((n + 2) % 22 + 1) % 22 = (n + 3) % 22 := by omega
  have hself : n % 22 = n := Nat.mod_eq_of_lt h
  simp only [run]
  rw [Vector.getElem_map, Vector.getElem_zipWith, Row.getElem_turn_of_eq hpairs, hpairs n h,
    hbehind, hthird]
  simp only [sum_range_succ, sum_range_zero, Nat.add_zero, hself, zero_add]
  rw [add_assoc (s.reg n + _)]

theorem getElem_means (s : State) (n : Nat) (h : n < 22) :
    ((Vector.zipWith (· + ·) (Vector.zipWith (· + ·) ((Row.balance s.letters).turn (-1))
      (Row.balance s.letters)) ((Row.balance s.letters).turn 1)).map (·.tdiv 3))[n] =
      neighbourMean s.reg n := by
  have hring := s.getElem_balance
  have hbefore : (((n : Int) + -1) % 22).toNat = (n + 21) % 22 := by omega
  have hbehind : (((n : Int) + 1) % 22).toNat = (n + 1) % 22 := by omega
  rw [Vector.getElem_map, Vector.getElem_zipWith, Vector.getElem_zipWith,
    Row.getElem_turn_of_eq hring, Row.getElem_turn_of_eq hring, hring n h, hbefore, hbehind]
  rfl

/-- Two numbers are compared, and the greater one decides which head of a half is written. -/
theorem getElem_setHeads (r : Row) (first second x y : Int) (n : Nat) (h : n < 22) :
    (if first > second then r.set 0 x else if second > first then r.set 11 y else r)[n] =
      (if n = 0 ∧ first > second then some x
        else if n = 11 ∧ second > first then some y
        else none).getD r[n] := by
  -- equal sums write no head
  rcases lt_trichotomy first second with hlt | heq | hgt
  · have hnot : ¬ first > second := not_lt.mpr (le_of_lt hlt)
    by_cases h11 : n = 11
    · simp [hnot, hlt, h11]
    · simp [hnot, hlt, h11, Ne.symm h11]
  · simp [heq]
  · have hnot : ¬ second > first := not_lt.mpr (le_of_lt hgt)
    by_cases h0 : n = 0
    · simp [hgt, h0]
    · simp [hnot, hgt, h0, Ne.symm h0]

theorem letters_compareHalves (s : State) (n : Nat) (h : n < 22) :
    s.compareHalves.letters[n] = (tsadi.entry s.reg n).getD (s.reg n) := by
  have hfirst := s.getElem_first_balance
  have hsecond := s.getElem_second_balance
  have hacc : n ≠ 22 := by omega
  unfold State.compareHalves
  simp only [sum_eq_sum_range _ _ hfirst, sum_eq_sum_range _ _ hsecond,
    Row.greatest_eq_greatestTo _ _ hfirst, Row.greatest_eq_greatestTo _ _ hsecond]
  rw [getElem_setHeads, letters_getElem, entry, if_neg hacc]

theorem acc_compareHalves (s : State) :
    s.compareHalves.acc = (tsadi.entry s.reg 22).getD (s.reg 22) := by
  unfold State.compareHalves
  simp only [sum_eq_sum_range _ _ s.getElem_first_balance,
    sum_eq_sum_range _ _ s.getElem_second_balance]
  rfl

theorem letters_run (op : Opcode) (s : State) (n : Nat) (h : n < 22) :
    (op.run s).letters[n] = (op.entry s.reg n).getD (s.reg n) := by
  have hletters := s.letters_getElem
  cases op with
  | alef => exact hletters n h
  | bet | gimel => exact letters_mapSecond _ s n h
  | dalet =>
    simp only [run, entry, Row.getElem_ofHalves]
    by_cases hn : n < 11
    · rw [dif_pos hn, if_pos hn]
      simp [hletters, Nat.add_comm]
    · have hplace : 11 + (n - 11) = n := by omega
      rw [dif_neg hn, if_neg hn, if_pos h]
      simp [hletters, hplace]
  | vav =>
    simp only [run, entry, Row.getElem_ofHalves]
    by_cases hn : n < 11
    · rw [dif_pos hn, if_pos hn]
      simp [hletters, Nat.add_comm]
    · rw [dif_neg hn, if_neg hn, if_pos h]
      simp [hletters]
  | hei | zayin | chet | tet | nun | ayin => simp [run, entry, hletters, h]
  | yod =>
    simp only [run, entry, if_pos h]
    exact Vector.getElem_replicate h
  | kaf =>
    rw [letters_kaf, entry, if_pos h]
    rfl
  | lamed => simp [run, entry, hletters, h, sum_balance]
  | mem =>
    simp only [run, entry, if_pos h]
    rw [Vector.getElem_map, getElem_means]
    rfl
  -- the ring is turned by the residue of the accumulator
  | samekh =>
    simp only [run, entry, if_pos h]
    rw [Row.getElem_turn_of_eq hletters]
    rfl
  | pe =>
    simp only [run, State.spread, entry]
    rw [Vector.getElem_set, Vector.getElem_set]
    -- two places are written, and both add the first letter
    by_cases h1 : n = 1
    · simp [h1, hletters]
    · by_cases h21 : n = 21
      · simp [h21, hletters]
      · rw [if_neg (by omega), if_neg (by omega), if_neg (by omega), if_neg (by omega), hletters]
        rfl
  | tsadi => exact letters_compareHalves s n h
  | qof =>
    have hplace : (21 - (21 - n : Nat) : Int) = n := by omega
    simp only [run, entry, if_pos h]
    simp [hletters, hplace]
  | resh =>
    simp only [run, entry, if_pos h, hletters]
    rw [Vector.getElem_ofFn]
    rfl
  | shin =>
    simp only [run, entry, shinEntry, if_pos h]
    exact letters_mix (fun a b => residue (a * a + b)) s n h
  | tav => exact letters_rotate id s n h
  | sovav => exact letters_round 0 s n h

theorem letters_runWith (op : Opcode) (k : Int) (s : State) (n : Nat) (h : n < 22) :
    (op.runWith k s).letters[n] = (op.entryWith k s.reg n).getD (s.reg n) := by
  cases op with
  | bet => exact letters_mapSecond (fun a b => residue (b + a + k)) s n h
  | gimel => exact letters_mapSecond (fun a b => residue (b * a + k)) s n h
  | tav => exact letters_rotate (fun x => residue (x + k)) s n h
  | sovav => exact letters_round k s n h
  | _ =>
    simp only [runWith, entryWith]
    exact letters_run _ s n h

/-! ## The accumulator -/

theorem correlations_getElem (s : State) (k : Nat) (h : k < 11) :
    (Row.correlations s.letters)[k] = correlation s.reg k := by
  unfold Row.correlations correlation
  rw [Vector.getElem_ofFn]
  apply sum_eq_sum_range
  intro i hi
  have hplace : (((i : Int) + (11 + k)) % 22).toNat = (i + 11 + k) % 22 := by omega
  rw [Vector.getElem_zipWith, getElem_first_balance, Row.getElem_first,
    Row.getElem_turn_of_eq s.getElem_balance, hplace]

theorem acc_run (op : Opcode) (s : State) :
    (op.run s).acc = (op.entry s.reg 22).getD (s.reg 22) := by
  have hletters := s.letters_getElem
  cases op with
  | hei =>
    have hsigns : Row.sum (Vector.map (fun x => (balanced x).sign) s.letters) =
        ∑ i ∈ range 22, (balanced (s.reg i)).sign := by
      apply sum_eq_sum_range
      intro i hi
      rw [Vector.getElem_map, hletters]
    simp only [run, hsigns]
    rfl
  | tet =>
    have hsquares : Row.sum (Vector.map (fun x => x * x) s.letters) =
        ∑ i ∈ range 22, s.reg i * s.reg i := by
      apply sum_eq_sum_range
      intro i hi
      rw [Vector.getElem_map, hletters]
    simp only [run, hsquares]
    rfl
  | lamed =>
    simp only [run, sum_balance]
    rfl
  | mem =>
    simp only [run, sum_eq_sum_range _ _ (getElem_means s)]
    rfl
  | ayin =>
    simp only [run, Row.greatest_eq_greatestTo _ _ (correlations_getElem s)]
    rfl
  | tsadi => exact acc_compareHalves s
  | shin =>
    -- the greatest of the mixed letters is at least the zero that the fold starts from
    have hmixed : ∀ i (hi : i < 22), (Vector.map (fun x => ((balanced x).natAbs : Int))
        (shin.run s).letters)[i] =
          ((balanced ((shinEntry s.reg i).getD (s.reg i))).natAbs : Int) := by
      intro i hi
      rw [Vector.getElem_map, letters_run, entry, if_pos hi]
    have hgreatest := foldl_max_eq_greatestTo _ 0 _ hmixed ⟨0, by decide, Int.natCast_nonneg _⟩
    simp only [run] at hgreatest
    simp only [run, entry, hgreatest]
    rfl
  | sovav => rfl
  | pe => simp [run, State.spread, entry, hletters]
  | _ => simp [run, entry, reg_acc]

theorem acc_run_of_entry {op : Opcode} {s : State} (h : op.entry s.reg 22 = none) :
    (op.run s).acc = s.acc := by
  rw [acc_run, h]
  rfl

theorem acc_runWith (op : Opcode) (k : Int) (s : State) :
    (op.runWith k s).acc = (op.entryWith k s.reg 22).getD (s.reg 22) := by
  cases op with
  | bet | gimel | tav | sovav => rfl
  | _ =>
    simp only [runWith, entryWith]
    exact acc_run _ s

end Opcode

/-! ## Instructions -/

namespace State

theorem reg_eq_of_letters_of_acc {s : State} {f : Nat → Int}
    (hletters : ∀ n (h : n < 22), s.letters[n] = f n) (hacc : s.acc = f 22) {n : Nat}
    (h : n < 23) : s.reg n = f n := by
  by_cases hn : n < 22
  · rw [← letters_getElem s n hn, hletters n hn]
  · obtain rfl : n = 22 := by omega
    exact hacc

theorem drift_eq_sum (before after : State) :
    before.drift after = ∑ n ∈ range 23, (after.reg n - before.reg n) := by
  have hletters : Row.sum (Vector.zipWith (· - ·) after.letters before.letters) =
      ∑ n ∈ range 22, (after.reg n - before.reg n) := by
    apply sum_eq_sum_range
    intro i hi
    rw [Vector.getElem_zipWith, letters_getElem, letters_getElem]
  rw [drift, hletters, sum_range_succ _ 22]
  rfl

end State

theorem Opcode.reg_run (op : Opcode) (s : State) {n : Nat} (h : n < 23) :
    (op.run s).reg n = (op.entry s.reg n).getD (s.reg n) :=
  State.reg_eq_of_letters_of_acc (f := fun n => (op.entry s.reg n).getD (s.reg n))
    (op.letters_run s) (op.acc_run s) h

theorem Opcode.reg_runWith (op : Opcode) (k : Int) (s : State) {n : Nat} (h : n < 23) :
    (op.runWith k s).reg n = (op.entryWith k s.reg n).getD (s.reg n) :=
  State.reg_eq_of_letters_of_acc (f := fun n => (op.entryWith k s.reg n).getD (s.reg n))
    (op.letters_runWith k s) (op.acc_runWith k s) h

theorem Instruction.reg_apply (i : Instruction) (s : State) {n : Nat} (h : n < 23) :
    (i.apply s).reg n = (i.entry s.reg n).getD (s.reg n) := by
  obtain ⟨op, mode, k⟩ := i
  cases mode with
  | plain => exact op.reg_run s h
  | immediate => exact op.reg_runWith k s h
  | query =>
    have hdrift : s.drift (op.run s) =
        ∑ j ∈ range 23, ((op.entry s.reg j).getD (s.reg j) - s.reg j) := by
      rw [State.drift_eq_sum]
      apply sum_congr rfl
      intro j hj
      rw [op.reg_run s (mem_range.mp hj)]
    -- a query keeps the letters, and its accumulator gets the sum of changes
    by_cases hn : n < 22
    · rw [entry, if_neg (by omega)]
      exact (State.letters_getElem _ n hn).symm.trans (s.letters_getElem n hn)
    · obtain rfl : n = 22 := by omega
      rw [entry, if_pos rfl, ← hdrift]
      rfl

theorem State.ofList_map_range {s : State} {f : Nat → Int} (h : ∀ n, n < 23 → s.reg n = f n) :
    State.ofList ((List.range 23).map f) = .ok s := by
  unfold ofList
  rw [dif_pos (by simp)]
  apply congrArg Except.ok
  apply ext_get
  intro i
  rw [get_ofSlots]
  simp [← h i.val i.isLt, reg_val]

/-- Applying an instruction yields the twenty-three numbers of the table.  A register without an
entry keeps its number as it is stored, and only four opcodes take up an operand. -/
theorem Instruction.apply_eq_table (i : Instruction) (s : State) :
    State.ofList ((List.range 23).map fun n => (i.entry s.reg n).getD (s.reg n)) =
        .ok (i.apply s) ∧
      (i.apply s).toList.length = 23 ∧
      (∀ j : Slot, (i.apply s).get j = (i.entry s.reg j).getD (s.get j)) ∧
      (∀ j : Slot, i.entry s.reg j = none → (i.apply s).get j = s.get j) ∧
      (i.op ∉ [Opcode.bet, .gimel, .tav, .sovav] →
        ∀ k, Instruction.apply ⟨i.op, .immediate, k⟩ s = (Instruction.ofOpcode i.op).apply s) := by
  have hget : ∀ j : Slot, (i.apply s).get j = (i.entry s.reg j).getD (s.get j) := by
    intro j
    rw [← State.reg_val, i.reg_apply s j.isLt, State.reg_val]
  refine ⟨State.ofList_map_range fun n h => i.reg_apply s h, ?_, hget, ?_, ?_⟩
  · simp [State.toList]
  · intro j hnone
    rw [hget, hnone]
    rfl
  · intro hop k
    obtain ⟨op, mode, operand⟩ := i
    cases op with
    | bet | gimel | tav | sovav => simp at hop
    | _ => rfl

/-- An operand without effect, over numbers beyond the residues: a letter without an entry keeps
its own as it is. -/
theorem Instruction.apply_eq_table_pe :
    let i : Instruction := ⟨.pe, .immediate, 7⟩
    let s := State.ofSlots fun j => 22 * j.val + 3
    (i.entry s.reg (5 : Slot) = none ∧ i.op ∉ [Opcode.bet, .gimel, .tav, .sovav]) ∧
      (i.apply s).get 5 = s.get 5 ∧ s.get 5 = 113 ∧
      Instruction.apply ⟨i.op, .immediate, -1⟩ s = (Instruction.ofOpcode i.op).apply s := by
  intro i s
  have hnone : i.entry s.reg (5 : Slot) = none := by decide
  have hop : i.op ∉ [Opcode.bet, .gimel, .tav, .sovav] := by decide
  obtain ⟨-, -, -, hkept, hignored⟩ := Instruction.apply_eq_table i s
  exact ⟨⟨hnone, hop⟩, hkept 5 hnone, by decide, hignored hop (-1)⟩

end LetterMachine
