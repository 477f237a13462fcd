import LetterMachine.Proofs.Congruence

/-!
# Operands

Bet, gimel, tav and the round take up an operand in immediate mode, and do without one in plain
mode.  In bet, gimel and tav the operand is added last, to the numbers that are written, and the sum
is reduced; tav alone writes unreduced numbers when it has no operand.  In the round the operand
comes first, and reaches three of the four letters twice.

The round is solved here too: what it makes of the first four letters, and which states it makes
equal.
-/

namespace LetterMachine

open Opcode

theorem residue_residue_add (x k : Int) : residue (residue x + k) = residue (x + k) :=
  residue_congr ((residue_modEq x).add_right k)

/-! ## Operands that are added last -/

namespace Opcode

/-- The opcodes that add their operand to what they write. -/
def addsLast : List Opcode := [bet, gimel, tav]

variable (old : Nat → Int) (k : Int) (n : Nat)

theorem entryWith_eq_map {op : Opcode} (hop : op ∈ addsLast) :
    op.entryWith k old n = (op.entry old n).map fun x => residue (x + k) := by
  cases op with
  | bet | gimel =>
    simp only [entryWith, entry]
    split
    · simp [residue_residue_add]
    · rfl
  | tav =>
    simp only [entryWith, entry]
    split
    · rfl
    · rfl
  | _ => simp [addsLast] at hop

/-- Without an operand, and with an operand of zero, the same is written: bet and gimel reduce what
they write in any case. -/
theorem entryWith_zero {op : Opcode} (hop : op ≠ tav) : op.entryWith 0 old n = op.entry old n := by
  cases op with
  | bet | gimel => simp [entryWith, entry]
  | tav => exact absurd rfl hop
  | _ => rfl

theorem isSome_entry_second {op : Opcode} (hop : op ∈ [bet, gimel]) :
    (op.entry old n).isSome ↔ 11 ≤ n ∧ n < 22 := by
  cases op with
  | bet | gimel => simp [entry]
  | _ => simp at hop

theorem isSome_entry_tav : (tav.entry old n).isSome ↔ 0 ≤ n ∧ n < 20 := by
  simp [entry]

end Opcode

namespace State

/-- The state with `f` applied to the registers from place `lo` up to place `hi`. -/
def mapRange (lo hi : Nat) (f : Int → Int) (s : State) : State :=
  ofSlots fun j => if lo ≤ j.val ∧ j.val < hi then f (s.get j) else s.get j

theorem reg_mapRange (lo hi : Nat) (f : Int → Int) (s : State) {n : Nat} (h : n < 23) :
    (s.mapRange lo hi f).reg n = if lo ≤ n ∧ n < hi then f (s.reg n) else s.reg n :=
  get_ofSlots _ ⟨n, h⟩

end State

theorem Opcode.runWith_zero (s : State) {op : Opcode} (hop : op ≠ tav) :
    op.runWith 0 s = op.run s := by
  apply State.ext_reg_lt
  intro n hn
  rw [op.reg_runWith 0 s hn, op.reg_run s hn, entryWith_zero s.reg n hop]

/-- The operand is added where the opcode writes, and nowhere else. -/
theorem Opcode.runWith_eq_mapRange (s : State) (k : Int) {op : Opcode} (hop : op ∈ addsLast)
    {lo hi : Nat} (hplaces : ∀ n, (op.entry s.reg n).isSome ↔ lo ≤ n ∧ n < hi) :
    op.runWith k s = (op.run s).mapRange lo hi fun x => residue (x + k) := by
  apply State.ext_reg_lt
  intro n hn
  rw [op.reg_runWith k s hn, State.reg_mapRange _ _ _ _ hn, op.reg_run s hn,
    entryWith_eq_map s.reg k n hop]
  -- a place belongs to the range exactly if it is written
  have hplace := hplaces n
  cases hentry : op.entry s.reg n with
  | none =>
    rw [hentry] at hplace
    rw [if_neg (by simpa using hplace)]
    rfl
  | some x =>
    rw [hentry] at hplace
    rw [if_pos (by simpa using hplace)]
    rfl

/-! ## The round -/

namespace State

/-- The first and the third letter mixed, with the operand. -/
def evens (s : State) (k : Int) : Int := s.reg 0 + 3 * s.reg 2 + k

/-- The second and the fourth letter mixed, with the operand. -/
def odds (s : State) (k : Int) : Int := s.reg 1 + 5 * s.reg 3 + k

/-- What the round with an operand makes of a state. -/
structure Rounded (k : Int) (s t : State) : Prop where
  first : t.reg 0 = s.evens k + s.odds k
  second : t.reg 1 = s.evens k - s.odds k
  third : t.reg 2 = 3 * s.evens k - s.odds k
  fourth : t.reg 3 = 2 * s.odds k + s.reg 0
  rest : ∀ n, 4 ≤ n → n < 23 → t.reg n = s.reg n

theorem rounded_round (s : State) (k : Int) : Rounded k s (s.round k) := by
  have hreg : ∀ n < 23, (s.round k).reg n = (roundEntry k s.reg n).getD (s.reg n) :=
    fun n hn => reg_runWith .sovav k s hn
  refine ⟨hreg 0 (by omega), hreg 1 (by omega), hreg 2 (by omega), hreg 3 (by omega), ?_⟩
  intro n hn hlt
  obtain ⟨m, rfl⟩ := Nat.exists_eq_add_of_le' hn
  exact hreg (m + 4) hlt

theorem round_eq_iff (s t : State) (k : Int) :
    s.round k = t.round k ↔
      s.reg 0 = t.reg 0 ∧ s.reg 2 = t.reg 2 ∧ s.reg 1 + 5 * s.reg 3 = t.reg 1 + 5 * t.reg 3 ∧
        ∀ n, 4 ≤ n → n < 23 → s.reg n = t.reg n := by
  have hs := s.rounded_round k
  have ht := t.rounded_round k
  constructor
  · intro h
    rw [← h] at ht
    -- the first two letters tell what was mixed, and the fourth tells its parts apart
    have hsum : s.evens k + s.odds k = t.evens k + t.odds k := hs.first.symm.trans ht.first
    have hdifference : s.evens k - s.odds k = t.evens k - t.odds k := hs.second.symm.trans ht.second
    have hfourth : 2 * s.odds k + s.reg 0 = 2 * t.odds k + t.reg 0 := hs.fourth.symm.trans ht.fourth
    unfold evens odds at hsum hdifference hfourth
    refine ⟨by omega, by omega, by omega, ?_⟩
    intro n hn hlt
    rw [← hs.rest n hn hlt, ht.rest n hn hlt]
  · rintro ⟨hfirst, hthird, hmixed, hrest⟩
    have hevens : s.evens k = t.evens k := by
      unfold evens
      rw [hfirst, hthird]
    have hodds : s.odds k = t.odds k := by
      unfold odds
      rw [hmixed]
    apply ext_reg_lt
    intro n hn
    by_cases hfour : 4 ≤ n
    · rw [hs.rest n hfour hn, ht.rest n hfour hn, hrest n hfour hn]
    · obtain rfl | rfl | rfl | rfl : n = 0 ∨ n = 1 ∨ n = 2 ∨ n = 3 := by omega
      · rw [hs.first, ht.first, hevens, hodds]
      · rw [hs.second, ht.second, hevens, hodds]
      · rw [hs.third, ht.third, hevens, hodds]
      · rw [hs.fourth, ht.fourth, hodds, hfirst]

/-- An operand reaches three letters twice.  In the second letter it cancels out. -/
theorem round_add (s : State) (k : Int) :
    (s.round k).reg 0 = (s.round 0).reg 0 + 2 * k ∧ (s.round k).reg 1 = (s.round 0).reg 1 ∧
      (s.round k).reg 2 = (s.round 0).reg 2 + 2 * k ∧
      (s.round k).reg 3 = (s.round 0).reg 3 + 2 * k ∧
      ∀ n, 4 ≤ n → n < 23 → (s.round k).reg n = (s.round 0).reg n := by
  have hk := s.rounded_round k
  have hzero := s.rounded_round 0
  have hevens : s.evens k = s.evens 0 + k := by
    unfold evens
    omega
  have hodds : s.odds k = s.odds 0 + k := by
    unfold odds
    omega
  refine ⟨?_, ?_, ?_, ?_, ?_⟩
  · rw [hk.first, hzero.first]
    omega
  · rw [hk.second, hzero.second]
    omega
  · rw [hk.third, hzero.third]
    omega
  · rw [hk.fourth, hzero.fourth]
    omega
  · intro n hn hlt
    rw [hk.rest n hn hlt, hzero.rest n hn hlt]

/-- The round makes two states equal if and only if they agree in the first letter, in the third, in
the second plus five times the fourth, and behind the fourth: of four letters three are left to
tell.  So the third letter of a result is made up of the two before it, and these are both even or
both odd. -/
theorem apply_round_eq_iff (s t : State) (k : Int) :
    let round := Instruction.apply ⟨.sovav, .immediate, k⟩
    (round s = round t ↔
        s.reg 0 = t.reg 0 ∧ s.reg 2 = t.reg 2 ∧ s.reg 1 + 5 * s.reg 3 = t.reg 1 + 5 * t.reg 3 ∧
          ∀ n, 4 ≤ n → n < 23 → s.reg n = t.reg n) ∧
      ((round s).reg 2 = (round s).reg 0 + 2 * (round s).reg 1 ∧
        (round s).reg 0 % 2 = (round s).reg 1 % 2) ∧
      ∀ operand, Instruction.apply ⟨.sovav, .plain, operand⟩ s =
        Instruction.apply ⟨.sovav, .immediate, 0⟩ s := by
  intro round
  have hs : Rounded k s (round s) := s.rounded_round k
  refine ⟨s.round_eq_iff t k, ⟨?_, ?_⟩, fun _ => rfl⟩
  · rw [hs.first, hs.second, hs.third]
    omega
  · rw [hs.first, hs.second]
    omega

/-- Five taken off the second letter and one put on the fourth: two states that no round tells
apart. -/
theorem apply_round_eq_iff_lost :
    let s := ofSlots fun j => 3 * j.val - 20
    let t := (s.set 1 (s.get 1 - 5)).set 3 (s.get 3 + 1)
    let round := Instruction.apply ⟨.sovav, .immediate, -9⟩
    (∀ n, 4 ≤ n → n < 23 → s.reg n = t.reg n) ∧ round s = round t ∧ s ≠ t ∧
      (round s).reg 2 = (round s).reg 0 + 2 * (round s).reg 1 := by
  intro s t round
  have hrest : ∀ n, 4 ≤ n → n < 23 → s.reg n = t.reg n := by decide +kernel
  obtain ⟨hiff, ⟨hthird, -⟩, -⟩ := apply_round_eq_iff s t (-9)
  exact ⟨hrest, hiff.mpr ⟨by decide, by decide, by decide, hrest⟩, by decide +kernel, hthird⟩

end State

/-! ## Operands and modes -/

/-- Immediate mode against plain mode.  With an operand of zero they agree in every opcode but tav,
which reduces what it moves.  Any operand comes on top of the plain result: reduced in the second
half for bet and gimel, reduced in the quartets for tav, and twice in three letters for the round.
No other opcode takes it up. -/
theorem Instruction.apply_immediate_eq_plain (s : State) :
    let plain := fun op => (Instruction.ofOpcode op).apply s
    let immediate := fun op k => Instruction.apply ⟨op, .immediate, k⟩ s
    (∀ op, op ≠ tav → immediate op 0 = plain op) ∧
      immediate tav 0 = (plain tav).mapRange 0 20 residue ∧
      ∀ k : Int,
        (∀ op ∈ [bet, gimel],
          immediate op k = (plain op).mapRange 11 22 fun x => residue (x + k)) ∧
        (immediate tav k = (plain tav).mapRange 0 20 fun x => residue (x + k)) ∧
        ((immediate sovav k).reg 0 = (plain sovav).reg 0 + 2 * k ∧
          (immediate sovav k).reg 1 = (plain sovav).reg 1 ∧
          (immediate sovav k).reg 2 = (plain sovav).reg 2 + 2 * k ∧
          (immediate sovav k).reg 3 = (plain sovav).reg 3 + 2 * k ∧
          ∀ n, 4 ≤ n → n < 23 → (immediate sovav k).reg n = (plain sovav).reg n) ∧
        ∀ op ∉ [bet, gimel, tav, sovav], immediate op k = plain op := by
  intro plain immediate
  have htav : ∀ k, immediate tav k = (plain tav).mapRange 0 20 fun x => residue (x + k) :=
    fun k => runWith_eq_mapRange s k (by decide) (isSome_entry_tav s.reg)
  refine ⟨fun op hop => runWith_zero s hop, ?_, fun k => ⟨?_, htav k, s.round_add k, ?_⟩⟩
  · simpa using htav 0
  · intro op hop
    have hlast : op ∈ addsLast := by
      rcases List.mem_pair.mp hop with rfl | rfl <;> decide
    exact runWith_eq_mapRange s k hlast fun n => isSome_entry_second s.reg n hop
  · intro op hop
    cases op with
    | bet | gimel | tav | sovav => simp at hop
    | _ => rfl

/-- Numbers beyond the residues: gimel reduces them in either mode, tav only with an operand. -/
theorem Instruction.apply_immediate_eq_plain_unreduced :
    let s := State.ofSlots fun j => 30 * j.val - 7
    let plain := fun op => (Instruction.ofOpcode op).apply s
    let immediate := fun op k => Instruction.apply ⟨op, .immediate, k⟩ s
    (gimel ≠ tav ∧ gimel ∈ [bet, gimel] ∧ pe ∉ [bet, gimel, tav, sovav]) ∧
      immediate gimel 0 = plain gimel ∧
      (immediate gimel (-30) = (plain gimel).mapRange 11 22 fun x => residue (x + -30)) ∧
      immediate pe 5 = plain pe ∧
      (immediate tav 0 = (plain tav).mapRange 0 20 residue ∧ immediate tav 0 ≠ plain tav) := by
  intro s plain immediate
  have hother : gimel ≠ tav := by decide
  have hsecond : gimel ∈ [bet, gimel] := by decide
  have hnone : pe ∉ [bet, gimel, tav, sovav] := by decide
  obtain ⟨hzero, htav, hoperand⟩ := Instruction.apply_immediate_eq_plain s
  obtain ⟨hadded, -⟩ := hoperand (-30)
  obtain ⟨-, -, -, hignored⟩ := hoperand 5
  exact ⟨⟨hother, hsecond, hnone⟩, hzero gimel hother, hadded gimel hsecond, hignored pe hnone,
    htav, by decide +kernel⟩

end LetterMachine
