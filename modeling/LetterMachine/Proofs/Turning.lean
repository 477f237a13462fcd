import LetterMachine.Proofs.Row
import LetterMachine.Proofs.Run
import Mathlib.Algebra.Group.Fin.Basic
import Mathlib.Algebra.Group.Units.Equiv

/-!
# Turning the ring

The letters stand on a ring.  Half of the operators treat all its places alike: they look at a
letter, at its neighbours on the ring and at sums over all letters.  A program of these does not see
where the ring starts: from a turned state it leads to the turned result.
-/

open Finset

namespace LetterMachine

/-- A sum over the ring may start at any place. -/
theorem sum_range_turn (f : Nat → Int) (k : Nat) :
    ∑ i ∈ range 22, f ((i + k) % 22) = ∑ i ∈ range 22, f i := by
  have hplace : ∀ i : Fin 22, (i.val + k) % 22 = (i + Fin.ofNat 22 k).val := by
    intro i
    rw [Fin.val_add, Fin.val_ofNat, Nat.add_mod_mod]
  rw [← Fin.sum_univ_eq_sum_range, ← Fin.sum_univ_eq_sum_range]
  simp only [hplace]
  exact Equiv.sum_comp (Equiv.addRight (Fin.ofNat 22 k)) fun i : Fin 22 => f i

namespace Row

variable (k : Int) (r : Row)

theorem turn_map (f : Int → Int) : Row.turn k (r.map f) = (r.turn k).map f := by
  apply Vector.ext
  intro i hi
  rw [Vector.getElem_map, getElem_turn, getElem_turn]
  exact Vector.getElem_map ..

theorem turn_zipWith (f : Int → Int → Int) (a b : Row) :
    Row.turn k (Vector.zipWith f a b) = Vector.zipWith f (a.turn k) (b.turn k) := by
  apply Vector.ext
  intro i hi
  rw [Vector.getElem_zipWith, getElem_turn, getElem_turn, getElem_turn]
  exact Vector.getElem_zipWith ..

theorem turn_replicate (x : Int) : Row.turn k (Vector.replicate 22 x) = Vector.replicate 22 x := by
  apply Vector.ext
  intro i hi
  rw [getElem_turn, Vector.getElem_replicate]
  exact Vector.getElem_replicate _

theorem turn_turn (j : Int) : (r.turn j).turn k = r.turn (k + j) := by
  apply Vector.ext
  intro i hi
  have hplace : ((((i + k) % 22).toNat : Int) + j) % 22 = (i + (k + j)) % 22 := by omega
  rw [getElem_turn, getElem_turn]
  refine (getElem_turn j r _ _).trans ?_
  simp only [hplace]

theorem turn_comm (j : Int) : (r.turn j).turn k = (r.turn k).turn j := by
  rw [turn_turn, turn_turn, add_comm]

theorem turn_of_dvd {k : Int} (h : 22 ∣ k) : r.turn k = r := by
  apply Vector.ext
  intro i hi
  have hplace : (((i : Int) + k) % 22).toNat = i := by omega
  rw [getElem_turn]
  simp only [hplace]
  rfl

theorem sum_turn : Row.sum (r.turn k) = Row.sum r := by
  have hr : ∀ i (hi : i < 22), r[i] = r.toList.getD i 0 := by
    intro i hi
    simp [hi]
  have hplace : ∀ i : Nat, (((i : Int) + k) % 22).toNat = (i + (k % 22).toNat) % 22 := by omega
  rw [sum_eq_sum_range r _ hr, sum_eq_sum_range _ _ (getElem_turn_of_eq hr k)]
  simp only [hplace]
  exact sum_range_turn (r.toList.getD · 0) _

end Row

/-- The state with its letters turned to the left, so that the letter in place `k` comes first. -/
def State.turn (k : Int) (s : State) : State := { s with letters := Row.turn k s.letters }

theorem State.acc_turn (k : Int) (s : State) : (s.turn k).acc = s.acc := by
  unfold turn
  rfl

theorem State.drift_turn (k : Int) (s t : State) : (s.turn k).drift (t.turn k) = s.drift t := by
  unfold drift turn
  rw [← Row.turn_zipWith, Row.sum_turn]

theorem State.turn_turn (s : State) (j k : Int) : (s.turn j).turn k = s.turn (k + j) := by
  unfold turn
  rw [Row.turn_turn]

theorem State.turn_of_dvd (s : State) {k : Int} (h : 22 ∣ k) : s.turn k = s := by
  unfold turn
  rw [Row.turn_of_dvd _ h]

/-- The opcodes that treat all places of the ring alike. -/
def Opcode.circular : List Opcode :=
  [alef, hei, zayin, chet, tet, yod, kaf, lamed, mem, nun, samekh]

section

variable (k : Int) (s : State)

theorem Opcode.run_turn {op : Opcode} (hop : op ∈ circular) :
    op.run (s.turn k) = (op.run s).turn k := by
  cases op with
  | alef => rfl
  | yod => simp [run, State.turn, Row.turn_replicate]
  -- these look at a letter and at sums
  | hei | zayin | chet | tet | nun | lamed =>
    simp [run, State.turn, Row.balance, ← Row.turn_map, Row.sum_turn]
  -- these turn the ring themselves
  | kaf | mem | samekh =>
    have hturn : ∀ (j : Int) (r : Row), (r.turn k).turn j = (r.turn j).turn k :=
      fun j r => r.turn_comm j k
    simp [run, State.turn, Row.balance, hturn, ← Row.turn_map, ← Row.turn_zipWith, Row.sum_turn]
  | _ => simp [circular] at hop

/-- No circular opcode takes an operand. -/
theorem Opcode.runWith_of_circular {op : Opcode} (hop : op ∈ circular) (n : Int) :
    op.runWith n s = op.run s := by
  cases op with
  | bet | gimel | tav | sovav => simp [circular] at hop
  | _ => rfl

theorem Instruction.apply_turn {i : Instruction} (hop : i.op ∈ Opcode.circular) :
    i.apply (s.turn k) = (i.apply s).turn k := by
  obtain ⟨op, mode, n⟩ := i
  have hrun : op.run (s.turn k) = (op.run s).turn k := Opcode.run_turn k s hop
  cases mode with
  | plain => exact hrun
  | query =>
    simp only [apply, hrun, State.drift_turn]
    rfl
  | immediate =>
    simp only [apply, Opcode.runWith_of_circular _ hop, hrun]

/-- A program of circular opcodes, in whatever modes, leads from the turned state to the turned
result, with the same accumulator. -/
theorem State.after_turn {p : Program} (hp : ∀ i ∈ p, i.op ∈ Opcode.circular) :
    (s.turn k).after p = (s.after p).turn k ∧ ((s.turn k).after p).acc = (s.after p).acc := by
  have hstate : (s.turn k).after p = (s.after p).turn k := by
    -- over the instructions, with the state free: each step hands the turn on
    induction p generalizing s with
    | nil => rfl
    | cons i p ih =>
      obtain ⟨hi, hp⟩ := List.forall_mem_cons.mp hp
      rw [after_cons, after_cons, i.apply_turn k s hi, ih (i.apply s) hp]
  refine ⟨hstate, ?_⟩
  rw [hstate, acc_turn]

end

/-- The window of kaf and the mean of mem reach around the ring, and samekh turns it. -/
theorem State.after_turn_window :
    let p : Program := [⟨.kaf, .plain, 0⟩, ⟨.mem, .query, 0⟩, ⟨.samekh, .immediate, 5⟩]
    let s := State.ofSlots fun j => 3 * j.val * j.val - 40
    (∀ i ∈ p, i.op ∈ Opcode.circular) ∧ (s.turn (-5)).after p = (s.after p).turn (-5) ∧
      ((s.turn (-5)).after p).acc = (s.after p).acc ∧ s.after p ≠ s := by
  intro p s
  have hp : ∀ i ∈ p, i.op ∈ Opcode.circular := by decide
  obtain ⟨hstate, hacc⟩ := State.after_turn (-5) s hp
  exact ⟨hp, hstate, hacc, by decide +kernel⟩

end LetterMachine
