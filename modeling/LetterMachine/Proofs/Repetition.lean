import LetterMachine.Proofs.Run
import Mathlib.Logic.Function.Iterate
import Mathlib.Data.Nat.Init

/-!
# An instruction again and again

A program that holds nothing but one instruction iterates the step of this instruction.  Once the
step leaves a state alone, the state stays for the rest of the run.
-/

namespace LetterMachine

/-- The state after an instruction so many times. -/
def State.afterTimes (s : State) (n : Nat) (i : Instruction) : State :=
  s.after (List.replicate n i)

theorem Instruction.apply_ofOpcode (op : Opcode) : (ofOpcode op).apply = op.run := rfl

theorem Instruction.apply_immediate (op : Opcode) (k : Int) :
    Instruction.apply ⟨op, .immediate, k⟩ = op.runWith k := rfl

namespace State

variable (s : State) (i : Instruction)

theorem afterTimes_eq_iterate (n : Nat) : s.afterTimes n i = i.apply^[n] s := by
  unfold afterTimes
  induction n generalizing s with
  | zero => rfl
  | succ n ih =>
    rw [List.replicate_succ, Function.iterate_succ_apply, ← ih]
    rfl

theorem afterTimes_succ (n : Nat) : s.afterTimes (n + 1) i = i.apply (s.afterTimes n i) := by
  rw [afterTimes_eq_iterate, afterTimes_eq_iterate, Function.iterate_succ_apply']

theorem afterTimes_apply (n : Nat) : (i.apply s).afterTimes n i = s.afterTimes (n + 1) i := by
  rw [afterTimes_eq_iterate, afterTimes_eq_iterate, Function.iterate_succ_apply]

theorem afterTimes_of_rest {n : Nat} (h : i.apply (s.afterTimes n i) = s.afterTimes n i) {k : Nat}
    (hk : n ≤ k) : s.afterTimes k i = s.afterTimes n i := by
  induction k, hk using Nat.le_induction with
  | base => rfl
  | succ k _ ih => rw [afterTimes_succ, ih, h]

end State

end LetterMachine
