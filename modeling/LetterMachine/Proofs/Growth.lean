import LetterMachine.Proofs.OperatorTable
import LetterMachine.Proofs.Run
import Mathlib.Data.Finset.Lattice.Fold
import Mathlib.Order.Bounds.Basic
import Mathlib.Order.Lattice.Nat

/-!
# How far numbers grow

Numbers are stored as they come, so that they may leave the residues.  Most operators write residues
and signs, or copy what is stored elsewhere; zayin and chet move the accumulator by 22, and yod may
then carry it into the letters.  So an instruction takes the greatest absolute value in a register
up by 22 at most.  Only the round multiplies it.
-/

open Finset

namespace LetterMachine

theorem natAbs_residue_le (x : Int) : (residue x).natAbs ≤ 21 := by
  have hlow := residue_nonneg x
  have hhigh := residue_lt x
  omega

theorem natAbs_sign_le (x : Int) : x.sign.natAbs ≤ 1 := by
  rw [Int.natAbs_sign]
  split <;> omega

namespace State

/-- The greatest absolute value in a register. -/
def magnitude (s : State) : Nat := univ.sup fun j : Slot => (s.get j).natAbs

variable (s : State)

theorem isGreatest_magnitude :
    IsGreatest (Set.range fun j : Slot => (s.get j).natAbs) s.magnitude := by
  constructor
  · obtain ⟨j, -, hj⟩ := exists_mem_eq_sup univ univ_nonempty fun j : Slot => (s.get j).natAbs
    exact ⟨j, hj.symm⟩
  · rintro _ ⟨j, rfl⟩
    exact le_sup (f := fun j : Slot => (s.get j).natAbs) (mem_univ j)

theorem natAbs_get_le (j : Slot) : (s.get j).natAbs ≤ s.magnitude :=
  s.isGreatest_magnitude.2 ⟨j, rfl⟩

theorem natAbs_reg_le (n : Nat) : (s.reg n).natAbs ≤ s.magnitude := by
  obtain ⟨j, hj⟩ := exists_reg_eq_get n
  rw [hj]
  exact s.natAbs_get_le j

variable {s}

theorem magnitude_le {b : Nat} (h : ∀ n < 23, (s.reg n).natAbs ≤ b) : s.magnitude ≤ b := by
  obtain ⟨j, hj⟩ := s.isGreatest_magnitude.1
  rw [← hj]
  exact h j.val j.isLt

end State

/-! ## Entries within a bound -/

namespace Opcode

/-- An entry that does not exceed a bound, if there is one. -/
def EntryWithin (b : Nat) (e : Option Int) : Prop := ∀ x ∈ e, x.natAbs ≤ b

namespace EntryWithin

variable {b : Nat}

theorem kept : EntryWithin b none := by
  intro x hx
  cases hx

theorem written {x : Int} (h : x.natAbs ≤ b) : EntryWithin b (some x) := by
  intro y hy
  cases hy
  exact h

theorem residue (x : Int) : EntryWithin (b + 22) (some (residue x)) := by
  have hx := natAbs_residue_le x
  exact written (by omega)

theorem copied {x : Int} (h : x.natAbs ≤ b) : EntryWithin (b + 22) (some x) :=
  written (by omega)

theorem ite {p : Prop} [Decidable p] {e e' : Option Int} (h : EntryWithin b e)
    (h' : EntryWithin b e') : EntryWithin b (if p then e else e') := by
  split
  · exact h
  · exact h'

theorem getD {e : Option Int} (h : EntryWithin b e) {x : Int} (hx : x.natAbs ≤ b) :
    (e.getD x).natAbs ≤ b := by
  cases e with
  | none => exact hx
  | some y => exact h y rfl

end EntryWithin

variable {b : Nat} {old : Nat → Int} (hold : ∀ n, (old n).natAbs ≤ b)
include hold

/-- The factors of the round add up to 18 in the third letter, and to less in the others. -/
theorem roundEntry_within (k : Int) (n : Nat) :
    EntryWithin (18 * b + 2 * k.natAbs) (roundEntry k old n) := by
  have h₀ := hold 0
  have h₀₂ : (old 0 + 3 * old 2).natAbs ≤ 4 * b := by
    have h₂ := hold 2
    omega
  have h₁₃ : (old 1 + 5 * old 3).natAbs ≤ 6 * b := by
    have h₁ := hold 1
    have h₃ := hold 3
    omega
  -- the operand stands in both sums, so it is kept apart from their bounds
  unfold roundEntry
  generalize old 0 + 3 * old 2 = x at h₀₂ ⊢
  generalize old 1 + 5 * old 3 = y at h₁₃ ⊢
  split
  · exact .written (by omega)
  · exact .written (by omega)
  · exact .written (by omega)
  · exact .written (by omega)
  · exact .kept

theorem entry_within {op : Opcode} (hop : op ≠ sovav) (n : Nat) :
    EntryWithin (b + 22) (op.entry old n) := by
  cases op with
  | alef => exact .kept
  | bet | gimel | kaf | qof | resh => exact .ite (.residue _) .kept
  | dalet => exact .ite (.residue _) (.ite (.residue _) .kept)
  | hei =>
    have hsign := natAbs_sign_le (balanced (old n))
    exact .ite (.written (by omega)) (.residue _)
  | vav => exact .ite (.copied (hold _)) (.ite (.copied (hold _)) .kept)
  -- the accumulator is moved without reduction
  | zayin | chet =>
    have hacc := hold 22
    exact .ite (.residue _) (.written (by omega))
  | tet | lamed | mem => exact .ite (.residue _) (.residue _)
  | yod | samekh | tav => exact .ite (.copied (hold _)) .kept
  | nun => exact .residue _
  | ayin => exact .ite .kept (.residue _)
  | pe => exact .ite (.residue _) (.ite (.copied (hold 0)) .kept)
  | tsadi => exact .ite (.residue _) (.ite (.residue _) (.ite (.residue _) .kept))
  | shin => exact .ite (.ite (.residue _) .kept) (.residue _)
  | sovav => exact absurd rfl hop

end Opcode

/-! ## One instruction -/

namespace Instruction

/-- What an instruction adds: its operand, which counts in immediate mode only. -/
def amount (i : Instruction) : Int :=
  match i.mode with
  | .immediate => i.operand
  | _ => 0

/-- The round multiplies what is stored.  As a query it only sums up. -/
def Multiplies (i : Instruction) : Prop := i.op = .sovav ∧ i.mode ≠ .query

instance (i : Instruction) : Decidable i.Multiplies := inferInstanceAs (Decidable (_ ∧ _))

variable {b : Nat} {old : Nat → Int} (hold : ∀ n, (old n).natAbs ≤ b)
include hold

theorem entry_within {i : Instruction} (hi : ¬ i.Multiplies) (n : Nat) :
    Opcode.EntryWithin (b + 22) (i.entry old n) := by
  obtain ⟨op, mode, k⟩ := i
  cases mode with
  | plain => exact Opcode.entry_within hold (fun hop => hi ⟨hop, nofun⟩) n
  | query => exact .ite (.residue _) .kept
  | immediate =>
    have hop : op ≠ .sovav := fun hop => hi ⟨hop, nofun⟩
    cases op with
    | bet | gimel | tav => exact .ite (.residue _) .kept
    | sovav => exact absurd rfl hop
    | _ => exact Opcode.entry_within hold hop n

theorem entry_within_of_multiplies {i : Instruction} (hi : i.Multiplies) (n : Nat) :
    Opcode.EntryWithin (18 * b + 2 * i.amount.natAbs) (i.entry old n) := by
  obtain ⟨op, mode, k⟩ := i
  obtain ⟨rfl, hmode⟩ := hi
  cases mode with
  | plain => exact Opcode.roundEntry_within hold 0 n
  | query => exact absurd rfl hmode
  | immediate => exact Opcode.roundEntry_within hold k n

end Instruction

namespace State

theorem magnitude_apply_le {s : State} {i : Instruction} {b : Nat}
    (hentry : ∀ n, Opcode.EntryWithin b (i.entry s.reg n)) (hb : s.magnitude ≤ b) :
    (i.apply s).magnitude ≤ b := by
  apply magnitude_le
  intro n hn
  rw [i.reg_apply s hn]
  exact (hentry n).getD ((s.natAbs_reg_le n).trans hb)

theorem magnitude_apply_le_add (s : State) {i : Instruction} (hi : ¬ i.Multiplies) :
    (i.apply s).magnitude ≤ s.magnitude + 22 :=
  magnitude_apply_le (Instruction.entry_within s.natAbs_reg_le hi) (by omega)

theorem magnitude_apply_le_mul (s : State) {i : Instruction} (hi : i.Multiplies) :
    (i.apply s).magnitude ≤ 18 * s.magnitude + 2 * i.amount.natAbs :=
  magnitude_apply_le (Instruction.entry_within_of_multiplies s.natAbs_reg_le hi) (by omega)

/-! ## Programs -/

theorem magnitude_after_le (s : State) {p : Program} (hp : ∀ i ∈ p, ¬ i.Multiplies) :
    (s.after p).magnitude ≤ s.magnitude + 22 * p.length := by
  induction p generalizing s with
  | nil => exact le_refl s.magnitude
  | cons i p ih =>
    obtain ⟨hi, hp⟩ := List.forall_mem_cons.mp hp
    have hstep := s.magnitude_apply_le_add hi
    have hrest := ih (i.apply s) hp
    rw [after_cons, List.length_cons]
    omega

/-- An instruction takes the magnitude up by 22 at most, save for the round, which multiplies it by
18 at most and adds twice its operand.  So without such a round the numbers grow by 22 with each
step at most. -/
theorem magnitude_grows (s : State) :
    IsGreatest (Set.range fun j : Slot => (s.get j).natAbs) s.magnitude ∧
      (∀ i : Instruction, ¬ i.Multiplies → (i.apply s).magnitude ≤ s.magnitude + 22) ∧
      (∀ i : Instruction, i.Multiplies →
        (i.apply s).magnitude ≤ 18 * s.magnitude + 2 * i.amount.natAbs) ∧
      ∀ p : Program, (∀ i ∈ p, ¬ i.Multiplies) → ∀ n ≤ p.length, ∀ j,
        ((s.after (p.take n)).get j).natAbs ≤ s.magnitude + 22 * n := by
  refine ⟨s.isGreatest_magnitude, fun i => s.magnitude_apply_le_add,
    fun i => s.magnitude_apply_le_mul, ?_⟩
  intro p hp n hn j
  have htaken : ∀ i ∈ p.take n, ¬ i.Multiplies := fun i hi => hp i (List.mem_of_mem_take hi)
  have hgrown := s.magnitude_after_le htaken
  rw [List.length_take_of_le hn] at hgrown
  exact ((s.after (p.take n)).natAbs_get_le j).trans hgrown

/-- An accumulator that zayin moves beyond all other numbers, and that yod copies into the letters. -/
theorem magnitude_grows_carried :
    let s := ofSlots fun j => 5 * j.val - 50
    let round : Instruction := ⟨.sovav, .immediate, -7⟩
    let query : Instruction := ⟨.sovav, .query, 0⟩
    let p : Program := [.ofOpcode .zayin, .ofOpcode .yod, query]
    ((round.Multiplies ∧ ¬ query.Multiplies) ∧ (∀ i ∈ p, ¬ i.Multiplies) ∧ 2 ≤ p.length) ∧
      (round.apply s).magnitude ≤ 18 * s.magnitude + 2 * 7 ∧
      (query.apply s).magnitude ≤ s.magnitude + 22 ∧
      ((s.after (p.take 2)).get 0).natAbs ≤ s.magnitude + 22 * 2 ∧
      (s.after (p.take 2)).get 0 = 82 ∧ s.magnitude = 60 := by
  intro s round query p
  have hround : round.Multiplies := by decide
  have hquery : ¬ query.Multiplies := by decide
  have hp : ∀ i ∈ p, ¬ i.Multiplies := by decide
  have hlength : 2 ≤ p.length := by decide
  obtain ⟨-, hadd, hmul, hafter⟩ := s.magnitude_grows
  exact ⟨⟨⟨hround, hquery⟩, hp, hlength⟩, hmul round hround, hadd query hquery,
    hafter p hp 2 hlength 0, by decide +kernel, by decide +kernel⟩

/-- The bound of the round is reached. -/
example :
    let s := ofSlots fun j => if j = 0 ∨ j = 2 then 1 else -1
    s.magnitude = 1 ∧ (Instruction.apply ⟨.sovav, .immediate, 5⟩ s).get 2 = 18 + 2 * 5 := by
  decide +kernel

end State

end LetterMachine
