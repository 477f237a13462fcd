import LetterMachine.Proofs.Reversal
import Mathlib.Algebra.BigOperators.Ring.Finset
import Mathlib.Data.Fintype.BigOperators

/-!
# Linear programs

Ten opcodes do nothing but add, subtract and move numbers.  Modulo 22 they are linear, by themselves
and as queries: they make of a combination of states the combination of what they make of each.

What is stored on the way need not be the combination of what is stored for each, as some numbers
are reduced and others are not.  So a combination is taken modulo 22 from the start, and each step
hands it on.
-/

open Finset

namespace LetterMachine

/-! ## Combinations of numbers -/

section

variable {ι : Type} {J : Finset ι} {c : ι → Int}

/-- A number is a combination of others modulo 22, with the given coefficients. -/
def IsCombination (J : Finset ι) (c : ι → Int) (x : ι → Int) (y : Int) : Prop :=
  y ≡ ∑ j ∈ J, c j * x j [ZMOD 22]

namespace IsCombination

variable {x x' : ι → Int} {y y' : Int}

/-- Only the residues of the numbers matter. -/
theorem congr (h : IsCombination J c x y) (hx : ∀ j, x' j ≡ x j [ZMOD 22])
    (hy : y' ≡ y [ZMOD 22]) : IsCombination J c x' y' := by
  have hsum : ∑ j ∈ J, c j * x j ≡ ∑ j ∈ J, c j * x' j [ZMOD 22] :=
    Int.ModEq.sum fun j _ => (hx j).symm.mul_left (c j)
  exact hy.trans (Int.ModEq.trans h hsum)

theorem residue (h : IsCombination J c x y) :
    IsCombination J c (fun j => residue (x j)) (residue y) :=
  h.congr (fun j => residue_modEq (x j)) (residue_modEq y)

theorem balanced (h : IsCombination J c x y) :
    IsCombination J c (fun j => balanced (x j)) (balanced y) :=
  h.congr (fun j => balanced_modEq (x j)) (balanced_modEq y)

theorem add (h : IsCombination J c x y) (h' : IsCombination J c x' y') :
    IsCombination J c (fun j => x j + x' j) (y + y') := by
  unfold IsCombination
  simp only [mul_add, sum_add_distrib]
  exact Int.ModEq.add h h'

theorem sub (h : IsCombination J c x y) (h' : IsCombination J c x' y') :
    IsCombination J c (fun j => x j - x' j) (y - y') := by
  unfold IsCombination
  simp only [mul_sub, sum_sub_distrib]
  exact Int.ModEq.sub h h'

theorem mul_left (a : Int) (h : IsCombination J c x y) :
    IsCombination J c (fun j => a * x j) (a * y) := by
  unfold IsCombination
  simp only [mul_left_comm _ a, ← mul_sum]
  exact Int.ModEq.mul_left a h

theorem neg (h : IsCombination J c x y) : IsCombination J c (fun j => -x j) (-y) := by
  unfold IsCombination
  simp only [mul_neg, sum_neg_distrib]
  exact Int.ModEq.neg h

theorem sum {N : Finset Nat} {x : ι → Nat → Int} {y : Nat → Int}
    (h : ∀ n ∈ N, IsCombination J c (fun j => x j n) (y n)) :
    IsCombination J c (fun j => ∑ n ∈ N, x j n) (∑ n ∈ N, y n) := by
  unfold IsCombination
  simp only [mul_sum]
  -- summed up by number first, then by coefficient
  rw [sum_comm]
  exact Int.ModEq.sum h

end IsCombination

end

/-! ## Combinations of states -/

namespace State

instance : Add State := ⟨fun s t => ofSlots fun i => s.get i + t.get i⟩

instance : SMul Int State := ⟨fun c s => ofSlots fun i => c * s.get i⟩

/-- The state that holds a single one. -/
def unit (j : Slot) : State := ofSlots fun i => if i = j then 1 else 0

theorem get_add (s t : State) (i : Slot) : (s + t).get i = s.get i + t.get i := get_ofSlots _ i

theorem get_smul (c : Int) (s : State) (i : Slot) : (c • s).get i = c * s.get i := get_ofSlots _ i

theorem get_unit (j i : Slot) : (unit j).get i = if i = j then 1 else 0 := get_ofSlots _ i

section

variable {ι : Type} {J : Finset ι} {c : ι → Int} {x : ι → State} {s : State}

/-- A state is a combination of others modulo 22, register by register. -/
def IsCombination (J : Finset ι) (c : ι → Int) (x : ι → State) (s : State) : Prop :=
  ∀ i : Slot, LetterMachine.IsCombination J c (fun j => (x j).get i) (s.get i)

theorem IsCombination.reg (h : s.IsCombination J c x) (n : Nat) :
    LetterMachine.IsCombination J c (fun j => (x j).reg n) (s.reg n) := by
  obtain ⟨i, hi⟩ := exists_reg_eq_get n
  simp only [hi]
  exact h i

theorem isCombination_of_reg
    (h : ∀ n < 23, LetterMachine.IsCombination J c (fun j => (x j).reg n) (s.reg n)) :
    s.IsCombination J c x := fun i => h i.val i.isLt

end

theorem isCombination_add (s t : State) :
    (s + t).IsCombination univ (fun _ => 1) fun first : Bool => if first then s else t := by
  intro i
  show (s + t).get i ≡ _ [ZMOD 22]
  simp [get_add]

theorem isCombination_smul (c : Int) (s : State) :
    (c • s).IsCombination univ (fun _ => c) fun _ : Unit => s := by
  intro i
  show (c • s).get i ≡ _ [ZMOD 22]
  simp [get_smul]

/-- Every state is a combination of the states that hold a single one. -/
theorem isCombination_unit (s : State) : s.IsCombination univ s.get unit := by
  intro i
  show s.get i ≡ _ [ZMOD 22]
  simp [get_unit]

end State

/-! ## Linear opcodes -/

/-- The opcodes that do nothing but add, subtract and move numbers. -/
def Opcode.linear : List Opcode :=
  [alef, bet, dalet, vav, yod, kaf, nun, pe, tav, sovav]

/-- A linear opcode without an operand: an operand would be added to what is combined. -/
def Instruction.IsLinear (i : Instruction) : Prop :=
  i.op ∈ Opcode.linear ∧ i.mode ≠ .immediate

instance (i : Instruction) : Decidable i.IsLinear := inferInstanceAs (Decidable (_ ∧ _))

section

variable {ι : Type} {J : Finset ι} {c : ι → Int}

/-- The entries for several states and for their combination: all are missing, or all are there and
combine likewise. -/
inductive Opcode.EntryCombination (J : Finset ι) (c : ι → Int) :
    (ι → Option Int) → Option Int → Prop where
  | kept : EntryCombination J c (fun _ => none) none
  | written {x : ι → Int} {y : Int} (h : IsCombination J c x y) :
    EntryCombination J c (fun j => some (x j)) (some y)

namespace Opcode

theorem EntryCombination.residue {x : ι → Int} {y : Int} (h : IsCombination J c x y) :
    EntryCombination J c (fun j => some (residue (x j))) (some (residue y)) :=
  .written h.residue

theorem EntryCombination.ite {p : Prop} [Decidable p] {e f : ι → Option Int} {e' f' : Option Int}
    (he : EntryCombination J c e e') (hf : EntryCombination J c f f') :
    EntryCombination J c (fun j => if p then e j else f j) (if p then e' else f') := by
  split
  · exact he
  · exact hf

theorem EntryCombination.getD {e : ι → Option Int} {e' : Option Int}
    (h : EntryCombination J c e e') {x : ι → Int} {y : Int} (hxy : IsCombination J c x y) :
    IsCombination J c (fun j => (e j).getD (x j)) (e'.getD y) := by
  cases h with
  | kept => exact hxy
  | written h => exact h

variable {old : ι → Nat → Int} {new : Nat → Int}
  (hold : ∀ n, IsCombination J c (fun j => old j n) (new n))
include hold

theorem entryCombination_round (n : Nat) :
    EntryCombination J c (fun j => roundEntry 0 (old j) n) (roundEntry 0 new n) := by
  have hm : IsCombination J c (fun j => old j 0 + 3 * old j 2 + 0) (new 0 + 3 * new 2 + 0) := by
    simpa using (hold 0).add ((hold 2).mul_left 3)
  have hn : IsCombination J c (fun j => old j 1 + 5 * old j 3 + 0) (new 1 + 5 * new 3 + 0) := by
    simpa using (hold 1).add ((hold 3).mul_left 5)
  match n with
  | 0 => exact .written (hm.add hn)
  | 1 => exact .written (hm.sub hn)
  | 2 => exact .written ((hm.mul_left 3).sub hn)
  | 3 => exact .written ((hn.mul_left 2).add (hold 0))
  | n + 4 => exact .kept

theorem entryCombination {op : Opcode} (hop : op ∈ linear) (n : Nat) :
    EntryCombination J c (fun j => op.entry (old j) n) (op.entry new n) := by
  cases op with
  | alef => exact .kept
  | bet => exact .ite (.residue ((hold n).add (hold (n - 11)))) .kept
  | dalet =>
    exact .ite (.residue ((hold (n + 11)).sub (hold n)))
      (.ite (.residue ((hold (n - 11)).sub (hold n))) .kept)
  | vav => exact .ite (.written (hold (n + 11))) (.ite (.written (hold (n - 11))) .kept)
  | yod => exact .ite (.written (hold 22)) .kept
  | kaf => exact .ite (.residue (.sum fun m _ => hold ((n + m) % 22))) .kept
  | nun => exact .residue (hold n).balanced.neg
  | pe => exact .ite (.residue ((hold n).add (hold 0))) (.ite (.written (hold 0)) .kept)
  | tav => exact .ite (.written (hold (Row.inQuartet n 2))) .kept
  | sovav => exact entryCombination_round hold n
  | _ => simp [linear] at hop

end Opcode

theorem Instruction.entryCombination {old : ι → Nat → Int} {new : Nat → Int}
    (hold : ∀ n, IsCombination J c (fun j => old j n) (new n)) {i : Instruction} (hi : i.IsLinear)
    (n : Nat) : Opcode.EntryCombination J c (fun j => i.entry (old j) n) (i.entry new n) := by
  obtain ⟨op, mode, k⟩ := i
  obtain ⟨hop, hmode⟩ := hi
  cases mode with
  | plain => exact Opcode.entryCombination hold hop n
  -- a query sums up changes, and these are combined one by one
  | query =>
    have hchange : ∀ m, IsCombination J c
        (fun j => (op.entry (old j) m).getD (old j m) - old j m)
        ((op.entry new m).getD (new m) - new m) := by
      intro m
      exact ((Opcode.entryCombination hold hop m).getD (hold m)).sub (hold m)
    exact .ite (.residue (.sum fun m _ => hchange m)) .kept
  | immediate => exact absurd rfl hmode

end

/-! ## Linear programs -/

namespace State

section

variable {ι : Type} {J : Finset ι} {c : ι → Int} {x : ι → State} {s : State}

theorem IsCombination.apply (h : s.IsCombination J c x) {i : Instruction} (hi : i.IsLinear) :
    (i.apply s).IsCombination J c fun j => i.apply (x j) := by
  apply isCombination_of_reg
  intro n hn
  simp only [i.reg_apply _ hn]
  exact (Instruction.entryCombination h.reg hi n).getD (h.reg n)

theorem IsCombination.after (h : s.IsCombination J c x) {p : Program}
    (hp : ∀ i ∈ p, i.IsLinear) : (s.after p).IsCombination J c fun j => (x j).after p := by
  -- over the instructions, with all states free: the combination is what each step hands on
  induction p generalizing s x with
  | nil => exact h
  | cons i p ih =>
    obtain ⟨hi, hp⟩ := List.forall_mem_cons.mp hp
    exact ih (h.apply hi) hp

end

section

variable {p : Program} (hp : ∀ i ∈ p, i.IsLinear)
include hp

theorem after_add (s t : State) : ((s + t).after p).Congruent (s.after p + t.after p) := by
  intro i
  have h : ((s + t).after p).get i ≡ _ [ZMOD 22] := (isCombination_add s t).after hp i
  simpa [get_add] using h

theorem after_smul (c : Int) (s : State) : ((c • s).after p).Congruent (c • s.after p) := by
  intro i
  have h : ((c • s).after p).get i ≡ _ [ZMOD 22] := (isCombination_smul c s).after hp i
  simpa [get_smul] using h

theorem after_unit (s : State) (i : Slot) :
    (s.after p).get i ≡ ∑ j, s.get j * ((unit j).after p).get i [ZMOD 22] :=
  (isCombination_unit s).after hp i

theorem after_congruent_of_unit {q : Program} (hq : ∀ i ∈ q, i.IsLinear)
    (h : ∀ j, ((unit j).after p).Congruent ((unit j).after q)) (s : State) :
    (s.after p).Congruent (s.after q) := by
  intro i
  have hsum : ∑ j, s.get j * ((unit j).after p).get i ≡
      ∑ j, s.get j * ((unit j).after q).get i [ZMOD 22] :=
    Int.ModEq.sum fun j _ => (h j i).mul_left (s.get j)
  exact (after_unit hp s i).trans (hsum.trans (after_unit hq s i).symm)

end

/-- A program of linear opcodes, plain or as queries, is linear modulo 22: sums lead to sums and
multiples to multiples.  So it is known by what it makes of the 23 states that hold a single one. -/
theorem after_linear {p : Program} (hp : ∀ i ∈ p, i.IsLinear) :
    (∀ s t : State, ((s + t).after p).Congruent (s.after p + t.after p)) ∧
      (∀ (c : Int) (s : State), ((c • s).after p).Congruent (c • s.after p)) ∧
      (∀ (s : State) (i : Slot),
        (s.after p).get i ≡ ∑ j, s.get j * ((unit j).after p).get i [ZMOD 22]) ∧
      ∀ q : Program, (∀ i ∈ q, i.IsLinear) →
        (∀ j, ((unit j).after p).Congruent ((unit j).after q)) →
        ∀ s : State, (s.after p).Congruent (s.after q) :=
  ⟨after_add hp, after_smul hp, after_unit hp, fun _ hq h => after_congruent_of_unit hp hq h⟩

/-- Two programs that agree on the states with a single one, and so on letters beyond the residues,
which they store in different ways. -/
theorem after_linear_negated :
    let p : Program :=
      [.ofOpcode .sovav, .ofOpcode .nun, .ofOpcode .nun, ⟨.kaf, .query, 0⟩]
    let q : Program := [.ofOpcode .sovav, ⟨.kaf, .query, 0⟩]
    let s := ofSlots fun j => 7 * j.val - 40
    ((∀ i ∈ p, i.IsLinear) ∧ (∀ i ∈ q, i.IsLinear) ∧
        ∀ j, ((unit j).after p).Congruent ((unit j).after q)) ∧
      ((s + unit 3).after p).Congruent (s.after p + (unit 3).after p) ∧
      (((-5 : Int) • s).after p).Congruent ((-5 : Int) • s.after p) ∧
      (s.after p).Congruent (s.after q) ∧ s.after p ≠ s.after q := by
  intro p q s
  have hp : ∀ i ∈ p, i.IsLinear := by decide
  have hq : ∀ i ∈ q, i.IsLinear := by decide
  have hunit : ∀ j, ((unit j).after p).Congruent ((unit j).after q) := by
    intro j
    simp only [p, q, after_cons, Instruction.apply_ofOpcode]
    exact ((nun_nun_congruent _).apply ⟨rfl, rfl, rfl⟩).after .nil
  obtain ⟨hadd, hsmul, -, hdetermined⟩ := after_linear hp
  exact ⟨⟨hp, hq, hunit⟩, hadd s (unit 3), hsmul (-5) s, hdetermined q hq hunit s,
    by decide +kernel⟩

end State

end LetterMachine
