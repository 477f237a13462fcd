import LetterMachine.Proofs.OperatorTable
import Mathlib.Algebra.BigOperators.ModEq
import Mathlib.Data.Int.ModEq

/-!
# The machine modulo 22

Numbers are stored as they come, so one state has many stored forms.  States that agree modulo 22
stay in agreement under programs that do: a register reads the same residue whether or not numbers
were reduced before.
-/

open Finset

namespace LetterMachine

theorem residue_congr {x y : Int} (h : x ≡ y [ZMOD 22]) : residue x = residue y := h

theorem residue_modEq (x : Int) : residue x ≡ x [ZMOD 22] := Int.mod_modEq x 22

/-- Modulo 22 there are only 22 numbers to look at. -/
theorem exists_modEq_range (x : Int) : ∃ r ∈ range 22, x ≡ (r : Nat) [ZMOD 22] := by
  refine ⟨(x % 22).toNat, mem_range.mpr (by omega), ?_⟩
  rw [Int.toNat_of_nonneg (by omega)]
  exact (Int.mod_modEq x 22).symm

theorem balanced_congr {x y : Int} (h : x ≡ y [ZMOD 22]) : balanced x = balanced y := by
  unfold balanced
  rw [residue_congr h]

theorem balanced_modEq (x : Int) : balanced x ≡ x [ZMOD 22] := by
  have h : residue (balanced x) = residue x := residue_balanced x
  exact h

/-- Two states agree modulo 22 in every register. -/
def State.Congruent (s t : State) : Prop := ∀ j : Slot, s.get j ≡ t.get j [ZMOD 22]

structure Instruction.Congruent (i j : Instruction) : Prop where
  op : i.op = j.op
  mode : i.mode = j.mode
  operand : i.operand ≡ j.operand [ZMOD 22]

namespace State

theorem Congruent.reg {s t : State} (h : s.Congruent t) (n : Nat) :
    s.reg n ≡ t.reg n [ZMOD 22] := by
  obtain ⟨j, hj⟩ := exists_reg_eq_get n
  rw [hj s, hj t]
  exact h j

theorem congruent_of_reg {s t : State} (h : ∀ n < 23, s.reg n ≡ t.reg n [ZMOD 22]) :
    s.Congruent t := fun j => h j.val j.isLt

end State

namespace Opcode

/-- Two entries agree: both are missing, or both are there and agree modulo 22. -/
abbrev EntryCongruent : Option Int → Option Int → Prop := Option.Rel (· ≡ · [ZMOD 22])

theorem EntryCongruent.refl (e : Option Int) : EntryCongruent e e := by
  cases e with
  | none => exact .none
  | some x => exact .some rfl

theorem EntryCongruent.residue {x y : Int} (h : x ≡ y [ZMOD 22]) :
    EntryCongruent (some (residue x)) (some (LetterMachine.residue y)) :=
  .some (by rw [residue_congr h])

theorem EntryCongruent.ite {c : Prop} [Decidable c] {a a' b b' : Option Int}
    (ha : EntryCongruent a a') (hb : EntryCongruent b b') :
    EntryCongruent (if c then a else b) (if c then a' else b') := by
  split
  · exact ha
  · exact hb

theorem EntryCongruent.getD {e e' : Option Int} (h : EntryCongruent e e') {d d' : Int}
    (hd : d ≡ d' [ZMOD 22]) : e.getD d ≡ e'.getD d' [ZMOD 22] := by
  cases h with
  | none => exact hd
  | some h => exact h

section

variable {old old' : Nat → Int} (hold : ∀ n, old n ≡ old' n [ZMOD 22])
include hold

theorem roundEntry_congr {k k' : Int} (hk : k ≡ k' [ZMOD 22]) (n : Nat) :
    EntryCongruent (roundEntry k old n) (roundEntry k' old' n) := by
  have hm₀ := ((hold 0).add ((hold 2).mul_left 3)).add hk
  have hm₁ := ((hold 1).add ((hold 3).mul_left 5)).add hk
  unfold roundEntry
  match n with
  | 0 => exact .some (hm₀.add hm₁)
  | 1 => exact .some (hm₀.sub hm₁)
  | 2 => exact .some ((hm₀.mul_left 3).sub hm₁)
  | 3 => exact .some ((hm₁.mul_left 2).add (hold 0))
  | n + 4 => exact .none

theorem shinEntry_congr (n : Nat) : EntryCongruent (shinEntry old n) (shinEntry old' n) :=
  .ite (.residue (((hold n).mul (hold n)).add (hold (Row.inQuartet n 1)))) .none

/-- Congruent contents give congruent entries.  Where an operator compares or divides, it does so
on balanced representatives, which are the same for both. -/
theorem entry_congr (op : Opcode) (n : Nat) :
    EntryCongruent (op.entry old n) (op.entry old' n) := by
  have hbalanced : ∀ i, balanced (old i) = balanced (old' i) := fun i => balanced_congr (hold i)
  cases op with
  | alef => exact .none
  | bet => exact .ite (.residue ((hold n).add (hold (n - 11)))) .none
  | gimel => exact .ite (.residue ((hold n).mul (hold (n - 11)))) .none
  | dalet =>
    exact .ite (.residue ((hold (n + 11)).sub (hold n)))
      (.ite (.residue ((hold (n - 11)).sub (hold n))) .none)
  | vav => exact .ite (.some (hold (n + 11))) (.ite (.some (hold (n - 11))) .none)
  | zayin => exact .ite (.residue ((hold n).add_right 1)) (.some ((hold 22).add_right 22))
  | chet => exact .ite (.residue ((hold n).sub_right 1)) (.some ((hold 22).sub_right 22))
  | tet =>
    have hsum : ∑ i ∈ range 22, old i * old i ≡ ∑ i ∈ range 22, old' i * old' i [ZMOD 22] :=
      Int.ModEq.sum fun i _ => (hold i).mul (hold i)
    exact .ite (.residue ((hold n).mul (hold n))) (.residue hsum)
  | yod => exact .ite (.some (hold 22)) .none
  | kaf =>
    have hsum : ∑ j ∈ range 4, old ((n + j) % 22) ≡ ∑ j ∈ range 4, old' ((n + j) % 22) [ZMOD 22] :=
      Int.ModEq.sum fun j _ => hold ((n + j) % 22)
    exact .ite (.residue hsum) .none
  -- these read balanced representatives only, so their entries are equal
  | hei | lamed | mem | nun | tsadi | resh =>
    simp only [entry, neighbourMean, hbalanced]
    exact .refl _
  | samekh =>
    simp only [entry, residue_congr (hold 22)]
    exact .ite (.some (hold _)) .none
  | ayin =>
    have hcorrelation : correlation old = correlation old' := by
      funext k
      simp only [correlation, hbalanced]
    simp only [entry, hcorrelation]
    exact .refl _
  | pe =>
    exact .ite (.residue ((hold n).add (hold 0))) (.ite (.some (hold 0)) .none)
  | qof => exact .ite (.residue ((hold (21 - n)).add_right n)) .none
  -- the greatest is taken over the mixed letters, which are congruent only, so it is taken over
  -- representatives here too
  | shin =>
    have hmixed : ∀ i, balanced ((shinEntry old i).getD (old i)) =
        balanced ((shinEntry old' i).getD (old' i)) := fun i =>
      balanced_congr ((shinEntry_congr hold i).getD (hold i))
    simp only [entry, hmixed]
    exact .ite (shinEntry_congr hold n) (.refl _)
  | tav => exact .ite (.some (hold _)) .none
  | sovav => exact roundEntry_congr hold rfl n

theorem entryWith_congr (op : Opcode) {k k' : Int} (hk : k ≡ k' [ZMOD 22]) (n : Nat) :
    EntryCongruent (op.entryWith k old n) (op.entryWith k' old' n) := by
  cases op with
  | bet => exact .ite (.residue (((hold n).add (hold (n - 11))).add hk)) .none
  | gimel => exact .ite (.residue (((hold n).mul (hold (n - 11))).add hk)) .none
  | tav => exact .ite (.residue ((hold _).add hk)) .none
  | sovav => exact roundEntry_congr hold hk n
  | _ =>
    simp only [entryWith]
    exact entry_congr hold _ n

end

end Opcode

theorem Instruction.entry_congr {i j : Instruction} (hij : i.Congruent j) {old old' : Nat → Int}
    (hold : ∀ n, old n ≡ old' n [ZMOD 22]) (n : Nat) :
    Opcode.EntryCongruent (i.entry old n) (j.entry old' n) := by
  obtain ⟨op, mode, k⟩ := i
  obtain ⟨op', mode', k'⟩ := j
  obtain ⟨rfl, rfl, hk⟩ := hij
  cases mode with
  | plain => exact Opcode.entry_congr hold op n
  | immediate => exact Opcode.entryWith_congr hold op hk n
  -- the sum of changes is congruent term by term
  | query =>
    have hdrift : ∑ j ∈ range 23, ((op.entry old j).getD (old j) - old j) ≡
        ∑ j ∈ range 23, ((op.entry old' j).getD (old' j) - old' j) [ZMOD 22] :=
      Int.ModEq.sum fun j _ => ((Opcode.entry_congr hold op j).getD (hold j)).sub (hold j)
    exact .ite (.residue hdrift) .none

theorem State.Congruent.apply {s t : State} (h : s.Congruent t) {i j : Instruction}
    (hij : i.Congruent j) : (i.apply s).Congruent (j.apply t) := by
  apply State.congruent_of_reg
  intro n hn
  rw [i.reg_apply s hn, j.reg_apply t hn]
  exact (Instruction.entry_congr hij h.reg n).getD (h.reg n)

theorem State.Congruent.after {s t : State} (h : s.Congruent t) {p q : Program}
    (hpq : List.Forall₂ Instruction.Congruent p q) : (s.after p).Congruent (t.after q) := by
  -- over the instructions, with the states free: congruence is what each step hands on
  induction hpq generalizing s t with
  | nil => exact h
  | cons hij _ ih => exact ih (h.apply hij)

namespace State

def reduced (s : State) : State := ofSlots fun j => residue (s.get j)

theorem reduced_congruent (s : State) : s.reduced.Congruent s := by
  intro j
  rw [reduced, get_ofSlots]
  exact residue_modEq (s.get j)

/-- Congruent states stay congruent after every prefix of congruent programs, and numbers that are
reduced in the middle of a run change no later residue. -/
theorem after_take_congruent {s t : State} (h : s.Congruent t) {p q : Program}
    (hpq : List.Forall₂ Instruction.Congruent p q) (n : Nat) :
    (s.after (p.take n)).Congruent (t.after (q.take n)) ∧
      ((s.after (p.take n)).reduced.after (p.drop n)).Congruent (s.after p) := by
  refine ⟨h.after (List.forall₂_take n hpq), ?_⟩
  -- the rest of the run starts from the reduced state, which is congruent to the state itself
  have hrefl : List.Forall₂ Instruction.Congruent (p.drop n) (p.drop n) :=
    List.forall₂_same.mpr fun i _ => ⟨rfl, rfl, rfl⟩
  have hsplit : s.after p = (s.after (p.take n)).after (p.drop n) := by
    unfold State.after
    rw [← List.foldl_append, List.take_append_drop]
  rw [hsplit]
  exact (reduced_congruent _).after hrefl

/-- Contents that no reduction ever touched, against the same contents shifted by multiples of 22:
the halves are compared, and the round takes operands that differ by 22. -/
theorem after_take_congruent_shifted :
    let s := ofSlots fun j => 5 * j.val
    let t := ofSlots fun j => 5 * j.val - 22 * j.val
    let p : Program := [⟨.tsadi, .plain, 0⟩, ⟨.sovav, .immediate, 3⟩, ⟨.lamed, .query, 0⟩]
    let q : Program := [⟨.tsadi, .plain, 0⟩, ⟨.sovav, .immediate, 25⟩, ⟨.lamed, .query, 22⟩]
    (s.Congruent t ∧ List.Forall₂ Instruction.Congruent p q) ∧
      (s.after (p.take 2)).Congruent (t.after (q.take 2)) ∧
      ((s.after (p.take 2)).reduced.after (p.drop 2)).Congruent (s.after p) := by
  intro s t p q
  have hst : s.Congruent t := by
    intro j
    simp only [s, t, get_ofSlots]
    exact (Int.sub_mul_emod_self_left _ _ _).symm
  have hpq : List.Forall₂ Instruction.Congruent p q :=
    .cons ⟨rfl, rfl, by decide⟩ (.cons ⟨rfl, rfl, by decide⟩ (.cons ⟨rfl, rfl, by decide⟩ .nil))
  exact ⟨⟨hst, hpq⟩, after_take_congruent hst hpq 2⟩

end State

end LetterMachine
