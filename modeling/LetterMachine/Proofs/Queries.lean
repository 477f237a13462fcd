import LetterMachine.Proofs.Reversal

/-!
# Queries

A query computes what its operator would do, and tells in the accumulator how much the sum of all
registers would change.  The letters stay.

Six operators keep the sum modulo 22 on every state: three move letters around, identity does
nothing, and a step of all letters by one is made up for by the 22 that goes to the accumulator.  A
query of these tells nothing but zero, so it does not matter which of them are asked, in what order
and how often.
-/

open Finset

namespace LetterMachine

/-- The sum of all registers. -/
def State.total (s : State) : Int := ∑ j : Slot, s.get j

namespace State

variable (s : State)

theorem total_eq_sum_range : s.total = ∑ n ∈ range 23, s.reg n :=
  Fin.sum_univ_eq_sum_range s.reg 23

theorem total_eq_add_acc : s.total = Row.sum s.letters + s.acc := by
  rw [total_eq_sum_range, sum_range_succ _ 22, reg_acc, sum_eq_sum_range _ _ s.letters_getElem]

theorem drift_eq_total_sub (t : State) : s.drift t = t.total - s.total := by
  rw [drift_eq_sum, sum_sub_distrib, ← total_eq_sum_range, ← total_eq_sum_range]

end State

theorem Instruction.apply_query (op : Opcode) (k : Int) (s : State) :
    Instruction.apply ⟨op, .query, k⟩ s =
      { s with acc := residue ((op.run s).total - s.total) } := by
  rw [← State.drift_eq_total_sub]
  rfl

/-! ## Operators that keep the sum -/

namespace State

variable (s : State)

theorem total_turn (k : Int) : (s.turn k).total = s.total := by
  rw [total_eq_add_acc, total_eq_add_acc, acc_turn, turn, Row.sum_turn]

/-- To swap the halves is to turn the ring by half. -/
theorem vav_eq_turn : Opcode.vav.run s = s.turn 11 := by
  apply ext_reg
  · intro n hn
    have hplace : (((n : Int) + 11) % 22).toNat = (n + 11) % 22 := by omega
    rw [reg_vav s hn, ← letters_getElem _ n hn, turn, Row.getElem_turn_of_eq s.letters_getElem,
      hplace]
  · rw [Opcode.acc_run_of_entry rfl, acc_turn]

theorem total_tav : (Opcode.tav.run s).total = s.total := by
  have hsplit : ∀ f : Nat → Int,
      ∑ n ∈ range 23, f n = ∑ n ∈ range 20, f n + (f 20 + f 21 + f 22) := by
    intro f
    simp only [sum_range_succ _ 22, sum_range_succ _ 21, sum_range_succ _ 20]
    ring
  -- the places of the quartets change in pairs
  have hquartets : ∑ n ∈ range 20, s.reg (Row.inQuartet n 2) = ∑ n ∈ range 20, s.reg n := by
    refine sum_nbij' (Row.inQuartet · 2) (Row.inQuartet · 2) ?_ ?_ ?_ ?_ fun n _ => rfl
    · exact fun n hn => mem_range.mpr (inQuartet_lt (mem_range.mp hn))
    · exact fun n hn => mem_range.mpr (inQuartet_lt (mem_range.mp hn))
    · exact fun n _ => inQuartet_two_two n
    · exact fun n _ => inQuartet_two_two n
  have hmoved : ∑ n ∈ range 20, (Opcode.tav.run s).reg n =
      ∑ n ∈ range 20, s.reg (Row.inQuartet n 2) := by
    refine sum_congr rfl fun n hn => ?_
    have hn := mem_range.mp hn
    rw [reg_tav s (by omega), if_pos hn]
  rw [total_eq_sum_range, total_eq_sum_range, hsplit, hsplit s.reg, hmoved, hquartets,
    reg_tav s (by decide), reg_tav s (by decide), reg_tav s (by decide)]
  rfl

theorem Adds.total {f : State → State} {a : Nat → Int} (h : Adds f a) :
    (f s).total ≡ s.total + ∑ n ∈ range 23, a n [ZMOD 22] := by
  rw [total_eq_sum_range, total_eq_sum_range, ← sum_add_distrib]
  exact Int.ModEq.sum fun n hn => h s n (mem_range.mp hn)

end State

namespace Opcode

/-- The opcodes that keep the sum of all registers modulo 22, whatever the registers hold. -/
def conserving : List Opcode := [alef, vav, zayin, chet, samekh, tav]

theorem total_run_modEq {op : Opcode} (hop : op ∈ conserving) (s : State) :
    (op.run s).total ≡ s.total [ZMOD 22] := by
  cases op with
  | alef => rfl
  | vav => rw [State.vav_eq_turn, State.total_turn]
  | samekh => rw [State.samekh_eq_turn, State.total_turn]
  | tav => rw [State.total_tav]
  -- one for each of 22 letters
  | zayin =>
    have hletters : ∑ n ∈ range 23, State.perLetter n = 22 := by decide
    have htotal := State.adds_zayin.total s
    rw [hletters] at htotal
    exact htotal.trans (Int.modEq_iff_dvd.mpr ⟨-1, by ring⟩)
  | chet =>
    have hletters : ∑ n ∈ range 23, (-State.perLetter) n = -22 := by decide
    have htotal := State.adds_chet.total s
    rw [hletters] at htotal
    exact htotal.trans (Int.modEq_iff_dvd.mpr ⟨1, by ring⟩)
  | _ => simp [conserving] at hop

/-- A state on which each of the other operators changes the sum. -/
def uneven : State := State.ofSlots fun j => j.val % 3 + 1

theorem mem_conserving_of_uneven {op : Opcode}
    (h : (Instruction.apply ⟨op, .query, 0⟩ uneven).acc = 0) : op ∈ conserving := by
  revert h
  cases op <;> decide +kernel

end Opcode

theorem Instruction.apply_query_of_conserving {op : Opcode} (hop : op ∈ Opcode.conserving)
    (k : Int) (s : State) : Instruction.apply ⟨op, .query, k⟩ s = { s with acc := 0 } := by
  have hzero : residue ((op.run s).total - s.total) = 0 := by
    have hsub := (Opcode.total_run_modEq hop s).sub_right s.total
    rw [sub_self] at hsub
    exact residue_congr hsub
  rw [apply_query, hzero]

/-! ## Programs of queries -/

namespace State

theorem letters_after_of_query (s : State) {p : Program} (hp : ∀ i ∈ p, i.mode = .query) :
    (s.after p).letters = s.letters := by
  induction p generalizing s with
  | nil => rfl
  | cons i p ih =>
    obtain ⟨hi, hrest⟩ := List.forall_mem_cons.mp hp
    obtain ⟨op, mode, k⟩ := i
    obtain rfl : mode = .query := hi
    rw [after_cons, ih _ hrest, Instruction.apply_query]

/-- Each query sets the accumulator to zero, so the first one decides. -/
theorem after_of_conserving (s : State) {p : Program} (hne : p ≠ [])
    (hp : ∀ i ∈ p, i.mode = .query ∧ i.op ∈ Opcode.conserving) :
    s.after p = { s with acc := 0 } := by
  induction p generalizing s with
  | nil => exact absurd rfl hne
  | cons i p ih =>
    obtain ⟨⟨hmode, hop⟩, hrest⟩ := List.forall_mem_cons.mp hp
    obtain ⟨op, mode, k⟩ := i
    obtain rfl : mode = .query := hmode
    rw [after_cons, Instruction.apply_query_of_conserving hop]
    cases p with
    | nil => rfl
    | cons j p => exact ih _ (List.cons_ne_nil j p) hrest

/-- In a program of queries the letters keep what they hold, and each query leaves the one residue
in the accumulator that is the change of the sum of all registers.  The opcodes for which this is
zero on every state are the conserving ones, and of queries of these it does not matter which are
asked, in what order and how often. -/
theorem after_queries (s : State) {p : Program} (hp : ∀ i ∈ p, i.mode = .query) :
    (∀ n, (s.after (p.take n)).letters = s.letters) ∧
      (∀ n (hn : n < p.length) (x : Int),
        let before := s.after (p.take n)
        (s.after (p.take (n + 1))).acc = x ↔
          0 ≤ x ∧ x < 22 ∧ x ≡ (p[n].op.run before).total - before.total [ZMOD 22]) ∧
      (∀ op : Opcode, op ∈ Opcode.conserving ↔
        ∀ k t, (Instruction.apply ⟨op, .query, k⟩ t).acc = 0) ∧
      ((∀ i ∈ p, i.op ∈ Opcode.conserving) → ∀ q : Program, q ≠ [] → (∀ i ∈ q, i ∈ p) →
        s.after q = s.after p) := by
  refine ⟨fun n => ?_, fun n hn x => ?_, fun op => ⟨fun hop k t => ?_, fun h => ?_⟩, ?_⟩
  · exact s.letters_after_of_query fun i hi => hp i (List.mem_of_mem_take hi)
  · intro before
    have hmode : p[n].mode = .query := hp _ (List.getElem_mem hn)
    have hacc : (s.after (p.take (n + 1))).acc =
        residue ((p[n].op.run before).total - before.total) := by
      rw [List.take_succ_eq_append_getElem hn, after_concat]
      generalize p[n] = i at hmode ⊢
      obtain ⟨op, mode, k⟩ := i
      obtain rfl : mode = .query := hmode
      rw [Instruction.apply_query]
    rw [hacc]
    constructor
    · rintro rfl
      exact ⟨residue_nonneg _, residue_lt _, residue_modEq _⟩
    · -- a number from 0 to 21 is its own residue
      rintro ⟨hlow, hhigh, hx⟩
      rw [← residue_congr hx, residue, Int.emod_eq_of_lt hlow hhigh]
  · rw [Instruction.apply_query_of_conserving hop]
  · exact Opcode.mem_conserving_of_uneven (h 0 Opcode.uneven)
  · intro hops q hne hq
    have hconserving : ∀ i ∈ p, i.mode = .query ∧ i.op ∈ Opcode.conserving :=
      fun i hi => ⟨hp i hi, hops i hi⟩
    obtain ⟨i, hi⟩ := List.exists_mem_of_ne_nil q hne
    rw [s.after_of_conserving hne fun i hi => hconserving i (hq i hi),
      s.after_of_conserving (List.ne_nil_of_mem (hq i hi)) hconserving]

/-- Queries of the three operators that move letters, on numbers beyond the residues, and two of
them the other way round and repeated. -/
theorem after_queries_moved :
    let s := ofSlots fun j => 22 * j.val * j.val - 100
    let p : Program := [⟨.vav, .query, 0⟩, ⟨.tav, .query, 7⟩, ⟨.samekh, .query, 0⟩]
    let q : Program := [⟨.samekh, .query, 0⟩, ⟨.vav, .query, 0⟩, ⟨.samekh, .query, 0⟩]
    ((∀ i ∈ p, i.mode = .query) ∧ (∀ i ∈ p, i.op ∈ Opcode.conserving) ∧ q ≠ [] ∧
        (∀ i ∈ q, i ∈ p) ∧ 1 < p.length) ∧
      (s.after (p.take 2)).letters = s.letters ∧ (s.after (p.take 2)).acc = 0 ∧ s.acc ≠ 0 ∧
      s.after q = s.after p := by
  intro s p q
  have hp : ∀ i ∈ p, i.mode = .query := by decide
  have hops : ∀ i ∈ p, i.op ∈ Opcode.conserving := by decide
  have hq : ∀ i ∈ q, i ∈ p := by decide
  obtain ⟨hletters, hacc, -, hsame⟩ := after_queries s hp
  have htotal := Opcode.total_run_modEq (hops p[1] (by decide)) (s.after (p.take 1))
  refine ⟨⟨hp, hops, List.cons_ne_nil _ _, hq, by decide⟩, hletters 2, ?_, by decide,
    hsame hops q (List.cons_ne_nil _ _) hq⟩
  refine (hacc 1 (by decide) 0).mpr ⟨by decide, by decide, ?_⟩
  rw [← sub_self (s.after (p.take 1)).total]
  exact (htotal.sub_right _).symm

end State

end LetterMachine
