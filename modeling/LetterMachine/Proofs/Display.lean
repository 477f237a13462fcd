import LetterMachine.Display

/-!
# What can be shown

Showing a state or an outcome is refused where a number in it is too long to be written, and for no
other reason.  Which numbers are in it is said here.
-/

namespace LetterMachine

open LetterMachine.Text

theorem shownWith_of_writable {α : Type} {numbers : List Int}
    (h : ∀ n ∈ numbers, Numeral.Writable n) (x : α) : shownWith numbers x = .ok x := by
  unfold shownWith Numeral.guarded
  rw [if_pos h]
  rfl

/-- An answer is given under a condition, and is else refused as a number is too long. -/
structure ShownIf {α : Type} (p : Prop) (a : Answer α) : Prop where
  shown : p → ∃ x, a = .ok x
  refused : ¬ p → a = .error (.numeral .tooLong)

namespace ShownIf

section

variable {α β : Type} {p q : Prop} {a : Answer α}

theorem ok (x : α) : ShownIf True (.ok x : Answer α) :=
  ⟨fun _ => ⟨x, rfl⟩, fun h => absurd trivial h⟩

theorem congr (h : ShownIf p a) (hpq : p ↔ q) : ShownIf q a where
  shown hq := h.shown (hpq.mpr hq)
  refused hq := h.refused fun hp => hq (hpq.mp hp)

theorem of_shownWith (numbers : List Int) (x : α) :
    ShownIf (∀ n ∈ numbers, Numeral.Writable n) (shownWith numbers x) where
  shown h := ⟨x, shownWith_of_writable h x⟩
  refused h := by
    unfold shownWith Numeral.guarded
    rw [if_neg h]
    rfl

theorem bind (h : ShownIf p a) {next : α → Answer β} (hnext : ∀ x, ShownIf q (next x)) :
    ShownIf (p ∧ q) (a >>= next) where
  shown := by
    rintro ⟨hp, hq⟩
    obtain ⟨x, rfl⟩ := h.shown hp
    exact (hnext x).shown hq
  refused hpq := by
    -- the first of the two that cannot be shown is to blame
    by_cases hp : p
    · obtain ⟨x, rfl⟩ := h.shown hp
      exact (hnext x).refused fun hq => hpq ⟨hp, hq⟩
    · rw [h.refused hp]
      rfl

theorem map (h : ShownIf p a) (f : α → β) : ShownIf p (a >>= fun x => pure (f x)) :=
  (h.bind fun x => ok (f x)).congr (and_iff_left trivial)

theorem mapM {p : α → Prop} {f : α → Answer β} (h : ∀ x, ShownIf (p x) (f x)) (xs : List α) :
    ShownIf (∀ x ∈ xs, p x) (xs.mapM f) := by
  induction xs with
  | nil => exact (ok []).congr (iff_of_true trivial fun x hx => by cases hx)
  | cons x xs ih =>
    rw [List.mapM_cons]
    exact ((h x).bind fun y => ih.map (y :: ·)).congr List.forall_mem_cons.symm

/-- What is refused is refused as a number in it is too long. -/
theorem eq_tooLong {f : Fault} (h : ShownIf p a) (ha : a = .error f) :
    f = .numeral .tooLong ∧ ¬ p := by
  have hp : ¬ p := by
    intro hp
    obtain ⟨x, hx⟩ := h.shown hp
    rw [ha] at hx
    cases hx
  rw [h.refused hp] at ha
  exact ⟨(Except.error.inj ha).symm, hp⟩

end

end ShownIf

/-! ## States -/

theorem State.mem_changed {before after : State} {i : Slot} :
    i ∈ before.changed after ↔ before.get i ≠ after.get i := by
  unfold changed
  rw [List.mem_filter, decide_eq_true_eq]
  exact and_iff_right (List.mem_finRange i)

def State.Writable (s : State) : Prop := ∀ i, Numeral.Writable (s.get i)

theorem State.writable_zero : State.zero.Writable := by
  have hzero : Numeral.Writable 0 := by decide +kernel
  intro i
  rwa [State.get_zero]

theorem rowStarts_of_pos {columns : Int} (h : 0 < columns) :
    rowStarts columns = .ok ((List.range 22).filter fun i => (i : Int) % columns = 0) := by
  unfold rowStarts
  rw [if_neg (by omega), if_neg (by omega)]

/-- Every letter stands in a row. -/
theorem exists_rowStart {columns : Int} (h : 0 < columns) {i : Nat} (hi : i < 22) :
    ∃ start ∈ (List.range 22).filter fun (j : Nat) => (j : Int) % columns = 0,
      start ≤ i ∧ i < start + columns.toNat := by
  obtain ⟨n, rfl⟩ := Int.eq_ofNat_of_zero_le (Int.le_of_lt h)
  have hn : 0 < n := by omega
  have hmod := Nat.mod_lt i hn
  have hle := Nat.mod_le i n
  refine ⟨i - i % n, List.mem_filter.mpr ⟨List.mem_range.mpr (by omega), ?_⟩, by omega, ?_⟩
  · rw [decide_eq_true_eq, ← Int.natCast_emod, Nat.sub_mod_eq_zero_of_mod_eq (Nat.mod_mod i n).symm]
    rfl
  · rw [Int.toNat_natCast]
    omega

namespace State

theorem shownIf_colouredCell (s : State) (changed : List Slot) (i : Slot) :
    ShownIf (Numeral.Writable (s.get i)) (s.colouredCell changed i) := by
  have hcell := (ShownIf.of_shownWith [s.get i] (i.cell (s.get i))).congr List.forall_mem_singleton
  exact hcell.map fun text => if i ∈ changed then _ else text

theorem mem_letterSlots_iff {i : Slot} : i ∈ letterSlots ↔ i.val < 22 := by
  revert i
  decide

/-- The registers are all that a table shows, and it shows all of them. -/
theorem shownIf_colouredTable (s : State) (previous : Option State) {columns : Int}
    (h : 0 < columns) : ShownIf s.Writable (s.colouredTable previous columns) := by
  let changed := s.changedSince previous
  let starts := (List.range 22).filter fun (i : Nat) => (i : Int) % columns = 0
  let row (start : Nat) : List Slot :=
    letterSlots.filter fun i => start ≤ i.val ∧ i.val < start + columns.toNat
  have hrow : ∀ start, ShownIf (∀ i ∈ row start, Numeral.Writable (s.get i))
      ((row start).mapM (s.colouredCell changed) >>= fun cells =>
        pure ("  ".intercalate cells)) := fun start =>
    (ShownIf.mapM (s.shownIf_colouredCell changed) (row start)).map _
  have htable := (ShownIf.mapM hrow starts).bind fun rows =>
    (s.shownIf_colouredCell changed Slot.acc).map fun total => lines (rows ++ [total])
  have hall : (∀ start ∈ starts, ∀ i ∈ row start, Numeral.Writable (s.get i)) ∧
      Numeral.Writable (s.get Slot.acc) ↔ s.Writable := by
    constructor
    · rintro ⟨hrows, hacc⟩ i
      by_cases hi : i.val < 22
      · obtain ⟨start, hstart, hmem⟩ := exists_rowStart h hi
        refine hrows start hstart i (List.mem_filter.mpr ⟨?_, decide_eq_true hmem⟩)
        exact mem_letterSlots_iff.mpr hi
      · rwa [show i = Slot.acc from Fin.ext (by show i.val = 22; omega)]
    · exact fun hs => ⟨fun start _ i _ => hs i, hs Slot.acc⟩
  unfold colouredTable
  rw [rowStarts_of_pos h]
  exact htable.congr hall

end State

/-! ## Outcomes -/

namespace Outcome

def shownSteps (o : Outcome) (traced : Bool) : List Step :=
  if traced then o.trace.getD [] else []

/-- All numbers that are shown of an outcome can be written. -/
structure Showable (o : Outcome) (traced : Bool) : Prop where
  steps : ∀ t ∈ o.shownSteps traced,
    (∀ n ∈ t.instruction.numbers, Numeral.Writable n) ∧ t.after.Writable
  final : o.final.Writable
  limit : o.exceeded → Numeral.Writable o.limit

theorem shownIf_colouredStep (t : Step) :
    ShownIf ((∀ n ∈ t.instruction.numbers, Numeral.Writable n) ∧ t.after.Writable)
      (colouredStep t) :=
  (ShownIf.of_shownWith _ _).bind fun _ =>
    (t.after.shownIf_colouredTable t.before (by decide)).map _

theorem shownIf_notice (o : Outcome) :
    ShownIf (o.exceeded → Numeral.Writable o.limit) o.notice := by
  unfold notice
  by_cases h : o.exceeded
  · rw [if_pos h]
    have hlimit : (∀ n ∈ [(o.limit : Int)], Numeral.Writable n) ↔
        (o.exceeded → Numeral.Writable o.limit) :=
      List.forall_mem_singleton.trans ⟨fun hlimit _ => hlimit, fun hlimit => hlimit h⟩
    exact ((ShownIf.of_shownWith _ _).map _).congr hlimit
  · rw [if_neg h]
    exact (ShownIf.ok []).congr (iff_of_true trivial fun h' => absurd h' h)

theorem shownIf_coloured (o : Outcome) (previous : State) (traced : Bool) :
    ShownIf (o.Showable traced) (o.coloured previous traced) := by
  have hshown := (ShownIf.mapM shownIf_colouredStep (o.shownSteps traced)).bind fun steps =>
    (o.final.shownIf_colouredTable previous (by decide : 0 < defaultColumns)).bind fun final =>
      o.shownIf_notice.map fun notice => lines (steps ++ [final] ++ notice)
  exact hshown.congr ⟨fun h => ⟨h.1, h.2.1, h.2.2⟩, fun h => ⟨h.steps, h.final, h.limit⟩⟩

end Outcome

end LetterMachine
