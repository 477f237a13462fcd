import LetterMachine.Run

/-!
# What a run does

A run applies the first instructions of a program, as many as the limit admits.  Its record tells of
each of them by its place in the program, and what the limit cut off can be run from where it
stopped.
-/

namespace LetterMachine

theorem State.after_cons (s : State) (i : Instruction) (p : Program) :
    s.after (i :: p) = (i.apply s).after p := rfl

theorem State.after_append (s : State) (p q : Program) : s.after (p ++ q) = (s.after p).after q :=
  List.foldl_append

theorem State.after_concat (s : State) (p : Program) (i : Instruction) :
    s.after (p ++ [i]) = i.apply (s.after p) := by
  rw [after_append]
  rfl

namespace Program

/-- The steps of a whole program, each by its place: the instruction there, between the states that
the instructions before it and those up to it lead to. -/
def record (s : State) (p : Program) : List Step :=
  p.mapIdx fun n i => ⟨n, i, s.after (p.take n), s.after (p.take (n + 1))⟩

@[simp] theorem length_record (s : State) (p : Program) : (record s p).length = p.length :=
  List.length_mapIdx

theorem getElem?_record (s : State) (p : Program) (n : Nat) :
    (record s p)[n]? =
      p[n]?.map fun i => ⟨n, i, s.after (p.take n), s.after (p.take (n + 1))⟩ :=
  List.getElem?_mapIdx

theorem record_concat (s : State) (p : Program) (i : Instruction) :
    record s (p ++ [i]) = record s p ++ [⟨p.length, i, s.after p, i.apply (s.after p)⟩] := by
  have hfirst : (p.mapIdx fun n i' =>
      (⟨n, i', s.after ((p ++ [i]).take n), s.after ((p ++ [i]).take (n + 1))⟩ : Step)) =
      record s p := by
    apply List.mapIdx_eq_mapIdx_iff.mpr
    intro n hn
    -- no step of the shorter program reads the last instruction
    rw [List.take_append_of_le_length (by omega), List.take_append_of_le_length (by omega)]
  unfold record at hfirst ⊢
  rw [List.mapIdx_concat, hfirst, List.take_left, ← s.after_concat p i]
  congr 4
  exact List.take_of_length_le (by simp)

/-! ## The loop -/

/-- The loop in the middle of a run: the instructions that are done have made the state and the
record. -/
theorem runFrom_after (limit : Nat) (s : State) (traced : Bool) (done rest : Program)
    (h : done.length ≤ limit) :
    runFrom limit (s.after done) done.length
        (if traced then some (record s done).toArray else none) rest =
      ⟨s.after ((done ++ rest).take limit),
        if traced then some (record s ((done ++ rest).take limit)) else none,
        min (done ++ rest).length limit,
        if limit < (done ++ rest).length then .stepLimit else .completed, limit⟩ := by
  induction rest generalizing done with
  | nil =>
    have hall : (done ++ []).take limit = done := by
      rw [List.append_nil, List.take_of_length_le h]
    rw [runFrom, hall, List.append_nil, Nat.min_eq_left h, if_neg (Nat.not_lt.mpr h)]
    cases traced <;> rfl
  | cons i rest ih =>
    by_cases hlimit : limit ≤ done.length
    · -- the limit lies just behind what is done
      obtain rfl : limit = done.length := by omega
      have hlength : done.length < (done ++ i :: rest).length := by simp
      rw [runFrom, if_pos hlimit, List.take_left, Nat.min_eq_right (Nat.le_of_lt hlength),
        if_pos hlength]
      cases traced <;> rfl
    · have hstep := ih (done ++ [i]) (by simp; omega)
      rw [List.append_assoc, List.singleton_append, List.length_append, List.length_singleton,
        State.after_concat, record_concat] at hstep
      rw [runFrom, if_neg hlimit, ← hstep]
      cases traced <;> simp

/-- A run by what the limit admits of the program. -/
theorem run_eq (s : State) (p : Program) (limit : Nat) (traced : Bool) :
    run s p limit traced =
      ⟨s.after (p.take limit), if traced then some (record s (p.take limit)) else none,
        min p.length limit, if limit < p.length then .stepLimit else .completed, limit⟩ :=
  runFrom_after limit s traced [] p (Nat.zero_le limit)

end Program

/-! ## Instructions as a source -/

theorem Datum.limit_whole (n : Nat) : (whole n).limit = .ok n := by
  unfold limit whole?
  simp

theorem Source.program_instructions (p : Program) :
    (items (p.map .instruction)).program = .ok p := by
  have hmap : (p.map Item.instruction).mapM Item.instruction? = some p := by
    induction p with
    | nil => rfl
    | cons i p ih => rw [List.map_cons, List.mapM_cons, ih]; rfl
  simp only [program, toItems, bind, Except.bind, hmap]
  rfl

theorem Source.run_instructions (s : State) (p : Program) (limit : Nat) (traced : Bool) :
    (items (p.map .instruction)).run s (.whole limit) traced = .ok (p.run s limit traced) := by
  unfold run
  rw [Datum.limit_whole, program_instructions]
  rfl

namespace Program

/-- A run applies as many instructions as the program has and the limit admits, in order, and its
record holds each of them by its place.  The record is kept on demand and changes nothing else.
Running the rest from the last state leads to where the whole program leads. -/
theorem run_admitted (s : State) (p : Program) (limit : Nat) (traced : Bool) :
    let n := min p.length limit
    let o := run s p limit traced
    (Source.items (p.map .instruction)).run s (.whole limit) traced = .ok o ∧
      o.final = s.after (p.take n) ∧ o.steps = n ∧ o.limit = limit ∧
      (o.status = .stepLimit ↔ limit < p.length) ∧
      o.trace.isSome = traced ∧
      (∀ steps, o.trace = some steps → steps.length = n ∧
        ∀ i (h : i < p.length), i < n →
          steps[i]? = some ⟨i, p[i], s.after (p.take i), s.after (p.take (i + 1))⟩) ∧
      (∀ traced', (run s p limit traced').final = o.final ∧
        (run s p limit traced').steps = o.steps ∧ (run s p limit traced').status = o.status) ∧
      ∀ limit₁ limit₂ traced₁ traced₂, (p.drop n).length ≤ limit₁ → p.length ≤ limit₂ →
        (run o.final (p.drop n) limit₁ traced₁).final = (run s p limit₂ traced₂).final := by
  intro n o
  have htake : p.take limit = p.take n := by
    rw [List.take_eq_take_iff]
    omega
  have ho : o = ⟨s.after (p.take n), if traced then some (record s (p.take n)) else none, n,
      if limit < p.length then .stepLimit else .completed, limit⟩ := by
    rw [← htake]
    exact run_eq s p limit traced
  refine ⟨Source.run_instructions s p limit traced, ?_, ?_, ?_, ?_, ?_, ?_, ?_, ?_⟩
  · rw [ho]
  · rw [ho]
  · rw [ho]
  · rw [ho]
    by_cases hlimit : limit < p.length <;> simp [hlimit]
  · rw [ho]
    cases traced <;> rfl
  · intro steps hsteps
    rw [ho] at hsteps
    cases traced with
    | false => cases hsteps
    | true =>
      obtain rfl : record s (p.take n) = steps := Option.some.inj hsteps
      refine ⟨by rw [length_record, List.length_take]; omega, ?_⟩
      intro i hi hin
      -- the step reads the first `i + 1` instructions, all of them admitted
      rw [getElem?_record, List.getElem?_take_of_lt hin, List.getElem?_eq_getElem hi,
        List.take_take, List.take_take, Nat.min_eq_left (by omega), Nat.min_eq_left (by omega)]
      rfl
  · intro traced'
    rw [ho, run_eq, htake]
    exact ⟨rfl, rfl, rfl⟩
  · intro limit₁ limit₂ traced₁ traced₂ hrest hall
    rw [ho, run_eq, run_eq, List.take_of_length_le hrest, List.take_of_length_le hall]
    show (s.after (p.take n)).after (p.drop n) = s.after p
    rw [← State.after_append, List.take_append_drop]

/-- Three instructions under a limit of two: the last is cut off, and is run by itself. -/
theorem run_admitted_cut :
    let p : Program := [⟨.bet, .plain, 0⟩, ⟨.sovav, .immediate, 3⟩, ⟨.hei, .query, 0⟩]
    let o := run State.zero p 2 true
    ((p.drop 2).length ≤ 1 ∧ p.length ≤ 3) ∧
      o.steps = 2 ∧ o.status = .stepLimit ∧
      (run o.final (p.drop 2) 1 false).final = (run State.zero p 3 true).final := by
  intro p o
  obtain ⟨-, -, hsteps, -, hstatus, -, -, -, hresume⟩ := run_admitted State.zero p 2 true
  exact ⟨⟨by decide, by decide⟩, hsteps, hstatus.mpr (by decide),
    hresume 1 3 false true (by decide) (by decide)⟩

end Program

end LetterMachine
