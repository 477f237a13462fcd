import LetterMachine.Proofs.Run
import LetterMachine.Stepper

/-!
# Steppers and runs

A stepper stands at a place of its program and holds the state and the record that a run has there.
Every call keeps this, whether it is answered or refused, so that a stepper that ticks to its end
has the outcome of the run, by whatever calls it came there.
-/

namespace LetterMachine

/-- What a phase tells of the place: whether the stepper is at the beginning, between, at the end or
at a limit before the end. -/
def Phase.Fits (pc size limit : Nat) : Phase → Prop
  | .idle => pc = 0
  | .running => 0 < pc ∧ pc < size
  | .done => pc = size
  | .limit => pc = limit ∧ limit < size

theorem Phase.Fits.of_eq {pc size limit : Nat} {phase phase' : Phase}
    (h : phase.Fits pc size limit) (heq : phase = phase') : phase'.Fits pc size limit :=
  heq ▸ h

namespace Stepper

/-- The state and the record are those of a run up to the place, whatever the phase tells. -/
structure Recorded (s : Stepper) : Prop where
  state : s.state = s.initial.after (s.program.toList.take s.pc)
  trace : s.trace.toList = Program.record s.initial (s.program.toList.take s.pc)

/-- The stepper agrees with a run of its program up to its place. -/
structure Valid (s : Stepper) : Prop where
  pc_le_limit : s.pc ≤ s.limit
  phase : s.phase.Fits s.pc s.program.size s.limit
  state : s.state = s.initial.after (s.program.toList.take s.pc)
  trace : s.trace.toList = Program.record s.initial (s.program.toList.take s.pc)

/-- What ticks leave alone: the first state, the limit and the program. -/
def task (s : Stepper) : State × Nat × Array Instruction := (s.initial, s.limit, s.program)

theorem Valid.recorded {s : Stepper} (h : s.Valid) : s.Recorded := ⟨h.state, h.trace⟩

theorem Valid.pc_le_size {s : Stepper} (h : s.Valid) : s.pc ≤ s.program.size := by
  have hphase := h.phase
  cases hcase : s.phase <;> rw [hcase] at hphase <;> simp only [Phase.Fits] at hphase <;> omega

theorem Valid.length_take {s : Stepper} (h : s.Valid) :
    (s.program.toList.take s.pc).length = s.pc := by
  rw [List.length_take, Array.length_toList]
  exact Nat.min_eq_left h.pc_le_size

theorem Valid.steps_eq {s : Stepper} (h : s.Valid) : s.steps = s.pc := by
  unfold steps
  rw [← Array.length_toList, h.trace, Program.length_record, h.length_take]

/-! ## One tick -/

/-- All that a tick can do: nothing more, as the stepper has ended, or comes to its end or to its
limit, or one instruction. -/
theorem tick_cases (s : Stepper) :
    ((s.phase = .done ∨ s.phase = .limit) ∧ s.tick = (s, false)) ∨
      (s.program.size ≤ s.pc ∧ s.tick = ({ s with phase := .done }, false)) ∨
      (s.pc < s.program.size ∧ s.limit ≤ s.steps ∧
        s.tick = ({ s with phase := .limit }, false)) ∨
      ∃ i, s.program[s.pc]? = some i ∧ s.steps < s.limit ∧
        s.tick = ({ s with
            state := i.apply s.state
            trace := s.trace.push ⟨s.pc, i, s.state, i.apply s.state⟩
            pc := s.pc + 1
            phase := if s.pc + 1 < s.program.size then .running else .done },
          decide (s.pc + 1 < s.program.size)) := by
  unfold tick
  by_cases hended : s.phase = .done ∨ s.phase = .limit
  · exact .inl ⟨hended, if_pos hended⟩
  · rw [if_neg hended]
    cases hi : s.program[s.pc]? with
    | none => exact .inr (.inl ⟨Array.getElem?_eq_none_iff.mp hi, rfl⟩)
    | some i =>
      dsimp only
      by_cases hlimit : s.limit ≤ s.steps
      · rw [if_pos hlimit]
        exact .inr (.inr (.inl ⟨(Array.getElem?_eq_some_iff.mp hi).1, hlimit, rfl⟩))
      · rw [if_neg hlimit]
        exact .inr (.inr (.inr ⟨i, rfl, Nat.lt_of_not_le hlimit, rfl⟩))

theorem task_tick (s : Stepper) : s.tick.1.task = s.task := by
  rcases s.tick_cases with ⟨-, h⟩ | ⟨-, h⟩ | ⟨-, -, h⟩ | ⟨i, -, -, h⟩ <;> rw [h] <;> rfl

theorem Recorded.tick {s : Stepper} (h : s.Recorded) : s.tick.1.Recorded := by
  rcases s.tick_cases with ⟨-, htick⟩ | ⟨-, htick⟩ | ⟨-, -, htick⟩ | ⟨i, hi, -, htick⟩
  · rw [htick]
    exact h
  · rw [htick]
    exact ⟨h.state, h.trace⟩
  · rw [htick]
    exact ⟨h.state, h.trace⟩
  · rw [htick]
    have htake : s.program.toList.take (s.pc + 1) = s.program.toList.take s.pc ++ [i] := by
      rw [List.take_add_one, Array.getElem?_toList, hi]
      rfl
    have hlength : (s.program.toList.take s.pc).length = s.pc := by
      rw [List.length_take, Array.length_toList]
      exact Nat.min_eq_left (Nat.le_of_lt (Array.getElem?_eq_some_iff.mp hi).1)
    refine ⟨?_, ?_⟩
    · show i.apply s.state = s.initial.after (s.program.toList.take (s.pc + 1))
      rw [htake, State.after_concat, h.state]
    · show (s.trace.push ⟨s.pc, i, s.state, i.apply s.state⟩).toList =
        Program.record s.initial (s.program.toList.take (s.pc + 1))
      rw [htake, Program.record_concat, hlength, ← h.state, Array.toList_push, h.trace]

theorem Valid.tick {s : Stepper} (h : s.Valid) : s.tick.1.Valid := by
  suffices hplace : s.tick.1.pc ≤ s.tick.1.limit ∧
      s.tick.1.phase.Fits s.tick.1.pc s.tick.1.program.size s.tick.1.limit from
    ⟨hplace.1, hplace.2, h.recorded.tick.state, h.recorded.tick.trace⟩
  rcases s.tick_cases with ⟨-, htick⟩ | ⟨hpc, htick⟩ | ⟨hpc, hsteps, htick⟩ |
    ⟨i, hi, hsteps, htick⟩
  · rw [htick]
    exact ⟨h.pc_le_limit, h.phase⟩
  · rw [htick]
    exact ⟨h.pc_le_limit, Nat.le_antisymm h.pc_le_size hpc⟩
  · rw [htick]
    rw [h.steps_eq] at hsteps
    have hlimit : s.pc = s.limit := Nat.le_antisymm h.pc_le_limit hsteps
    exact ⟨h.pc_le_limit, hlimit, hlimit ▸ hpc⟩
  · rw [htick]
    rw [h.steps_eq] at hsteps
    have hpc : s.pc < s.program.size := (Array.getElem?_eq_some_iff.mp hi).1
    refine ⟨hsteps, ?_⟩
    by_cases hmore : s.pc + 1 < s.program.size
    · simp only [hmore, if_true]
      exact ⟨Nat.succ_pos _, hmore⟩
    · simp only [hmore, if_false]
      exact Nat.le_antisymm hpc (Nat.not_lt.mp hmore)

/-- A tick that announces more to do has moved on and is not at the end. -/
theorem pc_tick_of_more {s next : Stepper} (h : s.tick = (next, true)) :
    next.pc = s.pc + 1 ∧ next.program.size = s.program.size ∧ next.pc < next.program.size := by
  rcases s.tick_cases with ⟨-, htick⟩ | ⟨-, htick⟩ | ⟨-, -, htick⟩ | ⟨i, -, -, htick⟩
  · rw [htick] at h
    cases h
  · rw [htick] at h
    cases h
  · rw [htick] at h
    cases h
  · rw [htick] at h
    obtain ⟨rfl, hmore⟩ := Prod.mk.inj h
    exact ⟨rfl, rfl, of_decide_eq_true hmore⟩

/-- A tick that announces nothing more to do has ended the stepper. -/
theorem phase_tick_of_no_more {s next : Stepper} (h : s.tick = (next, false)) :
    next.phase = .done ∨ next.phase = .limit := by
  rcases s.tick_cases with ⟨hended, htick⟩ | ⟨-, htick⟩ | ⟨-, -, htick⟩ | ⟨i, -, -, htick⟩
  · rw [htick] at h
    obtain rfl := (Prod.mk.inj h).1
    exact hended
  · rw [htick] at h
    obtain rfl := (Prod.mk.inj h).1
    exact .inl rfl
  · rw [htick] at h
    obtain rfl := (Prod.mk.inj h).1
    exact .inr rfl
  · rw [htick] at h
    obtain ⟨rfl, hmore⟩ := Prod.mk.inj h
    exact .inl (if_neg (of_decide_eq_false hmore))

/-! ## Ticking to the end -/

/-- What each tick keeps, ticks in a row keep. -/
theorem tickFor_of_tick {P : Stepper → Prop} (hP : ∀ s, P s → P s.tick.1) (n : Nat) {s : Stepper}
    (h : P s) : P (tickFor n s) := by
  induction n generalizing s with
  | zero => exact h
  | succ n ih =>
    have hnext := hP s h
    unfold tickFor
    cases htick : s.tick with
    | mk next more =>
      rw [htick] at hnext
      cases more with
      | true => exact ih hnext
      | false => exact hnext

theorem Valid.finish {s : Stepper} (h : s.Valid) : s.finish.Valid :=
  tickFor_of_tick (fun _ => Valid.tick) _ h

theorem task_finish (s : Stepper) : s.finish.task = s.task :=
  tickFor_of_tick (P := fun t => t.task = s.task) (fun t ht => (task_tick t).trans ht) _ rfl

/-- More ticks than there are instructions left end the stepper. -/
theorem phase_tickFor (n : Nat) (s : Stepper) (hn : s.program.size - s.pc < n) :
    (tickFor n s).phase = .done ∨ (tickFor n s).phase = .limit := by
  induction n generalizing s with
  | zero => omega
  | succ n ih =>
    unfold tickFor
    cases htick : s.tick with
    | mk next more =>
      cases more with
      | true =>
        -- one instruction fewer is left
        obtain ⟨hpc, hsize, hlt⟩ := pc_tick_of_more htick
        exact ih next (by omega)
      | false => exact phase_tick_of_no_more htick

theorem phase_finish (s : Stepper) : s.finish.phase = .done ∨ s.finish.phase = .limit :=
  phase_tickFor _ s (Nat.lt_succ_self _)

/-- A stepper that has ended has the outcome of the run: its phase leaves only one place for it. -/
theorem Valid.outcome_eq_run {s : Stepper} (h : s.Valid)
    (hended : s.phase = .done ∨ s.phase = .limit) :
    s.outcome = Program.run s.initial s.program.toList s.limit true := by
  have hphase := h.phase
  have hlimit := h.pc_le_limit
  have hsteps := h.steps_eq
  have hlength : s.program.toList.length = s.program.size := Array.length_toList
  unfold outcome
  rw [Program.run_eq, hsteps, h.trace, h.state, hlength]
  rcases hended with hdone | hcut
  · rw [hdone] at hphase ⊢
    have hpc : s.pc = s.program.size := hphase
    have htake : s.program.toList.take s.pc = s.program.toList.take s.limit := by
      rw [List.take_of_length_le (by omega), List.take_of_length_le (by omega)]
    rw [htake, Nat.min_eq_left (by omega), if_neg (by decide), if_pos rfl, if_neg (by omega), hpc]
  · rw [hcut] at hphase ⊢
    obtain ⟨hpc, hlt⟩ := hphase
    rw [hpc, Nat.min_eq_right (by omega), if_pos rfl, if_pos rfl, if_pos hlt]

/-! ## Calls -/

/-- The program that a call loads, or what refuses it.  Other calls load nothing. -/
def Call.program? (d : Directory) : Call → Option (Answer Program)
  | loadText text => some (Program.ofText text)
  | loadSource source => some source.program
  | loadFile path => some (d.text (Directory.shortened path) >>= Program.ofText)
  | _ => none

def Call.Loads (d : Directory) (call : Call) (p : Program) : Prop := call.program? d = some (.ok p)

theorem loadText_eq_map (s : Stepper) (text : String) :
    s.loadText text = (Program.ofText text).map s.load := by
  unfold loadText
  cases Program.ofText text <;> rfl

theorem loadSource_eq_map (s : Stepper) (source : Source) :
    s.loadSource source = source.program.map s.load := by
  unfold loadSource
  cases source.program <;> rfl

theorem loadFile_eq_map (s : Stepper) (d : Directory) (path : String) :
    s.loadFile d path =
      (d.text (Directory.shortened path) >>= Program.ofText).map s.load := by
  unfold loadFile
  cases d.text (Directory.shortened path) with
  | error f => rfl
  | ok text => exact s.loadText_eq_map text

/-- A load takes a whole program or nothing. -/
theorem perform_of_program? {d : Directory} {call : Call} {a : Answer Program}
    (h : call.program? d = some a) (s : Stepper) : s.perform d call = s.loaded (a.map s.load) := by
  cases call with
  | loadText text =>
    obtain rfl := Option.some.inj h
    rw [← loadText_eq_map]
    rfl
  | loadSource source =>
    obtain rfl := Option.some.inj h
    rw [← loadSource_eq_map]
    rfl
  | loadFile path =>
    obtain rfl := Option.some.inj h
    rw [← loadFile_eq_map]
    rfl
  | tick | reset | finish | outcome => cases h

theorem perform_of_loads {d : Directory} {call : Call} {p : Program} (h : call.Loads d p)
    (s : Stepper) : s.perform d call = (s.load p, .ok .nothing) :=
  perform_of_program? h s

/-- All that a call can do to a stepper: it loads a program, it leaves the stepper as it was, or it
ticks or starts over. -/
theorem perform_fst_cases (s : Stepper) (d : Directory) (call : Call) :
    (∃ p, call.Loads d p ∧ (s.perform d call).1 = s.load p) ∨
      (s.perform d call).1 = s ∨ (s.perform d call).1 = s.tick.1 ∨
      (s.perform d call).1 = s.reset ∨ (s.perform d call).1 = s.finish := by
  cases hload : call.program? d with
  | some a =>
    rw [perform_of_program? hload]
    cases a with
    | ok p => exact .inl ⟨p, hload, rfl⟩
    | error f => exact .inr (.inl rfl)
  | none =>
    cases call with
    | loadText text => cases hload
    | loadSource source => cases hload
    | loadFile path => cases hload
    | tick => exact .inr (.inr (.inl rfl))
    | reset => exact .inr (.inr (.inr (.inl rfl)))
    | finish => exact .inr (.inr (.inr (.inr rfl)))
    | outcome => exact .inr (.inl rfl)

theorem valid_reset (s : Stepper) : s.reset.Valid :=
  ⟨Nat.zero_le _, rfl, rfl, rfl⟩

theorem Valid.perform {s : Stepper} (h : s.Valid) (d : Directory) (call : Call) :
    (s.perform d call).1.Valid := by
  rcases s.perform_fst_cases d call with ⟨p, -, hp⟩ | hsame | htick | hreset | hfinish
  · rw [hp]
    exact valid_reset _
  · rw [hsame]
    exact h
  · rw [htick]
    exact h.tick
  · rw [hreset]
    exact valid_reset s
  · rw [hfinish]
    exact h.finish

/-- Only a load that is not refused changes what there is to run. -/
theorem task_perform {s : Stepper} {d : Directory} {call : Call} (h : ∀ p, ¬ call.Loads d p) :
    (s.perform d call).1.task = s.task := by
  rcases s.perform_fst_cases d call with ⟨p, hload, -⟩ | hsame | htick | hreset | hfinish
  · exact absurd hload (h p)
  · rw [hsame]
  · rw [htick, task_tick]
  · rw [hreset]
    rfl
  · rw [hfinish, task_finish]

/-- A load changes neither the first state nor the limit. -/
theorem start_perform (s : Stepper) (d : Directory) (call : Call) :
    (s.perform d call).1.initial = s.initial ∧ (s.perform d call).1.limit = s.limit := by
  by_cases hload : ∃ p, call.Loads d p
  · obtain ⟨p, hp⟩ := hload
    rw [perform_of_loads hp]
    exact ⟨rfl, rfl⟩
  · have htask := task_perform (s := s) (not_exists.mp hload)
    obtain ⟨hinitial, hrest⟩ := Prod.mk.inj htask
    exact ⟨hinitial, (Prod.mk.inj hrest).1⟩

/-! ## Histories -/

/-- The stepper after calls in a row, each with the directory as it is found then. -/
def afterCalls (s : Stepper) (history : List (Directory × Call)) : Stepper :=
  history.foldl (fun s call => (s.perform call.1 call.2).1) s

theorem Valid.afterCalls {s : Stepper} (h : s.Valid) (history : List (Directory × Call)) :
    (s.afterCalls history).Valid := by
  induction history generalizing s with
  | nil => exact h
  | cons call history ih => exact ih (h.perform call.1 call.2)

theorem start_afterCalls (s : Stepper) (history : List (Directory × Call)) :
    (s.afterCalls history).initial = s.initial ∧ (s.afterCalls history).limit = s.limit := by
  induction history generalizing s with
  | nil => exact ⟨rfl, rfl⟩
  | cons call history ih =>
    obtain ⟨hinitial, hlimit⟩ := ih (s.perform call.1 call.2).1
    obtain ⟨hinitial', hlimit'⟩ := s.start_perform call.1 call.2
    exact ⟨hinitial.trans hinitial', hlimit.trans hlimit'⟩

theorem task_afterCalls {s : Stepper} {history : List (Directory × Call)}
    (h : ∀ call ∈ history, ∀ p, ¬ call.2.Loads call.1 p) :
    (s.afterCalls history).task = s.task := by
  induction history generalizing s with
  | nil => rfl
  | cons call history ih =>
    obtain ⟨hcall, hhistory⟩ := List.forall_mem_cons.mp h
    exact (ih hhistory).trans (task_perform hcall)

/-! ## What holds after any history -/

/-- Once a program has been loaded, ticking to the end gives the outcome of the run of that program,
whatever calls came before the load, and whatever calls came behind it as long as none of them
loaded another. -/
theorem outcome_finish_eq_run (initial : State) (limit : Nat)
    (before rest : List (Directory × Call)) {d : Directory} {load : Call} {p : Program}
    (hload : load.Loads d p)
    (hrest : ∀ call ∈ rest, ∀ q, ¬ call.2.Loads call.1 q) (d' : Directory) :
    let s := (new initial limit).afterCalls before
    (s.perform d load).2 = .ok .nothing ∧
      ∃ o, (Source.items (p.map .instruction)).run initial (.whole limit) true = .ok o ∧
        ((s.afterCalls ((d, load) :: rest)).perform d' .finish).2 = .ok (.outcome o) := by
  intro s
  have hperform : s.perform d load = (s.load p, .ok .nothing) := perform_of_loads hload s
  have hcalls : s.afterCalls ((d, load) :: rest) = (s.load p).afterCalls rest := by
    show (s.perform d load).1.afterCalls rest = _
    rw [hperform]
  -- the state and the limit are those of the new stepper, the program is the one that was loaded
  have htask : ((s.load p).afterCalls rest).finish.task = (initial, limit, p.toArray) := by
    obtain ⟨hinitial, hlimit⟩ := (new initial limit).start_afterCalls before
    rw [task_finish, task_afterCalls hrest]
    show (s.initial, s.limit, p.toArray) = _
    rw [hinitial, hlimit]
    rfl
  have hvalid : ((s.load p).afterCalls rest).finish.Valid :=
    ((valid_reset { s with program := p.toArray }).afterCalls rest).finish
  refine ⟨by rw [hperform], _, Source.run_instructions initial p limit true, ?_⟩
  obtain ⟨hinitial, htask⟩ := Prod.mk.inj htask
  obtain ⟨hlimit, hprogram⟩ := Prod.mk.inj htask
  rw [hcalls]
  show (Except.ok (Reply.outcome ((s.load p).afterCalls rest).finish.outcome) : Answer Reply) = _
  rw [hvalid.outcome_eq_run (phase_finish _), hinitial, hlimit, hprogram]

/-- A first program is left in the middle; then three instructions are loaded under a limit of two,
and ticks, a refused load and a new start come between the load and the end. -/
theorem outcome_finish_eq_run_cut :
    let d : Directory := .ofFiles []
    let p : Program := [⟨.bet, .plain, 0⟩, ⟨.sovav, .immediate, 3⟩, ⟨.hei, .query, 0⟩]
    let load : Call := .loadSource (.items (p.map .instruction))
    let before : List (Directory × Call) := [(d, .loadSource (.items [.opcode .nun])), (d, .tick)]
    let rest : List (Directory × Call) :=
      [(d, .tick), (d, .loadSource (.other (.whole 5) rfl)), (d, .finish), (d, .reset), (d, .tick)]
    (load.Loads d p ∧ ∀ call ∈ rest, ∀ q, ¬ call.2.Loads call.1 q) ∧
      let s := ((new State.zero 2).afterCalls before).afterCalls ((d, load) :: rest)
      (s.perform d .finish).2 = .ok (.outcome (p.run State.zero 2 true)) := by
  intro d p load before rest
  have hload : load.Loads d p := congrArg some (Source.program_instructions p)
  have hrest : ∀ call ∈ rest, ∀ q, ¬ call.2.Loads call.1 q := by
    intro call hcall q hq
    simp only [rest, List.mem_cons, List.not_mem_nil, or_false] at hcall
    rcases hcall with rfl | rfl | rfl | rfl | rfl <;> cases hq
  obtain ⟨-, o, ho, hfinish⟩ := outcome_finish_eq_run State.zero 2 before rest hload hrest d
  obtain rfl := Except.ok.inj ((Source.run_instructions State.zero p 2 true).symm.trans ho)
  exact ⟨⟨hload, hrest⟩, hfinish⟩

theorem Valid.of_trace {s : Stepper} (h : s.Valid) {n : Nat} {t : Step}
    (ht : s.trace[n]? = some t) :
    ∃ i, s.program[n]? = some i ∧ t = ⟨n, i, s.initial.after (s.program.toList.take n),
      s.initial.after (s.program.toList.take (n + 1))⟩ := by
  rw [← Array.getElem?_toList, h.trace, Program.getElem?_record] at ht
  obtain ⟨i, hi, rfl⟩ := Option.map_eq_some_iff.mp ht
  have hn : n < (s.program.toList.take s.pc).length := (List.getElem?_eq_some_iff.mp hi).1
  rw [h.length_take] at hn
  rw [List.getElem?_take_of_lt hn, Array.getElem?_toList] at hi
  refine ⟨i, hi, ?_⟩
  rw [List.take_take, List.take_take, Nat.min_eq_left (by omega), Nat.min_eq_left (by omega)]

theorem perform_refused {s : Stepper} {d : Directory} {call : Call} {f : Fault}
    (h : (s.perform d call).2 = .error f) : (s.perform d call).1 = s := by
  cases hload : call.program? d with
  | some a =>
    rw [perform_of_program? hload] at h ⊢
    cases a with
    | ok p => cases h
    | error f => rfl
  | none =>
    -- every other call is answered
    cases call with
    | loadText text => cases hload
    | loadSource source => cases hload
    | loadFile path => cases hload
    | tick | reset | finish | outcome => exact absurd h (fun h => by injection h)

/-- After any calls, answered or refused, the place, the number of steps and the length of the
record agree and keep to the program and the limit; the record chains the instructions in order from
the first state; the state is what they lead to; the phase tells where the place is; and a call that
is refused changes nothing. -/
theorem afterCalls_new (initial : State) (limit : Nat) (history : List (Directory × Call)) :
    let s := (new initial limit).afterCalls history
    s.pc = s.steps ∧ s.steps = s.trace.size ∧ s.trace.size ≤ min s.program.size limit ∧
      (∀ n (t : Step), s.trace[n]? = some t → t.index = n ∧ s.program[n]? = some t.instruction) ∧
      (∀ t : Step, s.trace[0]? = some t → t.before = initial) ∧
      (∀ n (t t' : Step), s.trace[n]? = some t → s.trace[n + 1]? = some t' → t.after = t'.before) ∧
      s.state = initial.after (s.program.toList.take s.pc) ∧
      (s.phase = .idle → s.pc = 0) ∧
      (s.phase = .running → 0 < s.pc ∧ s.pc < s.program.size) ∧
      (s.phase = .done → s.pc = s.program.size) ∧
      (s.phase = .limit → s.pc = limit ∧ limit < s.program.size) ∧
      ∀ d call f, (s.perform d call).2 = .error f → (s.perform d call).1 = s := by
  intro s
  have hvalid : s.Valid := (valid_reset (new initial limit)).afterCalls history
  obtain ⟨hinitial, hlimit⟩ : s.initial = initial ∧ s.limit = limit :=
    (new initial limit).start_afterCalls history
  have hphase := hvalid.phase
  rw [hlimit] at hphase
  refine ⟨hvalid.steps_eq.symm, rfl, ?_, ?_, ?_, ?_, ?_, ?_, ?_, ?_, ?_, ?_⟩
  · have hsteps : s.trace.size = s.pc := hvalid.steps_eq
    rw [hsteps, ← hlimit]
    exact Nat.le_min.mpr ⟨hvalid.pc_le_size, hvalid.pc_le_limit⟩
  · intro n t ht
    obtain ⟨i, hi, rfl⟩ := hvalid.of_trace ht
    exact ⟨rfl, hi⟩
  · intro t ht
    obtain ⟨i, -, rfl⟩ := hvalid.of_trace ht
    exact hinitial
  · intro n t t' ht ht'
    obtain ⟨i, -, rfl⟩ := hvalid.of_trace ht
    obtain ⟨i', -, rfl⟩ := hvalid.of_trace ht'
    rfl
  · rw [← hinitial]
    exact hvalid.state
  · exact fun h => hphase.of_eq h
  · exact fun h => hphase.of_eq h
  · exact fun h => hphase.of_eq h
  · exact fun h => hphase.of_eq h
  · intro d call f
    exact perform_refused

/-! ## The status in between -/

/-- What a status says of the place: a program that is completed has been applied to its end, and
one that is cut off has come to the limit with more behind it. -/
structure StatusHolds (s : Stepper) : Prop where
  completed : s.outcome.status = .completed → s.pc = s.program.size
  cutOff : s.outcome.status = .stepLimit → s.steps = s.limit ∧ s.limit < s.program.size

theorem status_outcome_of_ne {s : Stepper} (h : s.phase ≠ .limit) :
    s.outcome.status = .completed :=
  if_neg h

theorem Valid.cutOff {s : Stepper} (h : s.Valid) (hcut : s.outcome.status = .stepLimit) :
    s.steps = s.limit ∧ s.limit < s.program.size := by
  have hphase : s.phase = .limit := by
    by_cases hlimit : s.phase = .limit
    · exact hlimit
    · rw [status_outcome_of_ne hlimit] at hcut
      cases hcut
  have hfits := h.phase
  rw [hphase] at hfits
  rw [h.steps_eq]
  exact hfits

/-- The status is drawn from the phase, and a stepper on its way counts as completed: what it says
holds only at the end, at the limit, or where there is nothing to apply. -/
theorem Valid.statusHolds_iff {s : Stepper} (h : s.Valid) :
    s.StatusHolds ↔ s.phase = .done ∨ s.phase = .limit ∨ s.program.size = 0 := by
  have hfits := h.phase
  constructor
  · intro hstatus
    cases hphase : s.phase with
    | idle =>
      rw [hphase] at hfits
      have hpc : s.pc = 0 := hfits
      have hend := hstatus.completed (status_outcome_of_ne (by rw [hphase]; decide))
      exact .inr (.inr (by omega))
    | running =>
      rw [hphase] at hfits
      obtain ⟨-, hpc⟩ := hfits
      have hend := hstatus.completed (status_outcome_of_ne (by rw [hphase]; decide))
      omega
    | done => exact .inl rfl
    | limit => exact .inr (.inl rfl)
  · intro hplace
    refine ⟨fun hcompleted => ?_, h.cutOff⟩
    rcases hplace with hdone | hlimit | hempty
    · rw [hdone] at hfits
      exact hfits
    · unfold outcome at hcompleted
      rw [if_pos hlimit] at hcompleted
      cases hcompleted
    · have hpc := h.pc_le_size
      omega

/-- After any calls, the status of the outcome so far says what holds exactly if the stepper has
come to its end or to its limit, or has nothing to apply.  A stepper that is cut off is told so
rightly wherever it is told; ticking to the end makes any status right. -/
theorem statusHolds_afterCalls_iff (initial : State) (limit : Nat)
    (history : List (Directory × Call)) :
    let s := (new initial limit).afterCalls history
    (∀ d, s.perform d .outcome = (s, .ok (.outcome s.outcome))) ∧
      (s.StatusHolds ↔ s.phase = .done ∨ s.phase = .limit ∨ s.program.size = 0) ∧
      (s.outcome.status = .stepLimit → s.steps = limit ∧ limit < s.program.size) ∧
      s.finish.StatusHolds := by
  intro s
  have hvalid : s.Valid := (valid_reset (new initial limit)).afterCalls history
  obtain ⟨-, hlimit⟩ : s.initial = initial ∧ s.limit = limit :=
    (new initial limit).start_afterCalls history
  refine ⟨fun d => rfl, hvalid.statusHolds_iff, fun hcut => ?_, ?_⟩
  · rw [← hlimit]
    exact hvalid.cutOff hcut
  · apply hvalid.finish.statusHolds_iff.mpr
    rcases phase_finish s with hdone | hcut
    · exact .inl hdone
    · exact .inr (.inl hcut)

/-- The limit admits the first of two instructions.  After it the stepper counts as completed, until
a second tick looks at the limit. -/
theorem not_forall_statusHolds :
    ¬ ∀ (initial : State) (limit : Nat) (history : List (Directory × Call)),
      ((new initial limit).afterCalls history).StatusHolds := by
  intro h
  let d : Directory := .ofFiles []
  let p : Program := [⟨.zayin, .plain, 0⟩, ⟨.zayin, .plain, 0⟩]
  let load : Call := .loadSource (.items (p.map .instruction))
  let history : List (Directory × Call) := [(d, load), (d, .tick)]
  have hend := (h State.zero 1 history).completed (by decide)
  exact absurd hend (by decide)

end Stepper

end LetterMachine
