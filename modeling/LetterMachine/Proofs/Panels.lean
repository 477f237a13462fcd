import LetterMachine.Debugger
import LetterMachine.Proofs.Display
import LetterMachine.Proofs.PanelText
import LetterMachine.Proofs.Stepper
import Mathlib.Data.List.Induction
import Mathlib.Data.List.Infix

/-!
# What the panels show

The log grows with the record of the stepper: a count says how many steps it tells of, and a flag
whether the limit is told behind them.  Ticks leave what is told true, and a new start makes it
stale.  So the panels show the stepper as it is after every key, as long as its numbers can be
written.
-/

namespace LetterMachine

open LetterMachine.Text

/-! ## Numbers -/

theorem State.forall_mem_toList {P : Int → Prop} {s : State} :
    (∀ n ∈ s.toList, P n) ↔ ∀ i, P (s.get i) := by
  unfold toList
  constructor
  · intro h i
    unfold get
    split
    · exact h _ (List.mem_append_left _ (Vector.mem_toList_iff.mpr (Vector.getElem_mem _)))
    · exact h _ (List.mem_append_right _ (List.mem_singleton_self _))
  · intro h n hn
    rcases List.mem_append.mp hn with hletter | hacc
    · obtain ⟨i, hi, rfl⟩ := Vector.getElem_of_mem (Vector.mem_toList_iff.mp hletter)
      have hget := h ⟨i, Nat.lt_succ_of_lt hi⟩
      unfold get at hget
      rwa [dif_pos hi] at hget
    · obtain rfl := List.mem_singleton.mp hacc
      exact h Slot.acc

theorem Step.after_mem_numbers {t : Step} {i : Slot} (h : t.before.get i ≠ t.after.get i) :
    t.after.get i ∈ t.numbers := by
  have hchanged : i ∈ t.changed :=
    List.mem_filter.mpr ⟨List.mem_finRange i, decide_eq_true h⟩
  exact List.mem_append_left _ (List.mem_flatMap.mpr ⟨i, hchanged, by simp⟩)

/-- What a program leaves in a register was there at first, or a step of its record tells it. -/
theorem Program.get_after_cases (s : State) (p : Program) (i : Slot) :
    (s.after p).get i = s.get i ∨ ∃ t ∈ record s p, (s.after p).get i ∈ t.numbers := by
  -- from the end: the last step tells the register, or has left it alone
  induction p using List.reverseRecOn with
  | nil => exact .inl rfl
  | append_singleton p j ih =>
    rw [State.after_concat, record_concat]
    let t : Step := ⟨p.length, j, s.after p, j.apply (s.after p)⟩
    by_cases hkept : t.before.get i = t.after.get i
    · rw [show (j.apply (s.after p)).get i = (s.after p).get i from hkept.symm]
      refine ih.imp_right ?_
      rintro ⟨t', ht', hnumbers⟩
      exact ⟨t', List.mem_append_left _ ht', hnumbers⟩
    · have ht : t ∈ record s p ++ [t] := List.mem_append_right _ (List.mem_singleton_self _)
      exact .inr ⟨t, ht, Step.after_mem_numbers hkept⟩

namespace Stepper

/-- The numbers that a stepper has come by: those of its program, its limit, those it started from,
and those of its record. -/
def numbers (s : Stepper) : List Int :=
  s.program.toList.flatMap Instruction.numbers ++ [(s.limit : Int)] ++ s.initial.toList
    ++ s.trace.toList.flatMap Step.numbers

/-- Every number that the stepper has come by can be written. -/
def Legible (s : Stepper) : Prop := ∀ n ∈ s.numbers, Numeral.Writable n

instance (s : Stepper) : Decidable s.Legible := inferInstanceAs (Decidable (∀ n ∈ _, _))

theorem legible_iff {s : Stepper} :
    s.Legible ↔ (∀ n ∈ s.program.toList.flatMap Instruction.numbers, Numeral.Writable n) ∧
      Numeral.Writable s.limit ∧ s.initial.Writable ∧
      ∀ t ∈ s.trace.toList, ∀ n ∈ t.numbers, Numeral.Writable n := by
  unfold Legible numbers State.Writable
  rw [← State.forall_mem_toList]
  simp only [List.forall_mem_append, List.forall_mem_singleton, List.forall_mem_flatMap, and_assoc]

/-- The state shows no number that is not in the record or at the beginning. -/
theorem Recorded.writable_state {s : Stepper} (h : s.Recorded) (hs : s.Legible) :
    s.state.Writable := by
  obtain ⟨-, -, hinitial, htrace⟩ := legible_iff.mp hs
  intro i
  rw [h.state]
  rcases Program.get_after_cases s.initial (s.program.toList.take s.pc) i with
    hfirst | ⟨t, ht, hnumbers⟩
  · rw [hfirst]
    exact hinitial i
  · rw [← h.trace] at ht
    exact htrace t ht _ hnumbers

/-! ## Moving on -/

/-- A stepper that has moved on over the same task. -/
structure Follows (s' s : Stepper) : Prop where
  task : s'.task = s.task
  trace : s.trace.toList <+: s'.trace.toList

namespace Follows

theorem refl (s : Stepper) : s.Follows s := ⟨rfl, List.prefix_rfl⟩

theorem trans {s s' s'' : Stepper} (h : s''.Follows s') (h' : s'.Follows s) : s''.Follows s :=
  ⟨h.task.trans h'.task, h'.trace.trans h.trace⟩

theorem tick (s : Stepper) : s.tick.1.Follows s := by
  refine ⟨task_tick s, ?_⟩
  rcases s.tick_cases with ⟨-, h⟩ | ⟨-, h⟩ | ⟨-, -, h⟩ | ⟨i, -, -, h⟩
  · simp only [h, List.prefix_rfl]
  · simp only [h, List.prefix_rfl]
  · simp only [h, List.prefix_rfl]
  · simp only [h, Array.toList_push, List.prefix_append]

/-- What can be written in the end could be written all along. -/
theorem legible {s s' : Stepper} (h : s'.Follows s) (hs : s'.Legible) : s.Legible := by
  obtain ⟨hinitial, hrest⟩ := Prod.mk.inj h.task
  obtain ⟨hlimit, hprogram⟩ := Prod.mk.inj hrest
  obtain ⟨hp, hl, hi, ht⟩ := legible_iff.mp hs
  rw [hprogram] at hp
  rw [hlimit] at hl
  rw [hinitial] at hi
  exact legible_iff.mpr ⟨hp, hl, hi, fun t htrace => ht t (h.trace.subset htrace)⟩

end Follows

end Stepper

namespace Debugger

/-! ## What is shown -/

def limitLine (limit : Nat) : String :=
  styled "red" ("Step limit of " ++ Nat.repr limit ++ " reached")

/-- The lines that tell of steps. -/
def stepLines (ts : List Step) : List String := ts.map fun t => unstyled t.line

/-- The log of a stepper: a line for each step, and one for the limit once it has been met. -/
def logOf (s : Stepper) : List String :=
  stepLines s.trace.toList ++ if s.phase = .limit then [limitLine s.limit] else []

/-- The panels show what the debugger holds now. -/
structure Current (d : Debugger) : Prop where
  program : d.programPanel = d.programText
  registers : d.registerPanel = d.registerText
  log : d.log.toList = logOf d.stepper

/-- Panels that hold the rendering of the debugger tell what it is, and no older one. -/
theorem Current.exhibits {d : Debugger} (h : d.Current) : d.Exhibits where
  program := by
    rw [h.program]
    exact readProgram_programText d
  registers := by
    rw [h.registers]
    exact readRegisters_registerText d

/-- The log is true as far as it goes: it tells of as many steps as are counted, and of the limit if
that is flagged, which comes last. -/
structure Logged (d : Debugger) : Prop where
  le : d.logged ≤ d.stepper.steps
  log : d.log.toList = stepLines (d.stepper.trace.toList.take d.logged) ++
    if d.limitTold then [limitLine d.stepper.limit] else []
  told : d.limitTold = true → d.stepper.phase = .limit ∧ d.logged = d.stepper.steps

variable {d : Debugger}

/-- What the log tells stays true as the stepper moves on. -/
theorem Logged.tick (h : d.Logged) : { d with stepper := d.stepper.tick.1 }.Logged := by
  have hfollows := Stepper.Follows.tick d.stepper
  have hle : d.stepper.steps ≤ d.stepper.tick.1.steps := by
    have hlength := hfollows.trace.length_le
    rwa [Array.length_toList, Array.length_toList] at hlength
  have htake : d.stepper.tick.1.trace.toList.take d.logged =
      d.stepper.trace.toList.take d.logged := by
    obtain ⟨more, hmore⟩ := hfollows.trace
    rw [← hmore, List.take_append_of_le_length]
    rw [Array.length_toList]
    exact h.le
  have hlimit : d.stepper.tick.1.limit = d.stepper.limit :=
    congrArg (fun task => task.2.1) hfollows.task
  refine ⟨Nat.le_trans h.le hle, ?_, fun htold => ?_⟩
  · show d.log.toList = stepLines (d.stepper.tick.1.trace.toList.take d.logged) ++
      if d.limitTold then [limitLine d.stepper.tick.1.limit] else []
    rw [htake, hlimit]
    exact h.log
  · -- at its limit a stepper stays where it is
    obtain ⟨hphase, hlogged⟩ := h.told htold
    have hsame : d.stepper.tick = (d.stepper, false) := if_pos (.inr hphase)
    show d.stepper.tick.1.phase = .limit ∧ d.logged = d.stepper.tick.1.steps
    rw [hsame]
    exact ⟨hphase, hlogged⟩

/-- A log that tells of everything is true. -/
theorem Logged.of_all (hsteps : d.logged = d.stepper.steps) (hlog : d.log.toList = logOf d.stepper)
    (htold : d.limitTold = true ↔ d.stepper.phase = .limit) : d.Logged := by
  have hall : d.stepper.trace.toList.take d.logged = d.stepper.trace.toList :=
    List.take_of_length_le (Nat.le_of_eq (Array.length_toList.trans hsteps.symm))
  refine ⟨Nat.le_of_eq hsteps, ?_, fun h => ⟨htold.mp h, hsteps⟩⟩
  rw [hlog, hall]
  unfold logOf
  simp only [htold]

/-! ## Showing everything -/

theorem showing_of_writable {numbers : List Int} (h : ∀ n ∈ numbers, Numeral.Writable n)
    (d : Debugger) (text : String) (put : String → Debugger) :
    d.showing (shownWith numbers text) put = (put text, .ok ()) := by
  unfold showing
  rw [shownWith_of_writable h]

theorem andThen_ok (d : Debugger) (next : Debugger → Result) :
    Result.andThen (d, .ok ()) next = next d :=
  rfl

theorem refreshProgram_of_writable
    (h : ∀ n ∈ d.stepper.program.toList.flatMap Instruction.numbers, Numeral.Writable n) :
    d.refreshProgram = ({ d with programPanel := d.programText }, .ok ()) :=
  showing_of_writable h _ _ _

theorem refreshRegisters_of_writable
    (h : ∀ n ∈ (d.stepper.limit : Int) :: d.stepper.state.toList, Numeral.Writable n) :
    d.refreshRegisters = ({ d with registerPanel := d.registerText }, .ok ()) :=
  showing_of_writable h _ _ _

theorem logSteps_of_writable {ts : List Step}
    (h : ∀ t ∈ ts, ∀ n ∈ t.numbers, Numeral.Writable n) (d : Debugger) :
    d.logSteps ts =
      ({ d with log := d.log ++ (stepLines ts).toArray, logged := d.logged + ts.length },
        .ok ()) := by
  induction ts generalizing d with
  | nil => simp [logSteps, stepLines]
  | cons t ts ih =>
    obtain ⟨ht, hts⟩ := List.forall_mem_cons.mp h
    have hline : t.writtenLine = .ok t.line := shownWith_of_writable ht t.line
    unfold logSteps
    rw [hline]
    dsimp only
    rw [ih hts]
    simp [stepLines, Nat.add_assoc, Nat.add_comm 1]

/-- A stale log is begun anew, and any other one goes on: either way it tells of no more steps than
there are. -/
theorem exists_clearStale (d : Debugger) :
    ∃ log logged told, d.clearStale = { d with log, logged, limitTold := told } ∧
      logged ≤ d.stepper.steps := by
  unfold clearStale
  by_cases hstale : d.logged > d.stepper.steps
  · exact ⟨#[], 0, false, if_pos hstale, Nat.zero_le _⟩
  · exact ⟨d.log, d.logged, d.limitTold, if_neg hstale, Nat.not_lt.mp hstale⟩

theorem stepper_clearStale (d : Debugger) : d.clearStale.stepper = d.stepper := by
  obtain ⟨log, logged, told, hclear, -⟩ := d.exists_clearStale
  rw [hclear]

theorem Logged.clearStale (h : d.logged ≤ d.stepper.steps → d.Logged) : d.clearStale.Logged := by
  unfold Debugger.clearStale
  by_cases hstale : d.logged > d.stepper.steps
  · rw [if_pos hstale]
    exact ⟨Nat.zero_le _, rfl, fun htold => by cases htold⟩
  · rw [if_neg hstale]
    exact h (Nat.not_lt.mp hstale)

/-- The line for a limit that has been met and is not told yet. -/
def limitNews (d : Debugger) : List String :=
  if d.stepper.phase = .limit ∧ !d.limitTold then [limitLine d.stepper.limit] else []

theorem tellLimit_of_writable (h : Numeral.Writable d.stepper.limit) :
    d.tellLimit =
      ({ d with
          log := d.log ++ d.limitNews.toArray
          limitTold := d.limitTold || d.stepper.phase = .limit }, .ok ()) := by
  unfold tellLimit limitNews
  by_cases hnew : d.stepper.phase = .limit ∧ !d.limitTold
  · rw [if_pos hnew, if_pos hnew, decide_eq_true hnew.1, Bool.or_true, ← Array.push_eq_append]
    exact showing_of_writable (List.forall_mem_singleton.mpr h) _ _ _
  · have htold : (d.limitTold || decide (d.stepper.phase = .limit)) = d.limitTold := by
      cases htold : d.limitTold with
      | true => rfl
      | false => exact decide_eq_false fun hphase => hnew ⟨hphase, by rw [htold]; rfl⟩
    rw [if_neg hnew, if_neg hnew, htold, Array.append_empty]

/-- The debugger with a log that has caught up with the stepper. -/
def caughtUp (d : Debugger) : Debugger :=
  { d with
    log := d.clearStale.log ++ (stepLines (d.stepper.trace.toList.drop d.clearStale.logged)).toArray
      ++ d.clearStale.limitNews.toArray
    logged := d.stepper.steps
    limitTold := d.clearStale.limitTold || d.stepper.phase = .limit }

theorem refreshLog_of_legible (hs : d.stepper.Legible) : d.refreshLog = (d.caughtUp, .ok ()) := by
  obtain ⟨log, logged, told, hclear, hle⟩ := d.exists_clearStale
  obtain ⟨-, hlimit, -, htrace⟩ := Stepper.legible_iff.mp hs
  let fresh : Debugger := { d with log, logged, limitTold := told }
  let news := d.stepper.trace.toList.drop logged
  have hcount : logged + news.length = d.stepper.steps := by
    have hlength : news.length = d.stepper.steps - logged := by
      rw [List.length_drop, Array.length_toList]
      rfl
    omega
  have hsteps := logSteps_of_writable
    (fun t (ht : t ∈ news) => htrace t (List.mem_of_mem_drop ht)) fresh
  unfold refreshLog caughtUp
  rw [hclear, ← hcount]
  show (fresh.logSteps news).andThen tellLimit = _
  rw [hsteps, andThen_ok]
  exact tellLimit_of_writable hlimit

/-- The debugger with panels that show it. -/
def shown (d : Debugger) : Debugger :=
  { d with programPanel := d.programText, registerPanel := d.registerText }.caughtUp

/-- Where every number can be written, everything is shown. -/
theorem refresh_of_legible (hrecorded : d.stepper.Recorded) (hs : d.stepper.Legible) :
    d.refresh = (d.shown, .ok ()) := by
  obtain ⟨hprogram, hlimit, -, -⟩ := Stepper.legible_iff.mp hs
  have hregisters : ∀ n ∈ (d.stepper.limit : Int) :: d.stepper.state.toList, Numeral.Writable n :=
    List.forall_mem_cons.mpr ⟨hlimit, State.forall_mem_toList.mpr (hrecorded.writable_state hs)⟩
  unfold refresh shown
  rw [refreshProgram_of_writable hprogram, andThen_ok,
    refreshRegisters_of_writable (d := { d with programPanel := d.programText }) hregisters,
    andThen_ok]
  exact refreshLog_of_legible hs

/-- A log that was true as far as it went tells of everything once it has caught up. -/
theorem log_caughtUp (h : d.logged ≤ d.stepper.steps → d.Logged) :
    d.caughtUp.log.toList = logOf d.stepper ∧
      (d.caughtUp.limitTold = true ↔ d.stepper.phase = .limit) := by
  have hlogged : d.clearStale.Logged := Logged.clearStale h
  have hlog := hlogged.log
  have htold := hlogged.told
  rw [stepper_clearStale] at hlog htold
  have hlines : stepLines (d.stepper.trace.toList.take d.clearStale.logged) ++
      stepLines (d.stepper.trace.toList.drop d.clearStale.logged) =
        stepLines d.stepper.trace.toList := by
    unfold stepLines
    rw [← List.map_append, List.take_append_drop]
  unfold caughtUp limitNews logOf
  simp only [Array.toList_append, hlog, stepper_clearStale, ← hlines]
  cases hcase : d.clearStale.limitTold with
  | true =>
    -- where the limit is told already, there is no news
    obtain ⟨hphase, hend⟩ := htold hcase
    have hnone : d.stepper.trace.toList.drop d.clearStale.logged = [] :=
      List.drop_of_length_le (Nat.le_of_eq (Array.length_toList.trans hend.symm))
    simp [hphase, hnone, stepLines]
  | false => simp

/-! ## Keeping the log -/

/-- What an action leaves for the next one: a stepper that has run its program so far, no jam, and a
log that is true as far as it goes. -/
structure Sound (d : Debugger) : Prop where
  valid : d.stepper.Valid
  limit_pos : 0 < d.stepper.limit
  jam : d.jam = none
  logged : d.Logged

/-- Showing everything leaves panels that show it. -/
theorem sound_shown (hvalid : d.stepper.Valid) (hlimit : 0 < d.stepper.limit)
    (hjam : d.jam = none) (hlogged : d.logged ≤ d.stepper.steps → d.Logged) :
    d.shown.Sound ∧ d.shown.Current := by
  let filled : Debugger :=
    { d with programPanel := d.programText, registerPanel := d.registerText }
  obtain ⟨hlog, htold⟩ := log_caughtUp (d := filled)
    fun h => ⟨h, (hlogged h).log, (hlogged h).told⟩
  exact ⟨⟨hvalid, hlimit, hjam, .of_all rfl hlog htold⟩, rfl, rfl, hlog⟩

namespace Sound

theorem tick (h : d.Sound) : { d with stepper := d.stepper.tick.1 }.Sound where
  valid := h.valid.tick
  limit_pos := by
    have hlimit : d.stepper.tick.1.limit = d.stepper.limit :=
      congrArg (fun task => task.2.1) d.stepper.task_tick
    show 0 < d.stepper.tick.1.limit
    rw [hlimit]
    exact h.limit_pos
  jam := h.jam
  logged := h.logged.tick

/-- Behind a new start the log is stale, unless there is nothing in it: the limit is told only
behind some step. -/
theorem logged_reset (h : d.Sound) (hle : d.logged ≤ 0) :
    { d with stepper := d.stepper.reset }.Logged := by
  have hnone : d.logged = 0 := Nat.le_zero.mp hle
  have hquiet : d.limitTold = false := by
    by_contra htold
    obtain ⟨hphase, hall⟩ := h.logged.told (eq_true_of_ne_false htold)
    have hfits := h.valid.phase
    rw [hphase] at hfits
    have hpc : d.stepper.pc = d.stepper.limit := hfits.1
    have hsteps := h.valid.steps_eq
    have hpos := h.limit_pos
    omega
  have hlog := h.logged.log
  rw [hnone, hquiet] at hlog
  refine ⟨hle, ?_, fun htold => ?_⟩
  · show d.log.toList = stepLines (([] : List Step).take d.logged) ++ if d.limitTold then _ else []
    rw [hnone, hquiet]
    exact hlog
  · rw [show d.limitTold = true from htold] at hquiet
    cases hquiet

end Sound

/-! ## Actions -/

theorem advance_of_jam (h : d.jam = none) :
    d.advance =
      let next := { d with stepper := d.stepper.tick.1 }
      (next, .ok (d.stepper.tick.2 && !next.atBreakpoint)) := by
  unfold advance
  rw [h]

theorem advance_of_jammed {message : String} (h : d.jam = some message) :
    d.advance = (d, .error (.jammed message)) := by
  unfold advance
  rw [h]

/-! ### Refused or not, showing leaves the stepper alone -/

theorem follows_andThen {r : Result} {next : Debugger → Result}
    (h : ∀ d, (next d).1.stepper.Follows d.stepper) :
    (r.andThen next).1.stepper.Follows r.1.stepper := by
  obtain ⟨d, a⟩ := r
  cases a with
  | ok u => exact h d
  | error f => exact .refl _

theorem follows_showing (d : Debugger) (text : Answer String) {put : String → Debugger}
    (h : ∀ s, (put s).stepper = d.stepper) :
    (d.showing text put).1.stepper.Follows d.stepper := by
  unfold showing
  cases text with
  | error f => exact .refl _
  | ok s =>
    show (put s).stepper.Follows d.stepper
    rw [h s]
    exact .refl _

theorem follows_logSteps (d : Debugger) (ts : List Step) :
    (d.logSteps ts).1.stepper.Follows d.stepper := by
  induction ts generalizing d with
  | nil => exact .refl _
  | cons t ts ih =>
    unfold logSteps
    cases t.writtenLine with
    | error f => exact .refl _
    | ok line => exact ih _

theorem follows_tellLimit (d : Debugger) : d.tellLimit.1.stepper.Follows d.stepper := by
  unfold tellLimit
  split
  · dsimp only
    exact follows_showing { d with limitTold := true } _ fun s => rfl
  · exact .refl _

theorem follows_refreshProgram (d : Debugger) :
    d.refreshProgram.1.stepper.Follows d.stepper := by
  unfold refreshProgram
  exact follows_showing d _ fun s => rfl

theorem follows_refreshRegisters (d : Debugger) :
    d.refreshRegisters.1.stepper.Follows d.stepper := by
  unfold refreshRegisters
  exact follows_showing d _ fun s => rfl

theorem follows_refreshLog (d : Debugger) : d.refreshLog.1.stepper.Follows d.stepper := by
  have hclear : d.clearStale.stepper = d.stepper := by
    unfold clearStale
    split <;> rfl
  have hsteps := follows_logSteps d.clearStale
    (d.clearStale.stepper.trace.toList.drop d.clearStale.logged)
  rw [hclear] at hsteps
  unfold refreshLog
  dsimp only
  rw [hclear]
  exact (follows_andThen follows_tellLimit).trans hsteps

theorem follows_refresh (d : Debugger) : d.refresh.1.stepper.Follows d.stepper := by
  unfold refresh
  exact (follows_andThen follows_refreshLog).trans
    ((follows_andThen follows_refreshRegisters).trans d.follows_refreshProgram)

theorem follows_settle (r : Result) : (settle r).1.stepper.Follows r.1.stepper := by
  obtain ⟨d, a⟩ := r
  cases a with
  | ok u => exact follows_refresh d
  | error f =>
    -- the end that a fault brings is no part of the task or of the record
    let ended : Debugger := { d with
      errors := d.errors.push f.message, stepper := { d.stepper with phase := .done } }
    have hended : ended.stepper.Follows d.stepper := ⟨rfl, List.prefix_rfl⟩
    exact (follows_andThen fun d => .refl _).trans (ended.follows_refresh.trans hended)

theorem follows_advance (d : Debugger) : d.advance.1.stepper.Follows d.stepper := by
  cases hjam : d.jam with
  | none =>
    rw [advance_of_jam hjam]
    exact .tick _
  | some message =>
    rw [advance_of_jammed hjam]
    exact .refl _

theorem follows_runFor (d : Debugger) (fuel ticks : Nat) :
    (d.runFor fuel ticks).1.stepper.Follows d.stepper := by
  induction fuel generalizing d ticks with
  | zero => exact .refl _
  | succ fuel ih =>
    have hadvance := d.follows_advance
    unfold runFor
    generalize d.advance = advanced at hadvance
    obtain ⟨next, f | _ | _⟩ := advanced
    · exact hadvance
    · exact hadvance
    · dsimp only
      split
      · exact (follows_andThen fun d => ih d (ticks + 1)).trans
          ((follows_refresh next).trans hadvance)
      · exact (ih next (ticks + 1)).trans hadvance

theorem follows_act_mount (d : Debugger) : (d.act .mount).1.stepper.Follows d.stepper := by
  refine (follows_andThen fun d => ?_).trans (follows_refresh d)
  split
  · exact (follows_settle _).trans (follows_runFor d _ _)
  · exact .refl _

theorem mem_withBreakpoint {p place : Int} {places : List Int} :
    p ∈ withBreakpoint place places ↔ p = place ∨ p ∈ places := by
  fun_induction withBreakpoint place places with
  | case1 => simp
  | case2 q rest hlt => simp
  | case3 rest => simp
  | case4 q rest hlt hne ih =>
    rw [List.mem_cons, ih, List.mem_cons]
    exact or_left_comm

theorem breakpoints_refreshProgram (d : Debugger) :
    d.refreshProgram.1.breakpoints = d.breakpoints := by
  unfold refreshProgram showing
  split <;> rfl

/-- The key for breakpoints takes the one at the next instruction away or sets one there, and leaves
all others. -/
theorem mem_breakpoints_toggle (d : Debugger) (place : Int) :
    place ∈ (d.act .toggle).1.breakpoints ↔
      if place = d.stepper.pc then (d.stepper.pc : Int) ∉ d.breakpoints
      else place ∈ d.breakpoints := by
  show place ∈ d.toggle.1.breakpoints ↔ _
  unfold toggle
  rw [breakpoints_refreshProgram]
  dsimp only
  by_cases hset : (d.stepper.pc : Int) ∈ d.breakpoints
  · rw [if_pos hset, List.mem_filter]
    split
    · next heq => simp [heq, hset]
    · next hne => simp [hne]
  · rw [if_neg hset, mem_withBreakpoint]
    split
    · next heq => simp [heq, hset]
    · next hne => simp [hne]

/-- Setting or clearing a breakpoint shows the program anew, and nothing else. -/
theorem act_toggle_of_legible (hs : (d.act .toggle).1.stepper.Legible) :
    ∃ breakpoints, d.act .toggle =
      ({ d with breakpoints, programPanel := { d with breakpoints }.programText }, .ok ()) := by
  obtain ⟨breakpoints, htoggle⟩ :
      ∃ breakpoints, d.act .toggle = { d with breakpoints }.refreshProgram := ⟨_, rfl⟩
  rw [htoggle] at hs
  let marked : Debugger := { d with breakpoints }
  have hlegible : marked.stepper.Legible := marked.follows_refreshProgram.legible hs
  obtain ⟨hprogram, -⟩ := Stepper.legible_iff.mp hlegible
  exact ⟨breakpoints, htoggle.trans (refreshProgram_of_writable (d := marked) hprogram)⟩

/-! ### What the parts of an action keep -/

/-- An action goes through and leaves such a debugger. -/
def Leaves (Q : Debugger → Prop) (r : Result) : Prop := ∃ d, r = (d, .ok ()) ∧ Q d

/-- Ticks keep `P`, and showing everything makes `Q` of it, also where a tick fails.  Only a jam makes
ticks fail. -/
structure Keeps (P Q : Debugger → Prop) : Prop where
  shown {d : Debugger} (h : Q d) : P d
  tick {d : Debugger} (h : P d) : P { d with stepper := d.stepper.tick.1 }
  refresh {d : Debugger} (h : P d) (hs : d.stepper.Legible) : Leaves Q d.refresh
  fault {d : Debugger} {message : String} (h : P d) (hjam : d.jam = some message)
    (hs : (d.tellFault (.jammed message)).1.stepper.Legible) :
    Leaves Q (d.tellFault (.jammed message))

/-- What a row of ticks comes to: it has kept `P`, and if it failed, then by a jam. -/
structure Ticked (P : Debugger → Prop) (r : Result) : Prop where
  kept : P r.1
  jammed {f : Fault} (h : r.2 = .error f) : ∃ message, r.1.jam = some message ∧ f = .jammed message

theorem Ticked.of_ok {P : Debugger → Prop} (h : P d) : Ticked P (d, .ok ()) :=
  ⟨h, fun hf => by cases hf⟩

theorem Ticked.of_jammed {P : Debugger → Prop} {message : String} (h : P d)
    (hjam : d.jam = some message) : Ticked P (d, .error (.jammed message)) :=
  ⟨h, fun hf => ⟨message, hjam, (Except.error.inj hf).symm⟩⟩

namespace Keeps

variable {P Q : Debugger → Prop}

theorem advanceFor (h : Keeps P Q) (hd : P d) (n : Nat) : Ticked P (d.advanceFor n) := by
  induction n generalizing d with
  | zero => exact .of_ok hd
  | succ n ih =>
    unfold Debugger.advanceFor
    cases hjam : d.jam with
    | some message =>
      rw [advance_of_jammed hjam]
      exact .of_jammed hd hjam
    | none =>
      let next : Debugger := { d with stepper := d.stepper.tick.1 }
      have hnext : P next := h.tick hd
      rw [advance_of_jam hjam]
      dsimp only
      cases d.stepper.tick.2 && !next.atBreakpoint with
      | true => exact ih hnext
      | false => exact .of_ok hnext

theorem runFor (h : Keeps P Q) (hd : P d) {fuel ticks : Nat}
    (hs : (d.runFor fuel ticks).1.stepper.Legible) : Ticked P (d.runFor fuel ticks) := by
  induction fuel generalizing d ticks with
  | zero => exact .of_ok hd
  | succ fuel ih =>
    unfold Debugger.runFor at hs ⊢
    cases hjam : d.jam with
    | some message =>
      rw [advance_of_jammed hjam]
      exact .of_jammed hd hjam
    | none =>
      let next : Debugger := { d with stepper := d.stepper.tick.1 }
      have hnext : P next := h.tick hd
      rw [advance_of_jam hjam] at hs ⊢
      dsimp only at hs ⊢
      cases hmore : d.stepper.tick.2 && !next.atBreakpoint with
      | false => exact .of_ok hnext
      | true =>
        rw [hmore] at hs
        dsimp only at hs ⊢
        by_cases hshow : (ticks + 1) % 500 = 0
        · rw [if_pos hshow] at hs ⊢
          -- what is shown on the way is part of what is reached
          have hfollows := (follows_andThen fun d => follows_runFor d fuel (ticks + 1)).trans
            (follows_refresh next)
          obtain ⟨shown, hrefresh, hshown⟩ := h.refresh hnext (hfollows.legible hs)
          rw [hrefresh, andThen_ok] at hs ⊢
          exact ih (h.shown hshown) hs
        · rw [if_neg hshow] at hs ⊢
          exact ih hnext hs

theorem settle (h : Keeps P Q) {r : Result} (hr : Ticked P r)
    (hs : (Debugger.settle r).1.stepper.Legible) : Leaves Q (Debugger.settle r) := by
  obtain ⟨hkept, hjammed⟩ := hr
  obtain ⟨d, u | f⟩ := r
  · obtain ⟨message, hjam, rfl⟩ := hjammed rfl
    exact h.fault hkept hjam hs
  · exact h.refresh hkept ((follows_refresh d).legible hs)

theorem steps (h : Keeps P Q) (hd : P d) {count : Nat}
    (hs : (d.act (.steps count)).1.stepper.Legible) : Leaves Q (d.act (.steps count)) :=
  h.settle (h.advanceFor hd count) hs

theorem run (h : Keeps P Q) (hd : P d) (hs : d.run.1.stepper.Legible) : Leaves Q d.run :=
  h.settle (h.runFor hd ((follows_settle _).legible hs)) hs

theorem mount (h : Keeps P Q) (hd : P d) (hs : (d.act .mount).1.stepper.Legible) :
    Leaves Q (d.act .mount) := by
  obtain ⟨shown, hrefresh, hshown⟩ := h.refresh hd (d.follows_act_mount.legible hs)
  unfold act at hs ⊢
  rw [hrefresh, andThen_ok] at hs ⊢
  dsimp only at hs ⊢
  split at hs
  · next hauto =>
    rw [if_pos hauto]
    exact h.run (h.shown hshown) hs
  · next hauto =>
    rw [if_neg hauto]
    exact ⟨shown, rfl, hshown⟩

end Keeps

/-! ### Keys -/

/-- A debugger that is fit for the next action, with panels that show it. -/
def Faithful (d : Debugger) : Prop := d.Sound ∧ d.Current

theorem Sound.keeps : Keeps Sound Faithful where
  shown h := h.1
  tick h := h.tick
  refresh h hs :=
    ⟨_, refresh_of_legible h.valid.recorded hs,
      sound_shown h.valid h.limit_pos h.jam fun _ => h.logged⟩
  fault h hjam := by
    rw [h.jam] at hjam
    cases hjam

theorem Sound.shows_mount (h : d.Sound) (hs : (d.act .mount).1.stepper.Legible) :
    Leaves Faithful (d.act .mount) :=
  keeps.mount h hs

/-- The actions that stand on a key. -/
def Action.IsKey : Action → Bool
  | .steps _ | .run | .toggle | .restart => true
  | .mount | .addBreakpoint _ | .jam _ => false

theorem Faithful.act (h : d.Faithful) {action : Action} (hkey : action.IsKey)
    (hs : (d.act action).1.stepper.Legible) : Leaves Faithful (d.act action) := by
  obtain ⟨hsound, hcurrent⟩ := h
  cases action with
  | steps count => exact Sound.keeps.steps hsound hs
  | run => exact Sound.keeps.run hsound hs
  | toggle =>
    obtain ⟨breakpoints, htoggle⟩ := act_toggle_of_legible hs
    refine ⟨_, htoggle, ?_, rfl, hcurrent.registers, hcurrent.log⟩
    exact ⟨hsound.valid, hsound.limit_pos, hsound.jam, hsound.logged.le, hsound.logged.log,
      hsound.logged.told⟩
  | restart =>
    let anew : Debugger := { d with stepper := d.stepper.reset }
    have hvalid : anew.stepper.Valid := d.stepper.valid_reset
    exact ⟨anew.shown, refresh_of_legible hvalid.recorded ((follows_refresh anew).legible hs),
      sound_shown hvalid hsound.limit_pos hsound.jam hsound.logged_reset⟩
  | mount => cases hkey
  | addBreakpoint place => cases hkey
  | jam message => cases hkey

/-! ## Rows of actions -/

/-- Actions in a row, up to one that is refused. -/
def actAll (d : Debugger) : List Action → Result
  | [] => (d, .ok ())
  | action :: rest => (d.act action).andThen (·.actAll rest)

theorem actAll_cons_of_ok {d' : Debugger} {action : Action} (h : d.act action = (d', .ok ()))
    (rest : List Action) : d.actAll (action :: rest) = d'.actAll rest := by
  show (d.act action).andThen (·.actAll rest) = _
  rw [h]
  rfl

theorem stepper_actAll_singleton (d : Debugger) (action : Action) :
    (d.actAll [action]).1.stepper = (d.act action).1.stepper := by
  show ((d.act action).andThen (·.actAll [])).1.stepper = _
  rcases d.act action with ⟨d', u | f⟩ <;> rfl

/-- What every part of a row leaves, the row leaves. -/
theorem leaves_row {α : Type} {one : Debugger → α → Result} {row : Debugger → List α → Result}
    (hnil : ∀ d, row d [] = (d, .ok ()))
    (hcons : ∀ d a rest, row d (a :: rest) = (one d a).andThen (row · rest))
    {Q : Debugger → Prop} {parts : List α}
    (hone : ∀ d, Q d → ∀ a ∈ parts, (one d a).1.stepper.Legible → Leaves Q (one d a)) (hd : Q d)
    (hs : ∀ before, before <+: parts → (row d before).1.stepper.Legible) :
    Leaves Q (row d parts) := by
  induction parts generalizing d with
  | nil => exact ⟨d, hnil d, hd⟩
  | cons a rest ih =>
    have hlegible : (one d a).1.stepper.Legible := by
      have hsingle := hs [a] ((List.prefix_cons_inj a).mpr List.nil_prefix)
      rw [hcons] at hsingle
      rcases hone' : one d a with ⟨d', u | f⟩
      · rw [hone'] at hsingle
        exact hsingle
      · rw [hone', andThen_ok, hnil] at hsingle
        exact hsingle
    obtain ⟨d', hgoes, hd'⟩ := hone d hd a List.mem_cons_self hlegible
    have hbehind (rest : List α) : row d (a :: rest) = row d' rest := by
      rw [hcons, hgoes, andThen_ok]
    rw [hbehind]
    refine ih (fun e he b hb => hone e he b (List.mem_cons_of_mem _ hb)) hd' fun before hbefore => ?_
    rw [← hbehind]
    exact hs _ ((List.prefix_cons_inj a).mpr hbefore)

theorem leaves_actAll {Q : Debugger → Prop} {actions : List Action}
    (hact : ∀ d, Q d → ∀ action ∈ actions, (d.act action).1.stepper.Legible →
      Leaves Q (d.act action)) (hd : Q d)
    (hs : ∀ before, before <+: actions → (d.actAll before).1.stepper.Legible) :
    Leaves Q (d.actAll actions) :=
  leaves_row (fun _ => rfl) (fun _ _ _ => rfl) hact hd hs

/-- Keys in a row leave panels that show the debugger. -/
theorem Sound.shows_actAll (h : d.Sound) (hcurrent : d.Current) (actions : List Action)
    (hkeys : ∀ action ∈ actions, action.IsKey)
    (hs : ∀ before, before <+: actions → (d.actAll before).1.stepper.Legible) :
    Leaves Faithful (d.actAll actions) :=
  leaves_actAll (fun _ hd action haction => hd.act (hkeys action haction)) ⟨h, hcurrent⟩ hs

/-- A debugger over a program, from its first state and with its limit. -/
def ofProgram (initial : State) (limit : Nat) (p : Program) (autoRun : Bool) : Debugger :=
  new ((Stepper.new initial limit).load p) autoRun

theorem sound_ofProgram (initial : State) {limit : Nat} (h : 1 ≤ limit) (p : Program)
    (autoRun : Bool) : (ofProgram initial limit p autoRun).Sound :=
  ⟨Stepper.valid_reset _, h, rfl, Nat.le_refl _, rfl, fun htold => by cases htold⟩

/-- Once a debugger is mounted, every key goes through and leaves panels that show the debugger as
it is then: its program with the breakpoints and the next instruction, and its registers with the
changes of the last step.  The log has a line for each step and one line for the limit if that has
been met.  All of this holds as long as the numbers that the debugger comes by can be written. -/
theorem current_actAll (initial : State) {limit : Nat} (hlimit : 1 ≤ limit) (p : Program)
    (autoRun : Bool) (actions : List Action) (hkeys : ∀ action ∈ actions, action.IsKey)
    (hwritable : ∀ before, before <+: .mount :: actions →
      ∀ n ∈ ((ofProgram initial limit p autoRun).actAll before).1.stepper.numbers,
        Numeral.Writable n) :
    ∀ before, before <+: actions →
      ∃ d, (ofProgram initial limit p autoRun).actAll (.mount :: before) = (d, .ok ()) ∧
        d.Current ∧ d.Exhibits := by
  intro before hbefore
  let start := ofProgram initial limit p autoRun
  have hsound : start.Sound := sound_ofProgram initial hlimit p autoRun
  have hmount := hwritable [.mount] ((List.prefix_cons_inj _).mpr List.nil_prefix)
  rw [stepper_actAll_singleton] at hmount
  obtain ⟨d, hact, hsound', hcurrent⟩ := hsound.shows_mount hmount
  have hbehind (rest : List Action) : start.actAll (.mount :: rest) = d.actAll rest :=
    actAll_cons_of_ok hact rest
  obtain ⟨d', hall, -, hshown⟩ := hsound'.shows_actAll hcurrent before
    (fun action haction => hkeys action (hbefore.subset haction)) fun rest hrest => by
      rw [← hbehind]
      exact hwritable _ ((List.prefix_cons_inj _).mpr (hrest.trans hbefore))
  exact ⟨d', (hbehind before).trans hall, hshown, hshown.exhibits⟩

/-- The limit is met, and met again after a new start. -/
theorem current_actAll_zayin :
    let start := ofProgram State.zero 1 [⟨.zayin, .plain, 0⟩, ⟨.zayin, .plain, 0⟩] false
    ∃ d, start.actAll [.mount, .steps 10, .steps 1, .restart, .run, .toggle] = (d, .ok ()) ∧
      d.Current ∧ d.Exhibits ∧ d.stepper.phase = .limit := by
  intro start
  let keys : List Action := [.steps 10, .steps 1, .restart, .run, .toggle]
  have hwritable : ∀ before ∈ (.mount :: keys).inits, (start.actAll before).1.stepper.Legible := by
    decide +kernel
  obtain ⟨d, hall, hshown⟩ := current_actAll State.zero (Nat.le_refl 1)
    [⟨.zayin, .plain, 0⟩, ⟨.zayin, .plain, 0⟩] false keys (by decide)
    (fun before hbefore => hwritable before ((List.mem_inits _ _).mpr hbefore)) keys List.prefix_rfl
  have hphase : (start.actAll (.mount :: keys)).1.stepper.phase = .limit := by decide +kernel
  have hreached : start.actAll (.mount :: keys) = (d, .ok ()) := hall
  rw [hreached] at hphase
  exact ⟨d, hall, hshown.1, hshown.2, hphase⟩

end Debugger

end LetterMachine
