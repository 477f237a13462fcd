import LetterMachine.Proofs.Panels

/-!
# Starting over

A new start is told from the log by its count of steps: a log that counts more steps than there are
is emptied.  A log without a step is no different from before, and so it stays, with the limit or
the faults that it tells of.
-/

namespace LetterMachine

namespace Debugger

variable {d : Debugger}

/-! ## Actions with faults -/

/-- An action, and the fault of its first tick if there is one.  Where a later tick of a row fails,
the ticks before it are a row of their own. -/
structure Event where
  fault : Option String
  action : Action

def perform (d : Debugger) (e : Event) : Result := { d with jam := e.fault }.act e.action

/-- Actions in a row, up to one that is refused. -/
def performAll (d : Debugger) : List Event → Result
  | [] => (d, .ok ())
  | e :: rest => (d.perform e).andThen (·.performAll rest)

/-! ## What the log tells -/

/-- Without steps and away from the limit there is nothing to add to a log. -/
theorem log_caughtUp_of_no_steps (hsteps : d.stepper.steps = 0) (hphase : d.stepper.phase ≠ .limit) :
    d.caughtUp.log = d.clearStale.log := by
  have htrace : d.stepper.trace = #[] := Array.size_eq_zero_iff.mp hsteps
  unfold caughtUp limitNews
  rw [stepper_clearStale, htrace, if_neg fun hnew => hphase hnew.1, List.drop_nil]
  show d.clearStale.log ++ #[] ++ #[] = _
  rw [Array.append_empty, Array.append_empty]

theorem log_shown_reset (d : Debugger) :
    { d with stepper := d.stepper.reset }.shown.log = if 0 < d.logged then #[] else d.log := by
  refine (log_caughtUp_of_no_steps rfl (fun hphase => by cases hphase)).trans ?_
  unfold clearStale
  show (if 0 < d.logged then _ else _ : Debugger).log = _
  split <;> rfl

theorem limitLine_mem_limitNews (hphase : d.stepper.phase = .limit) (htold : d.limitTold = false) :
    limitLine d.stepper.limit ∈ d.limitNews := by
  unfold limitNews
  rw [if_pos ⟨hphase, by rw [htold]; rfl⟩]
  exact List.mem_singleton_self _

/-- What is true of the log between the parts of an action: a limit that is flagged is told, and as
long as there has been no fault and the limit is not at the beginning, a log that tells of no step is
empty. -/
structure Tells (initial : State) (limit : Nat) (p : Program) (d : Debugger) : Prop where
  task : d.stepper.task = (initial, limit, p.toArray)
  recorded : d.stepper.Recorded
  told : d.limitTold = true → limitLine limit ∈ d.log.toList
  faultless : d.errors = #[] → d.stepper.Valid ∧ (0 < limit → d.logged = 0 → d.log = #[])

/-- What is true of the log once everything has been shown: it has all the steps, and the limit if
that has been met. -/
structure TellsAll (initial : State) (limit : Nat) (p : Program) (d : Debugger) : Prop
    extends Tells initial limit p d where
  logged : d.logged = d.stepper.steps
  limitTold : d.stepper.phase = .limit → d.limitTold = true

variable {initial : State} {limit : Nat} {p : Program}

namespace Tells

theorem limit_eq (h : Tells initial limit p d) : d.stepper.limit = limit :=
  congrArg (fun task => task.2.1) h.task

theorem tick (h : Tells initial limit p d) :
    Tells initial limit p { d with stepper := d.stepper.tick.1 } where
  task := d.stepper.task_tick.trans h.task
  recorded := h.recorded.tick
  told := h.told
  faultless hnone := ⟨(h.faultless hnone).1.tick, (h.faultless hnone).2⟩

/-- Whatever the place and the phase, a new start keeps it. -/
theorem reset (h : Tells initial limit p d) :
    Tells initial limit p { d with stepper := d.stepper.reset } where
  task := h.task
  recorded := d.stepper.valid_reset.recorded
  told := h.told
  faultless hnone := ⟨d.stepper.valid_reset, (h.faultless hnone).2⟩

theorem clearStale (h : Tells initial limit p d) : Tells initial limit p d.clearStale := by
  unfold Debugger.clearStale
  by_cases hstale : d.logged > d.stepper.steps
  · rw [if_pos hstale]
    exact ⟨h.task, h.recorded, nofun, fun hnone => ⟨(h.faultless hnone).1, fun _ _ => rfl⟩⟩
  · rw [if_neg hstale]
    exact h

theorem phase_ne_limit (h : Tells initial limit p d) (hnone : d.errors = #[]) (hpos : 0 < limit)
    (hsteps : d.stepper.steps = 0) : d.stepper.phase ≠ .limit := by
  intro hlimit
  have hvalid := (h.faultless hnone).1
  have hpc : d.stepper.pc = d.stepper.limit := (hvalid.phase.of_eq hlimit).1
  rw [hvalid.steps_eq, hpc, h.limit_eq] at hsteps
  omega

/-- A log that has caught up tells everything. -/
theorem caughtUp (h : Tells initial limit p d) : TellsAll initial limit p d.caughtUp where
  task := h.task
  recorded := h.recorded
  told htold := by
    have hmem : limitLine limit ∈ d.clearStale.log.toList ∨
        limitLine limit ∈ d.clearStale.limitNews := by
      cases hbefore : d.clearStale.limitTold with
      | true => exact .inl (h.clearStale.told hbefore)
      | false =>
        have hphase : d.stepper.phase = .limit := by
          have hflag : (d.clearStale.limitTold || decide (d.stepper.phase = .limit)) = true := htold
          rw [hbefore, Bool.false_or] at hflag
          exact of_decide_eq_true hflag
        rw [← d.stepper_clearStale] at hphase
        exact .inr (h.clearStale.limit_eq ▸ limitLine_mem_limitNews hphase hbefore)
    unfold Debugger.caughtUp
    simp only [Array.toList_append, List.mem_append]
    exact hmem.imp .inl id
  faultless hnone := by
    refine ⟨(h.faultless hnone).1, fun hpos hsteps => ?_⟩
    obtain ⟨log, logged, told, hclear, hle⟩ := d.exists_clearStale
    have hfresh := h.clearStale
    rw [log_caughtUp_of_no_steps hsteps (h.phase_ne_limit hnone hpos hsteps), hclear]
    rw [hclear] at hfresh
    have hlogged : logged = 0 := Nat.le_zero.mp (Nat.le_trans hle (Nat.le_of_eq hsteps))
    exact (hfresh.faultless hnone).2 hpos hlogged
  logged := rfl
  limitTold hphase :=
    (Bool.or_eq_true _ _).mpr (.inr (decide_eq_true hphase))

theorem shown (h : Tells initial limit p d) : TellsAll initial limit p d.shown :=
  Tells.caughtUp ⟨h.task, h.recorded, h.told, h.faultless⟩

/-- A fault is told behind everything else. -/
theorem leaves_tellFault (h : Tells initial limit p d) {f : Fault}
    (hs : (d.tellFault f).1.stepper.Legible) :
    Leaves (TellsAll initial limit p) (d.tellFault f) := by
  let ended : Debugger := { d with
    errors := d.errors.push f.message, stepper := { d.stepper with phase := .done } }
  let line := styled "red" ("\\[ERROR] " ++ unstyled f.message)
  have hfault : ended.errors ≠ #[] := Array.push_ne_empty
  have hended : Tells initial limit p ended :=
    ⟨h.task, ⟨h.recorded.state, h.recorded.trace⟩, h.told, fun hnone => absurd hnone hfault⟩
  have hlegible : ended.stepper.Legible :=
    ((follows_andThen fun d => .refl _).trans ended.follows_refresh).legible hs
  have htell : d.tellFault f =
      ({ ended.shown with log := ended.shown.log.push line }, .ok ()) :=
    congrArg (Result.andThen · fun d => ({ d with log := d.log.push line }, .ok ()))
      (refresh_of_legible hended.recorded hlegible)
  have hall := hended.shown
  refine ⟨_, htell, ⟨hall.task, hall.recorded, fun htold => ?_, fun hnone => absurd hnone hfault⟩,
    hall.logged, hall.limitTold⟩
  rw [Array.toList_push]
  exact List.mem_append_left _ (hall.told htold)

theorem keeps : Keeps (Tells initial limit p) (TellsAll initial limit p) where
  shown h := h.toTells
  tick h := h.tick
  refresh h hs := ⟨_, refresh_of_legible h.recorded hs, h.shown⟩
  fault h _ hs := h.leaves_tellFault hs

end Tells

namespace TellsAll

theorem act (h : TellsAll initial limit p d) (action : Action)
    (hs : (d.act action).1.stepper.Legible) :
    Leaves (TellsAll initial limit p) (d.act action) := by
  have hwith (breakpoints : List Int) (jam : Option String) (programPanel : String) :
      TellsAll initial limit p { d with breakpoints, jam, programPanel } :=
    ⟨⟨h.task, h.recorded, h.told, h.faultless⟩, h.logged, h.limitTold⟩
  cases action with
  | mount => exact Tells.keeps.mount h.toTells hs
  | steps count => exact Tells.keeps.steps h.toTells hs
  | run => exact Tells.keeps.run h.toTells hs
  | toggle =>
    obtain ⟨breakpoints, htoggle⟩ := act_toggle_of_legible hs
    exact ⟨_, htoggle, hwith _ _ _⟩
  | restart =>
    let anew : Debugger := { d with stepper := d.stepper.reset }
    exact Tells.keeps.refresh h.toTells.reset ((follows_refresh anew).legible hs)
  | addBreakpoint place => exact ⟨_, rfl, hwith _ _ _⟩
  | jam message => exact ⟨_, rfl, hwith _ _ _⟩

theorem performAll (h : TellsAll initial limit p d) {history : List Event}
    (hs : ∀ before, before <+: history → (d.performAll before).1.stepper.Legible) :
    Leaves (TellsAll initial limit p) (d.performAll history) := by
  refine leaves_row (fun _ => rfl) (fun _ _ _ => rfl) (fun d hd e _ hlegible => ?_) h hs
  have hjammed : TellsAll initial limit p { d with jam := e.fault } :=
    ⟨⟨hd.task, hd.recorded, hd.told, hd.faultless⟩, hd.logged, hd.limitTold⟩
  exact hjammed.act e.action hlegible

end TellsAll

/-! ## A new start -/

/-- A new start empties the log and brings the stepper back to its beginning; and whatever comes
behind it, a limit that is met is told. -/
def StartsOver (d : Debugger) : Prop :=
  ∃ d', d.act .restart = (d', .ok ()) ∧ d'.log = #[] ∧ d'.stepper = d.stepper.reset ∧
    ∀ history, (∀ before, before <+: history → (d'.performAll before).1.stepper.Legible) →
      ∃ e, d'.performAll history = (e, .ok ()) ∧
        (e.stepper.phase = .limit → limitLine e.stepper.limit ∈ e.log.toList)

theorem tellsAll_ofProgram (initial : State) (limit : Nat) (p : Program) (autoRun : Bool) :
    TellsAll initial limit p (ofProgram initial limit p autoRun) where
  task := rfl
  recorded := (Stepper.valid_reset _).recorded
  told := nofun
  faultless _ := ⟨Stepper.valid_reset _, fun _ _ => rfl⟩
  logged := rfl
  limitTold := nofun

theorem legible_reset {s : Stepper} (hs : s.Legible) : s.reset.Legible := by
  obtain ⟨hprogram, hlimit, hinitial, -⟩ := Stepper.legible_iff.mp hs
  exact Stepper.legible_iff.mpr ⟨hprogram, hlimit, hinitial, fun t ht => by cases ht⟩

namespace TellsAll

/-- What a new start leaves of the log. -/
theorem restart (h : TellsAll initial limit p d) (hs : d.stepper.Legible) :
    ∃ d', d.act .restart = (d', .ok ()) ∧ d'.stepper = d.stepper.reset ∧
      d'.log = (if 0 < d.stepper.steps then #[] else d.log) ∧ TellsAll initial limit p d' := by
  have hreset : Tells initial limit p { d with stepper := d.stepper.reset } := h.toTells.reset
  refine ⟨_, refresh_of_legible hreset.recorded (legible_reset hs), rfl, ?_, hreset.shown⟩
  rw [← h.logged]
  exact log_shown_reset d

/-- A new start starts over exactly if it empties the log. -/
theorem startsOver_iff_log (h : TellsAll initial limit p d) (hs : d.stepper.Legible) :
    d.StartsOver ↔ 0 < d.stepper.steps ∨ d.log = #[] := by
  obtain ⟨d', hrestart, hstepper, hlog, hall⟩ := h.restart hs
  have hempty : d'.log = #[] ↔ 0 < d.stepper.steps ∨ d.log = #[] := by
    rw [hlog]
    by_cases hsteps : 0 < d.stepper.steps
    · rw [if_pos hsteps]
      exact iff_of_true rfl (.inl hsteps)
    · rw [if_neg hsteps]
      exact (or_iff_right hsteps).symm
  rw [← hempty]
  constructor
  · rintro ⟨e, hrestart', hempty', -⟩
    obtain rfl := (Prod.mk.inj (hrestart.symm.trans hrestart')).1
    exact hempty'
  · refine fun hempty' => ⟨d', hrestart, hempty', hstepper, fun history hlegible => ?_⟩
    obtain ⟨e, hhistory, he⟩ := hall.performAll hlegible
    refine ⟨e, hhistory, fun hphase => ?_⟩
    rw [he.limit_eq]
    exact he.told (he.limitTold hphase)

end TellsAll

/-- Whatever has been done before, with faults or without, a new start brings the stepper back to
its beginning.  It empties the log if there was a step, and leaves it as it was if there was none;
so it starts over exactly if there was a step or nothing in the log, which is so whenever no fault
has been told and the limit is not at the beginning. -/
theorem startsOver_iff (initial : State) (limit : Nat) (p : Program) (autoRun : Bool)
    (history : List Event)
    (hwritable : ∀ before, before <+: history →
      ((ofProgram initial limit p autoRun).performAll before).1.stepper.Legible) :
    ∃ d d', (ofProgram initial limit p autoRun).performAll history = (d, .ok ()) ∧
      d.act .restart = (d', .ok ()) ∧ d'.stepper = (Stepper.new initial limit).load p ∧
      d'.log = (if 0 < d.stepper.steps then #[] else d.log) ∧
      (d.StartsOver ↔ 0 < d.stepper.steps ∨ d.log = #[]) ∧
      (0 < limit → d.errors = #[] → d.StartsOver) := by
  obtain ⟨d, hhistory, hall⟩ := (tellsAll_ofProgram initial limit p autoRun).performAll hwritable
  have hs : d.stepper.Legible := by
    have hreached := hwritable history List.prefix_rfl
    rw [hhistory] at hreached
    exact hreached
  obtain ⟨d', hrestart, hstepper, hlog, -⟩ := hall.restart hs
  have hiff := hall.startsOver_iff_log hs
  have hbeginning : d.stepper.reset = (Stepper.new initial limit).load p := by
    obtain ⟨hinitial, hrest⟩ := Prod.mk.inj hall.task
    obtain ⟨hlimit, hprogram⟩ := Prod.mk.inj hrest
    show (⟨d.stepper.initial, d.stepper.limit, d.stepper.program, d.stepper.initial, #[], 0, .idle⟩ :
      Stepper) = _
    rw [hinitial, hlimit, hprogram]
    rfl
  refine ⟨d, d', hhistory, hrestart, hstepper.trans hbeginning, hlog, hiff, ?_⟩
  intro hpos hnone
  rw [hiff]
  rcases Nat.eq_zero_or_pos d.stepper.steps with hzero | hsteps
  · exact .inr ((hall.faultless hnone).2 hpos (hall.logged.trans hzero))
  · exact .inl hsteps

/-- A fault behind one step, under a limit of one: the new start empties the log. -/
theorem startsOver_iff_zayin :
    let start := ofProgram State.zero 1 [⟨.zayin, .plain, 0⟩, ⟨.zayin, .plain, 0⟩] false
    ∃ d d', start.performAll [⟨none, .mount⟩, ⟨none, .steps 1⟩, ⟨some "stuck", .run⟩] = (d, .ok ()) ∧
      d.log ≠ #[] ∧ d.act .restart = (d', .ok ()) ∧ d'.log = #[] ∧ d.StartsOver := by
  intro start
  let history : List Event := [⟨none, .mount⟩, ⟨none, .steps 1⟩, ⟨some "stuck", .run⟩]
  have hwritable : ∀ before ∈ history.inits, (start.performAll before).1.stepper.Legible := by
    decide +kernel
  obtain ⟨d, d', hhistory, hrestart, -, hlog, hiff, -⟩ := startsOver_iff State.zero 1
    [⟨.zayin, .plain, 0⟩, ⟨.zayin, .plain, 0⟩] false history
    fun before hbefore => hwritable before ((List.mem_inits _ _).mpr hbefore)
  have hreached : d = (start.performAll history).1 := (congrArg Prod.fst hhistory).symm
  have hplace : 0 < d.stepper.steps ∧ d.log ≠ #[] := by
    rw [hreached]
    decide +kernel
  rw [if_pos hplace.1] at hlog
  exact ⟨d, d', hhistory, hplace.2, hrestart, hlog, hiff.mpr (.inl hplace.1)⟩

/-- A limit of zero is told without a step, and a new start leaves it in the log. -/
theorem not_forall_startsOver :
    ¬ ∀ (initial : State) (limit : Nat) (p : Program) (autoRun : Bool) (history : List Event),
      (∀ before, before <+: history →
        ((ofProgram initial limit p autoRun).performAll before).1.stepper.Legible) →
      ∃ d, (ofProgram initial limit p autoRun).performAll history = (d, .ok ()) ∧
        d.StartsOver := by
  intro h
  let start := ofProgram State.zero 0 [⟨.zayin, .plain, 0⟩] false
  let history : List Event := [⟨none, .mount⟩, ⟨none, .run⟩]
  have hwritable : ∀ before ∈ history.inits, (start.performAll before).1.stepper.Legible := by
    decide +kernel
  obtain ⟨d, hhistory, d', hrestart, hempty, -⟩ := h State.zero 0 [⟨.zayin, .plain, 0⟩] false history
    fun before hbefore => hwritable before ((List.mem_inits _ _).mpr hbefore)
  have hkept : ((start.performAll history).1.act .restart).1.log ≠ #[] := by
    decide +kernel
  have hreached : d = (start.performAll history).1 := (congrArg Prod.fst hhistory).symm
  rw [← hreached, hrestart] at hkept
  exact hkept hempty

/-- Nor is it told again. -/
example :
    let start := ofProgram State.zero 0 [⟨.zayin, .plain, 0⟩] false
    (start.actAll [.mount, .run, .restart, .run]).1.log =
      #["[red]Step limit of 0 reached[/red]"] := by
  decide +kernel

end Debugger

end LetterMachine
