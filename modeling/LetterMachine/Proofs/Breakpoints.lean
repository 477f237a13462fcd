import LetterMachine.Proofs.Panels

/-!
# Where ticks come to rest

A row of ticks goes on one place at a time, and three things end it: the end of the program, the
limit, and a breakpoint ahead.  Whichever of them is nearest, no tick goes past it, and none stops
short of it.  So the place alone tells how far the program has been applied.
-/

namespace LetterMachine

/-- A stepper that is neither at its end nor at its limit. -/
def Stepper.UnderWay (s : Stepper) : Prop := s.phase = .idle ∨ s.phase = .running

/-- Anywhere but at the beginning, a phase tells whether this is the end. -/
theorem Stepper.Valid.done_iff {s : Stepper} (h : s.Valid) (hmoved : s.phase ≠ .idle) :
    s.phase = .done ↔ s.pc = s.program.size := by
  have hfits := h.phase
  cases hphase : s.phase with
  | idle => exact absurd hphase hmoved
  | running =>
    rw [hphase] at hfits
    exact iff_of_false (by decide) (Nat.ne_of_lt hfits.2)
  | done =>
    rw [hphase] at hfits
    exact iff_of_true rfl hfits
  | limit =>
    rw [hphase] at hfits
    obtain ⟨hpc, hlimit⟩ := hfits
    exact iff_of_false (by decide) (Nat.ne_of_lt (hpc ▸ hlimit))

namespace Debugger

variable {d : Debugger}

/-! ## Stops -/

/-- The places at which ticks may come to rest: the end of the program, the limit, and the
breakpoints ahead. -/
def stops (d : Debugger) : List Int :=
  (d.stepper.program.size : Int) :: (d.stepper.limit : Int) ::
    d.breakpoints.filter ((d.stepper.pc : Int) < ·)

theorem forall_mem_stops {P : Int → Prop} :
    (∀ b ∈ d.stops, P b) ↔ P d.stepper.program.size ∧ P d.stepper.limit ∧
      ∀ b ∈ d.breakpoints, (d.stepper.pc : Int) < b → P b := by
  unfold stops
  simp only [List.forall_mem_cons, List.mem_filter, decide_eq_true_eq, and_imp]

/-- A place without a breakpoint has the same stops ahead as the place before it. -/
theorem stops_of_no_breakpoint {next : Debugger} (htask : next.stepper.task = d.stepper.task)
    (hbreakpoints : next.breakpoints = d.breakpoints) (hpc : next.stepper.pc = d.stepper.pc + 1)
    (hat : next.atBreakpoint = false) : next.stops = d.stops := by
  obtain ⟨-, hrest⟩ := Prod.mk.inj htask
  obtain ⟨hlimit, hprogram⟩ := Prod.mk.inj hrest
  have hfilter : next.breakpoints.filter ((next.stepper.pc : Int) < ·) =
      next.breakpoints.filter ((d.stepper.pc : Int) < ·) := by
    refine List.filter_congr fun b hb => decide_eq_decide.mpr ?_
    have hne : (next.stepper.pc : Int) ≠ b := fun heq => of_decide_eq_false hat (heq ▸ hb)
    omega
  unfold stops
  rw [hprogram, hlimit, hfilter, hbreakpoints]

/-- Ticks have come to rest at the nearest of these stops. -/
structure RestsAt (stops : List Int) (s : Stepper) : Prop where
  moved : s.phase ≠ .idle
  pc : stops.min? = some (s.pc : Int)

/-! ## One tick -/

/-- A tick goes on by one place, with the same stops ahead. -/
structure GoesOn (d next : Debugger) : Prop where
  advance : d.advance = (next, .ok true)
  phase : next.stepper.phase = .running
  pc : next.stepper.pc = d.stepper.pc + 1
  stops : next.stops = d.stops
  near : ∀ b ∈ d.stops, (next.stepper.pc : Int) ≤ b

/-- A tick comes to rest, here or at the next place. -/
structure ComesToRest (d next : Debugger) : Prop where
  advance : d.advance = (next, .ok false)
  le : next.stepper.pc ≤ d.stepper.pc + 1
  rests : RestsAt d.stops next.stepper

theorem comesToRest_of_blocked {phase : Phase} (hvalid : d.stepper.Valid) (hjam : d.jam = none)
    (htick : d.stepper.tick = ({ d.stepper with phase }, false)) (hphase : phase ≠ .idle)
    (hmem : (d.stepper.pc : Int) ∈ d.stops) :
    ComesToRest d { d with stepper := { d.stepper with phase } } := by
  have hsize := hvalid.pc_le_size
  have hlimit := hvalid.pc_le_limit
  have hahead : ∀ b ∈ d.stops, (d.stepper.pc : Int) ≤ b :=
    forall_mem_stops.mpr ⟨by omega, by omega, fun b _ hb => Int.le_of_lt hb⟩
  refine ⟨?_, Nat.le_succ _, hphase, List.min?_eq_some_iff.mpr ⟨hmem, hahead⟩⟩
  rw [advance_of_jam hjam, htick]
  rfl

/-- With an instruction applied, what is ahead decides: another instruction and no breakpoint before
it, or a stop. -/
theorem advance_of_applied {next : Debugger} (hnext : next = { d with stepper := d.stepper.tick.1 })
    (hjam : d.jam = none) (hlt : d.stepper.pc < d.stepper.program.size)
    (hle : d.stepper.pc < d.stepper.limit) (hpc : next.stepper.pc = d.stepper.pc + 1)
    (hphase : next.stepper.phase =
      if d.stepper.pc + 1 < d.stepper.program.size then .running else .done)
    (hmore : d.stepper.tick.2 = decide (d.stepper.pc + 1 < d.stepper.program.size)) :
    GoesOn d next ∨ ComesToRest d next := by
  have hadvance : d.advance = (next, .ok (d.stepper.tick.2 && !next.atBreakpoint)) := by
    rw [hnext]
    exact advance_of_jam hjam
  have hbreakpoints : next.breakpoints = d.breakpoints := by rw [hnext]
  have hnear : ∀ b ∈ d.stops, (next.stepper.pc : Int) ≤ b :=
    forall_mem_stops.mpr ⟨by omega, by omega, fun b _ hb => by omega⟩
  have hmoved : next.stepper.phase ≠ .idle := by
    rw [hphase]
    split <;> decide
  rw [hmore] at hadvance
  by_cases hlast : d.stepper.pc + 1 < d.stepper.program.size
  · rw [decide_eq_true hlast, Bool.true_and] at hadvance
    cases hat : next.atBreakpoint with
    | true =>
      have hmem : (next.stepper.pc : Int) ∈ d.breakpoints.filter ((d.stepper.pc : Int) < ·) :=
        List.mem_filter.mpr ⟨hbreakpoints ▸ of_decide_eq_true hat, decide_eq_true (by omega)⟩
      rw [hat] at hadvance
      exact .inr ⟨hadvance, Nat.le_of_eq hpc, hmoved, List.min?_eq_some_iff.mpr
        ⟨List.mem_cons_of_mem _ (List.mem_cons_of_mem _ hmem), hnear⟩⟩
    | false =>
      have htask : next.stepper.task = d.stepper.task := by
        rw [hnext]
        exact d.stepper.task_tick
      rw [hat] at hadvance
      exact .inl ⟨hadvance, hphase.trans (if_pos hlast), hpc,
        stops_of_no_breakpoint htask hbreakpoints hpc hat, hnear⟩
  · have hend : next.stepper.pc = d.stepper.program.size := by omega
    have hmem : (next.stepper.pc : Int) ∈ d.stops := by
      rw [hend]
      exact List.mem_cons_self
    rw [decide_eq_false hlast, Bool.false_and] at hadvance
    exact .inr ⟨hadvance, Nat.le_of_eq hpc, hmoved, List.min?_eq_some_iff.mpr ⟨hmem, hnear⟩⟩

theorem advance_cases (hvalid : d.stepper.Valid) (hjam : d.jam = none)
    (hway : d.stepper.UnderWay) {next : Debugger}
    (hnext : next = { d with stepper := d.stepper.tick.1 }) :
    GoesOn d next ∨ ComesToRest d next := by
  rcases d.stepper.tick_cases with ⟨hended, -⟩ | ⟨hpc, htick⟩ | ⟨-, hsteps, htick⟩ |
    ⟨i, hi, hsteps, htick⟩
  · rcases hway with hway | hway <;> rw [hway] at hended <;> simp at hended
  · -- the end had been reached before
    have hend : d.stepper.pc = d.stepper.program.size := Nat.le_antisymm hvalid.pc_le_size hpc
    have hmem : (d.stepper.pc : Int) ∈ d.stops := by
      rw [hend]
      exact List.mem_cons_self
    rw [hnext, htick]
    exact .inr (comesToRest_of_blocked hvalid hjam htick (by decide) hmem)
  · -- the limit had been reached before
    rw [hvalid.steps_eq] at hsteps
    have hend : d.stepper.pc = d.stepper.limit := Nat.le_antisymm hvalid.pc_le_limit hsteps
    have hmem : (d.stepper.pc : Int) ∈ d.stops := by
      rw [hend]
      exact List.mem_cons_of_mem _ List.mem_cons_self
    rw [hnext, htick]
    exact .inr (comesToRest_of_blocked hvalid hjam htick (by decide) hmem)
  · rw [hvalid.steps_eq] at hsteps
    exact advance_of_applied hnext hjam (Array.getElem?_eq_some_iff.mp hi).1 hsteps
      (by rw [hnext, htick]) (by rw [hnext, htick]) (by rw [htick])

/-! ## Rows of ticks -/

theorem rests_advanceFor (hvalid : d.stepper.Valid) (hjam : d.jam = none)
    (hway : d.stepper.UnderWay) {n : Nat} (hn : 0 < n) :
    ∃ d', d.advanceFor n = (d', .ok ()) ∧
      RestsAt (((d.stepper.pc + n : Nat) : Int) :: d.stops) d'.stepper := by
  induction n generalizing d with
  | zero => exact absurd hn (Nat.lt_irrefl 0)
  | succ n ih =>
    let next : Debugger := { d with stepper := d.stepper.tick.1 }
    unfold advanceFor
    rcases advance_cases hvalid hjam hway (rfl : next = _) with hgoes | hrest
    · rw [hgoes.advance]
      dsimp only
      rcases Nat.eq_zero_or_pos n with rfl | hpos
      · refine ⟨next, rfl, by rw [hgoes.phase]; decide, List.min?_eq_some_iff.mpr ⟨?_, ?_⟩⟩
        · rw [hgoes.pc]
          exact List.mem_cons_self
        · exact List.forall_mem_cons.mpr ⟨Int.ofNat_le.mpr (Nat.le_of_eq hgoes.pc), hgoes.near⟩
      · have hrests := ih (d := next) hvalid.tick hjam (.inr hgoes.phase) hpos
        rw [hgoes.pc, hgoes.stops] at hrests
        rw [show d.stepper.pc + (n + 1) = d.stepper.pc + 1 + n by omega]
        exact hrests
    · rw [hrest.advance]
      dsimp only
      -- the place that the row asks for is not before the next one
      obtain ⟨hmem, hnear⟩ := List.min?_eq_some_iff.mp hrest.rests.pc
      have hle := hrest.le
      refine ⟨next, rfl, hrest.rests.moved,
        List.min?_eq_some_iff.mpr ⟨List.mem_cons_of_mem _ hmem, ?_⟩⟩
      exact List.forall_mem_cons.mpr ⟨by omega, hnear⟩

/-- A run has a tick for every instruction left, and one more to see that none is. -/
theorem rests_runFor (hvalid : d.stepper.Valid) (hjam : d.jam = none) (hway : d.stepper.UnderWay)
    {fuel ticks : Nat} (hfuel : d.stepper.program.size - d.stepper.pc < fuel)
    (hs : (d.runFor fuel ticks).1.stepper.Legible) :
    ∃ d', d.runFor fuel ticks = (d', .ok ()) ∧ RestsAt d.stops d'.stepper := by
  induction fuel generalizing d ticks with
  | zero => exact absurd hfuel (Nat.not_lt_zero _)
  | succ fuel ih =>
    let next : Debugger := { d with stepper := d.stepper.tick.1 }
    have hnext : next.stepper.Valid := hvalid.tick
    unfold runFor at hs ⊢
    rcases advance_cases hvalid hjam hway (rfl : next = _) with hgoes | hrest
    · have hleft : next.stepper.program.size - next.stepper.pc < fuel := by
        have hprogram : next.stepper.program = d.stepper.program :=
          congrArg (fun task => task.2.2) d.stepper.task_tick
        have hpc := hgoes.pc
        have hlt : next.stepper.pc < next.stepper.program.size :=
          (hnext.phase.of_eq hgoes.phase).2
        rw [hprogram] at hlt ⊢
        omega
      rw [hgoes.advance] at hs ⊢
      dsimp only at hs ⊢
      rw [← hgoes.stops]
      by_cases hshow : (ticks + 1) % 500 = 0
      · rw [if_pos hshow] at hs ⊢
        have hfollows := (follows_andThen fun d => follows_runFor d fuel (ticks + 1)).trans
          (follows_refresh next)
        have hrefresh := refresh_of_legible hnext.recorded (hfollows.legible hs)
        rw [hrefresh, andThen_ok] at hs ⊢
        exact ih (d := next.shown) hnext hjam (.inr hgoes.phase) hleft hs
      · rw [if_neg hshow] at hs ⊢
        exact ih (d := next) hnext hjam (.inr hgoes.phase) hleft hs
    · rw [hrest.advance]
      exact ⟨next, rfl, hrest.rests⟩

/-! ## Actions -/

/-- A debugger that is somewhere on a program, with nothing in the way of ticks. -/
structure OnProgram (initial : State) (limit : Nat) (p : Program) (d : Debugger) : Prop where
  valid : d.stepper.Valid
  task : d.stepper.task = (initial, limit, p.toArray)
  jam : d.jam = none

/-- Makes the ticks fail. -/
def Action.Jams : Action → Bool
  | .jam _ => true
  | _ => false

/-- The actions that do nothing but tick. -/
def Action.Ticks : Action → Prop
  | .steps count => 0 < count
  | .run => True
  | _ => False

/-- The stops of an action: a row of steps also stops where it has been told to. -/
def stopsOf (d : Debugger) : Action → List Int
  | .steps count => ((d.stepper.pc + count : Nat) : Int) :: d.stops
  | _ => d.stops

theorem advance_of_ended (hjam : d.jam = none)
    (hended : d.stepper.phase = .done ∨ d.stepper.phase = .limit) :
    d.advance = (d, .ok false) := by
  have htick : d.stepper.tick = (d.stepper, false) := if_pos hended
  rw [advance_of_jam hjam, htick]
  rfl

namespace OnProgram

variable {initial : State} {limit : Nat} {p : Program}

theorem keeps : Keeps (OnProgram initial limit p) (OnProgram initial limit p) where
  shown h := h
  tick h := ⟨h.valid.tick, (Stepper.task_tick _).trans h.task, h.jam⟩
  refresh h hs := ⟨_, refresh_of_legible h.valid.recorded hs, h.valid, h.task, h.jam⟩
  fault h hjam := by
    rw [h.jam] at hjam
    cases hjam

theorem act (h : OnProgram initial limit p d) {action : Action} (hfree : action.Jams = false)
    (hs : (d.act action).1.stepper.Legible) :
    Leaves (OnProgram initial limit p) (d.act action) := by
  cases action with
  | mount => exact keeps.mount h hs
  | steps count => exact keeps.steps h hs
  | run => exact keeps.run h hs
  | toggle =>
    obtain ⟨breakpoints, htoggle⟩ := act_toggle_of_legible hs
    exact ⟨_, htoggle, h.valid, h.task, h.jam⟩
  | restart =>
    let anew : Debugger := { d with stepper := d.stepper.reset }
    have hanew : OnProgram initial limit p anew := ⟨d.stepper.valid_reset, h.task, h.jam⟩
    exact keeps.refresh hanew ((follows_refresh anew).legible hs)
  | addBreakpoint place => exact ⟨_, rfl, h.valid, h.task, h.jam⟩
  | jam message => cases hfree

theorem actAll (h : OnProgram initial limit p d) {actions : List Action}
    (hfree : ∀ action ∈ actions, action.Jams = false)
    (hs : ∀ before, before <+: actions → (d.actAll before).1.stepper.Legible) :
    Leaves (OnProgram initial limit p) (d.actAll actions) :=
  leaves_actAll (fun _ hd action haction => hd.act (hfree action haction)) h hs

/-- Where the stepper is tells its state and its record. -/
theorem at_pc (h : OnProgram initial limit p d) :
    d.stepper.state = initial.after (p.take d.stepper.pc) ∧
      d.stepper.trace.toList = Program.record initial (p.take d.stepper.pc) := by
  obtain ⟨hinitial, hrest⟩ := Prod.mk.inj h.task
  obtain ⟨-, hprogram⟩ := Prod.mk.inj hrest
  have hstate := h.valid.state
  have htrace := h.valid.trace
  rw [hinitial, hprogram] at hstate htrace
  exact ⟨hstate, htrace⟩

theorem done_iff (h : OnProgram initial limit p d) (hmoved : d.stepper.phase ≠ .idle) :
    d.stepper.phase = .done ↔ d.stepper.pc = p.length := by
  obtain ⟨-, hrest⟩ := Prod.mk.inj h.task
  obtain ⟨-, hprogram⟩ := Prod.mk.inj hrest
  rw [h.valid.done_iff hmoved, hprogram, List.size_toArray]

/-- Ticks on the way come to rest at the nearest stop. -/
theorem rests_act (h : OnProgram initial limit p d) (hway : d.stepper.UnderWay) {action : Action}
    (hticks : action.Ticks) (hs : (d.act action).1.stepper.Legible) :
    ∃ d', d.act action = (d', .ok ()) ∧ RestsAt (d.stopsOf action) d'.stepper := by
  -- once the ticks have come to rest, only showing is left
  have hsettle {r : Result} {stops : List Int} (hact : d.act action = settle r)
      (hkept : r.1.stepper.Valid) (hrests : ∃ d', r = (d', .ok ()) ∧ RestsAt stops d'.stepper) :
      ∃ d', d.act action = (d', .ok ()) ∧ RestsAt stops d'.stepper := by
    obtain ⟨d', rfl, hd'⟩ := hrests
    rw [hact] at hs ⊢
    exact ⟨d'.shown, refresh_of_legible hkept.recorded ((follows_refresh d').legible hs), hd'⟩
  cases action with
  | steps count =>
    exact hsettle rfl (keeps.advanceFor h count).kept.valid
      (rests_advanceFor h.valid h.jam hway hticks)
  | run =>
    have hlegible := (follows_settle _).legible hs
    exact hsettle rfl (keeps.runFor h hlegible).kept.valid
      (rests_runFor h.valid h.jam hway (Nat.lt_succ_self _) hlegible)
  | mount | toggle | restart | addBreakpoint place | jam message => exact hticks.elim

/-- Once the stepper has ended, ticks leave it alone. -/
theorem ended_act (h : OnProgram initial limit p d)
    (hended : d.stepper.phase = .done ∨ d.stepper.phase = .limit) {action : Action}
    (hticks : action.Ticks) (hs : (d.act action).1.stepper.Legible) :
    d.act action = (d.shown, .ok ()) := by
  have hadvance := advance_of_ended h.jam hended
  have hact : d.act action = d.refresh := by
    cases action with
    | steps count =>
      have hcount : count = count - 1 + 1 := (Nat.sub_add_cancel hticks).symm
      show settle (advanceFor count d) = _
      rw [hcount]
      unfold advanceFor
      rw [hadvance]
      rfl
    | run =>
      show settle (runFor _ 0 d) = _
      unfold runFor
      rw [hadvance]
      rfl
    | mount | toggle | restart | addBreakpoint place | jam message => exact hticks.elim
  rw [hact] at hs ⊢
  exact refresh_of_legible h.valid.recorded ((follows_refresh d).legible hs)

end OnProgram

/-! ## Histories -/

/-- What has been reached from a program by actions in a row, whatever the limit, as long as no tick
fails and the numbers that it comes by can be written. -/
def Reached (initial : State) (p : Program) (d : Debugger) : Prop :=
  ∃ (limit : Nat) (autoRun : Bool) (actions : List Action),
    (∀ action ∈ actions, action.Jams = false) ∧
    (∀ before, before <+: actions →
      ((ofProgram initial limit p autoRun).actAll before).1.stepper.Legible) ∧
    (ofProgram initial limit p autoRun).actAll actions = (d, .ok ())

theorem onProgram_ofProgram (initial : State) (limit : Nat) (p : Program) (autoRun : Bool) :
    OnProgram initial limit p (ofProgram initial limit p autoRun) :=
  ⟨Stepper.valid_reset _, rfl, rfl⟩

theorem Reached.onProgram {initial : State} {p : Program} (h : Reached initial p d) :
    ∃ limit, OnProgram initial limit p d := by
  obtain ⟨limit, autoRun, actions, hfree, hs, hactions⟩ := h
  obtain ⟨d', hgoes, hd'⟩ := (onProgram_ofProgram initial limit p autoRun).actAll hfree hs
  obtain rfl := (Prod.mk.inj (hactions.symm.trans hgoes)).1
  exact ⟨limit, hd'⟩

/-- Actions in a row go through, as long as no tick is made to fail and the numbers that they come by
can be written.  From where they lead, whatever breakpoints are set there, a row of steps or a run
that is still on its way comes to rest at the nearest of the end, the limit, the breakpoints ahead
and the last place that the row asks for, with the program applied up to there, and done if that is
the end; one that has ended stays as it is.  So all that comes to rest at one place of the program
has one state and one record. -/
theorem rests_actAll (initial : State) (limit : Nat) (p : Program) (autoRun : Bool)
    (actions : List Action) (hfree : ∀ action ∈ actions, action.Jams = false)
    (hwritable : ∀ before, before <+: actions →
      ((ofProgram initial limit p autoRun).actAll before).1.stepper.Legible) :
    ∃ d, (ofProgram initial limit p autoRun).actAll actions = (d, .ok ()) ∧
      d.stepper.task = (initial, limit, p.toArray) ∧
      (∀ (breakpoints : List Int) (action : Action), action.Ticks →
        let marked : Debugger := { d with breakpoints }
        (marked.act action).1.stepper.Legible →
        ∃ d', marked.act action = (d', .ok ()) ∧
          (d.stepper.phase = .idle ∨ d.stepper.phase = .running →
            (marked.stopsOf action).min? = some (d'.stepper.pc : Int) ∧
            d'.stepper.state = initial.after (p.take d'.stepper.pc) ∧
            (d'.stepper.phase = .done ↔ d'.stepper.pc = p.length)) ∧
          (d.stepper.phase = .done ∨ d.stepper.phase = .limit → d'.stepper = d.stepper)) ∧
      ∀ d', Reached initial p d' → d'.stepper.pc = d.stepper.pc →
        d'.stepper.state = d.stepper.state ∧ d'.stepper.trace = d.stepper.trace := by
  obtain ⟨d, hactions, hd⟩ :=
    (onProgram_ofProgram initial limit p autoRun).actAll hfree hwritable
  refine ⟨d, hactions, hd.task, ?_, ?_⟩
  · intro breakpoints action hticks marked hs
    have hmarked : OnProgram initial limit p marked := ⟨hd.valid, hd.task, hd.jam⟩
    have hfree : action.Jams = false := by
      cases action with
      | jam message => exact hticks.elim
      | _ => rfl
    obtain ⟨d', hact, hd'⟩ := hmarked.act hfree hs
    refine ⟨d', hact, fun hway => ?_, fun hended => ?_⟩
    · obtain ⟨e, hrest, hmoved, hpc⟩ := hmarked.rests_act hway hticks hs
      obtain rfl := (Prod.mk.inj (hact.symm.trans hrest)).1
      exact ⟨hpc, hd'.at_pc.1, hd'.done_iff hmoved⟩
    · have hshown := hmarked.ended_act hended hticks hs
      obtain rfl := (Prod.mk.inj (hact.symm.trans hshown)).1
      rfl
  · intro d' hreached hpc
    obtain ⟨limit', hd'⟩ := hreached.onProgram
    obtain ⟨hstate, htrace⟩ := hd.at_pc
    obtain ⟨hstate', htrace'⟩ := hd'.at_pc
    rw [hpc] at hstate' htrace'
    exact ⟨hstate'.trans hstate.symm, Array.toList_inj.mp (htrace'.trans htrace.symm)⟩

/-- Five instructions under a limit of four, with a breakpoint at the second place: ten steps come to
the breakpoint, and a run from there to the limit. -/
theorem rests_actAll_zayin :
    let p : Program := List.replicate 5 ⟨.zayin, .plain, 0⟩
    let start := ofProgram State.zero 4 p false
    ∃ d d', start.actAll [.mount, .addBreakpoint 2, .steps 10] = (d, .ok ()) ∧
      d.stepper.pc = 2 ∧ d.act .run = (d', .ok ()) ∧ d'.stepper.pc = 4 ∧
      d'.stepper.state = State.zero.after (p.take 4) ∧ d'.stepper.phase ≠ .done := by
  intro p start
  let actions : List Action := [.mount, .addBreakpoint 2, .steps 10]
  have hwritable : ∀ before ∈ actions.inits, (start.actAll before).1.stepper.Legible := by
    decide +kernel
  obtain ⟨d, hactions, -, hrests, -⟩ := rests_actAll State.zero 4 p false actions (by decide)
    fun before hbefore => hwritable before ((List.mem_inits _ _).mpr hbefore)
  have hreached : d = (start.actAll actions).1 := (congrArg Prod.fst hactions).symm
  have hs : (d.act .run).1.stepper.Legible := by
    rw [hreached]
    decide +kernel
  obtain ⟨d', hrun, hway, -⟩ := hrests d.breakpoints .run trivial hs
  have hplace : d.stepper.pc = 2 ∧ d.stepper.phase = .running ∧
      d.stops.min? = some (4 : Int) := by
    rw [hreached]
    decide +kernel
  obtain ⟨hpc, hrunning, hmin⟩ := hplace
  obtain ⟨hpc', hstate, hdone⟩ := hway (.inr hrunning)
  have hfour : d'.stepper.pc = 4 := Int.ofNat.inj (Option.some.inj (hpc'.symm.trans hmin))
  rw [hfour] at hstate hdone
  exact ⟨d, d', hactions, hpc, hrun, hfour, hstate, fun h => absurd (hdone.mp h) (by decide)⟩

end Debugger

end LetterMachine
