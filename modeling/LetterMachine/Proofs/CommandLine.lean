import LetterMachine.Proofs.Options
import LetterMachine.Proofs.Printing
import LetterMachine.Proofs.Refusals
import LetterMachine.Proofs.Session
import LetterMachine.Proofs.Stepper

/-!
# How the commands end

A command that runs one program ends with what the run came to, or tells why there is none.  The
exceptions are said here: an outcome with a number that is too long to be written and, for the
debugger, a path that cannot be read although something may be there.  There the command ends with a
fault that it does not tell.  An earlier release of the reader of arguments adds one more, a seed
without a value.
-/

namespace LetterMachine

open LetterMachine.Text Workspace

/-! ## What is asked for -/

namespace Settings

/-- What a run of the source comes to, with the state that the seeds have made for it. -/
def run (s : Settings) (source : Answer Source) : Answer (State × Outcome) := do
  let w ← s.workspace
  let o ← (← source).run w.state w.limit s.traced
  return (w.state, o)

/-- What a run of the source comes to, with what is printed of it. -/
def shown (print : String → Answer String) (s : Settings) (source : Answer Source) :
    Answer (Outcome × String) := do
  let (before, o) ← s.run source
  return (o, ← print (← o.coloured before s.traced))

/-- The program that the debugger is asked to load. -/
def program (s : Settings) (d : Directory) : Answer Program :=
  match s.file? with
  | some file => do Program.ofText (← d.text (Directory.shortened file))
  | none => (s.expr.getD (.items [])).program

/-- The debugger that is asked for. -/
def launch (s : Settings) (d : Directory) : Answer Launch := do
  let stepper ← s.stepper
  return ⟨s.autoRun, stepper.load (← s.program d)⟩

end Settings

/-- Nothing has to go untold: no seed is given without a value, and what the run comes to can be
written. -/
structure Settings.Tellable (s : Settings) (source : Answer Source) : Prop where
  seeds : s.run source ≠ .error .seedAbsent
  outcome : ∀ before o, s.run source = .ok (before, o) → o.Showable s.traced

/-- What goes untold: a seed that is given without a value, or a number that is too long. -/
theorem Settings.cases_of_not_tellable {s : Settings} {source : Answer Source}
    (h : ¬ s.Tellable source) :
    s.run source = .error .seedAbsent ∨
      ∃ before o, s.run source = .ok (before, o) ∧ ¬ o.Showable s.traced := by
  by_cases hseeds : s.run source = .error .seedAbsent
  · exact .inl hseeds
  · right
    by_contra hnone
    refine h ⟨hseeds, fun before o hrun => ?_⟩
    by_contra hlong
    exact hnone ⟨before, o, hrun, hlong⟩

/-- The report of a command that runs one program and tells whatever refuses it: the outcome, with a
word on the limit if that cut it off, or an error. -/
def Report.telling : Answer (Outcome × String) → Report
  | .error f => refused f.message
  | .ok (o, text) =>
    if o.exceeded then
      ⟨2, text, "Stopped at step limit " ++ Nat.repr o.limit ++ "\n", none, none⟩
    else printed text

/-- The report of a run that may have been refused. -/
def Report.ending (print : String → Answer String) (traced : Bool) :
    Answer (State × Outcome) → Report
  | .error f => ofFault f
  | .ok (before, o) => ofRun print before traced o

/-- A report starts the debugger that is asked for, or tells an error where there is none. -/
def Report.LaunchesOrTells (r : Report) : Answer Launch → Prop
  | .ok launch => r = launched launch
  | .error _ => ∃ message, r = refused message

/-- Does the fault end the debugger's command untold? -/
def Fault.isUntold : Fault → Bool
  | seedAbsent | directory _ | accessDenied _ | nameTooLong _ => true
  | _ => false

/-- A report refuses with a fault: the command ends with it if it goes untold, and tells an error
otherwise. -/
def Report.Refuses (r : Report) (f : Fault) : Prop :=
  if f.isUntold then r = broken f else ∃ message, r = refused message

/-! ## A program as an argument -/

theorem Instruction.exists_text_eq_cons (i : Instruction) :
    ∃ c rest, i.text.toList = c :: rest ∧ Token.opensNumber c = false := by
  obtain ⟨c, rest, hword, hc⟩ := exists_word_eq_cons i.op i.mode
  exact ⟨c, _, by rw [toList_text, hword, List.cons_append], hc⟩

/-- The written form of a program is not taken for an option. -/
theorem Program.head?_text (p : Program) : p.text.toList.head? ≠ some '-' := by
  have hcons {c : Char} {rest : List Char} (hc : Token.opensNumber c = false) :
      (c :: rest).head? ≠ some '-' := by
    intro h
    obtain rfl : c = '-' := Option.some.inj h
    exact absurd hc (by decide)
  match p with
  | [] => decide
  | [i] =>
    obtain ⟨c, rest, htext, hc⟩ := i.exists_text_eq_cons
    rw [show text [i] = i.text from String.intercalate_singleton, htext]
    exact hcons hc
  | i :: j :: p =>
    obtain ⟨c, rest, htext, hc⟩ := i.exists_text_eq_cons
    rw [toList_text_cons_cons, htext, List.cons_append]
    exact hcons hc

namespace Settings

theorem ofArguments_expr {m : Manual} {text : String}
    (hname : m.names.lookup "-e" = some .expr) (h : text.toList.head? ≠ some '-')
    (release : Release) :
    ofArguments release m ["-e", text] = .ok { default with expr := some (.text text) } := by
  unfold ofArguments
  rw [OptionNames.read_option_value hname (by decide) (by decide) rfl h]
  rfl

theorem ofArguments_file (m : Manual) (name : String) (h : name.toList.head? ≠ some '-')
    (release : Release) :
    ofArguments release m [name] = .ok { default with file := some name } := by
  unfold ofArguments
  rw [OptionNames.read_value m.names h]
  rfl

theorem run_expr {p : Program} (h : ∀ i ∈ p, i.IsListable) :
    { Settings.default with expr := some (.text p.text) }.run (.ok (.text p.text)) =
      .ok (State.zero, p.run State.zero defaultLimit false) := by
  have hrun : (Source.text p.text).run State.zero (.whole defaultLimit) false =
      .ok (p.run State.zero defaultLimit false) := by
    unfold Source.run
    rw [Datum.limit_whole, show (Source.text p.text).program = Program.ofText p.text from rfl,
      Program.ofText_text h]
    rfl
  have hworkspace : { Settings.default with expr := some (.text p.text) }.workspace =
      .ok ⟨State.zero, .whole defaultLimit, #[]⟩ := rfl
  unfold Settings.run
  rw [hworkspace]
  simp only [bind, Except.bind]
  rw [show Settings.default.traced = false from rfl, hrun]
  rfl

end Settings

/-! ## What can go wrong -/

theorem Report.broken_ne_refused (f : Fault) (message : String) : broken f ≠ refused message := by
  intro h
  have hfault : some f = none := congrArg Report.fault h
  cases hfault

theorem Directory.text_failsWith (d : Directory) (path : String) :
    FailsWith (fun f => f.isUnforeseen = false) (d.text path) := by
  unfold text
  split
  · refine FailsWith.map (FailsWith.mapError ?_ _) _
    exact fun f => rfl
  all_goals exact .error rfl

/-- A fault of what is given, or a seed without a value, which only an earlier release leaves. -/
def Fault.OfSeeds (release : Release) (f : Fault) : Prop :=
  f.OfInput ∨ release = .earlier ∧ f = .seedAbsent

theorem Report.refuses_broken {f : Fault} (h : f.isUntold = true) : (broken f).Refuses f := by
  unfold Refuses
  rw [if_pos h]

theorem Report.refuses_refused {f : Fault} (h : f.isUntold = false) (message : String) :
    (refused message).Refuses f := by
  unfold Refuses
  rw [h]
  exact ⟨message, rfl⟩

theorem Report.Refuses.eq_broken {r : Report} {f : Fault} (h : r.Refuses f)
    (hf : f.isUntold = true) : r = broken f := by
  unfold Refuses at h
  rwa [if_pos hf] at h

theorem Report.Refuses.exists_refused {r : Report} {f : Fault} (h : r.Refuses f)
    (hf : f.isUntold = false) : ∃ message, r = refused message := by
  unfold Refuses at h
  rwa [hf] at h

theorem Report.ofFault_of_foreseen {f : Fault} (h : f.isUnforeseen = false) :
    ofFault f = refused f.message := by
  unfold ofFault
  rw [h]
  rfl

theorem Fault.OfInput.isUntold {f : Fault} (h : f.OfInput) : f.isUntold = false := by
  unfold Fault.isUntold
  split
  · cases h.foreseen
  · cases h.noFile
  · cases h.noFile
  · cases h.noFile
  · rfl

namespace Settings

variable {release : Release} {m : Manual} {args : List String} {s s' : Settings}

/-- A seed that is asked for with its value is kept with it. -/
theorem isSome_seeds_take {r : Request} (h : take m s r = .ok s') (hr : r.IsFilled)
    (hs : ∀ given ∈ s.seeds, given.isSome) : ∀ given ∈ s'.seeds, given.isSome := by
  unfold take at h
  split at h
  case h_4 =>
    obtain rfl := Except.ok.inj h
    exact List.forall_mem_append.mpr ⟨hs, List.forall_mem_singleton.mpr (hr rfl)⟩
  case h_7 =>
    split at h
    · obtain rfl := Except.ok.inj h
      exact hs
    · cases h
  case h_1 => cases h
  all_goals
    obtain rfl := Except.ok.inj h
    exact hs

theorem isSome_seeds_of_requests {requests : List Request} (h : requests.foldlM (take m) s = .ok s')
    (hrequests : ∀ r ∈ requests, r.IsFilled) (hs : ∀ given ∈ s.seeds, given.isSome) :
    ∀ given ∈ s'.seeds, given.isSome := by
  induction requests generalizing s with
  | nil =>
    obtain rfl := Except.ok.inj h
    exact hs
  | cons r requests ih =>
    obtain ⟨hr, hrequests⟩ := List.forall_mem_cons.mp hrequests
    obtain ⟨next, hnext, h⟩ := Answer.bind_eq_ok h
    exact ih h hrequests (isSome_seeds_take hnext hr hs)

/-- In the current release no seed is without its value. -/
theorem isSome_seeds (h : ofArguments .current m args = .ok s) :
    ∀ given ∈ s.seeds, given.isSome := by
  obtain ⟨asked, hasked, h⟩ := Answer.bind_eq_ok h
  have hseeds := isSome_seeds_of_requests hasked (OptionNames.filled_read m.names args)
    (List.forall_mem_nil _)
  split at h
  · cases h
  · obtain rfl := Except.ok.inj h
    exact hseeds
  · cases h

theorem seed_failsWith (hargs : ofArguments release m args = .ok s) :
    FailsWith (Fault.OfSeeds release) s.seed := by
  have hpair : ∀ given ∈ s.seeds, FailsWith (Fault.OfSeeds release) (seedPair given) := by
    intro given hgiven
    cases given with
    | some pair => exact (Seed.readPair_failsWith pair).mono fun _ => .inl
    | none =>
      cases release with
      | current => cases isSome_seeds hargs none hgiven
      | earlier => exact .error (.inr ⟨rfl, rfl⟩)
  exact (FailsWith.mapM hpair).map _

theorem workspace_failsWith (hargs : ofArguments release m args = .ok s) :
    FailsWith (Fault.OfSeeds release) s.workspace :=
  (seed_failsWith hargs).bind fun seed => (seed.state_failsWith.mono fun _ => .inl).map _

theorem stepper_failsWith (hargs : ofArguments release m args = .ok s) :
    FailsWith (Fault.OfSeeds release) s.stepper :=
  (seed_failsWith hargs).bind fun seed => (seed.state_failsWith.mono fun _ => .inl).bind fun _ =>
    (s.limit.limit_failsWith.mono fun _ => .inl).map _

end Settings

/-! ## A session that runs one program -/

theorem Workspace.attempt_execute_answer (w : Workspace) (source : Source) (traced : Bool) :
    (w.attempt (execute source traced none)).2 = source.run w.state w.limit traced := by
  cases h : source.run w.state ((none : Option Datum).getD w.limit) traced with
  | error f =>
    rw [attempt_execute_of_error h]
    exact h.symm
  | ok o =>
    rw [attempt_execute_of_ok h]
    exact h.symm

namespace Session

variable {e : Environment} {args : List String} {settings : Settings} {source : Answer Source}

/-- A session that is given a program ends with what the run of it comes to. -/
theorem report_of_source (hargs : Settings.ofArguments e.release .session args = .ok settings)
    (hsource : settings.source? e.directory = some source) (input : String) :
    report e args input = .ending e.print settings.traced (settings.run source) := by
  unfold report task
  simp only [hargs, hsource]
  unfold Settings.run
  cases settings.workspace with
  | error f => rfl
  | ok w =>
    cases source with
    | error f => rfl
    | ok source =>
      have hanswer := w.attempt_execute_answer source settings.traced
      simp only [Except.map, bind, Except.bind, hanswer]
      cases source.run w.state w.limit settings.traced <;> rfl

theorem source_failsWith {d : Directory} (hsource : settings.source? d = some source) :
    FailsWith (fun f => f.isUnforeseen = false) source := by
  unfold Settings.source? at hsource
  split at hsource
  · next path _ =>
    obtain rfl := Option.some.inj hsource
    have htext := d.text_failsWith path
    cases hread : d.text path with
    | error f => exact .error (htext f hread)
    | ok text => exact .ok (Source.text text)
  · obtain ⟨given, -, rfl⟩ := Option.map_eq_some_iff.mp hsource
    exact .ok given

theorem run_failsWith (hargs : Settings.ofArguments e.release .session args = .ok settings)
    (hsource : settings.source? e.directory = some source) :
    FailsWith (fun f => f.isUnforeseen = false ∨ e.release = .earlier ∧ f = .seedAbsent)
      (settings.run source) := by
  have hworkspace := (Settings.workspace_failsWith hargs).mono
    (Q := fun f => f.isUnforeseen = false ∨ e.release = .earlier ∧ f = .seedAbsent) fun f hf =>
      hf.imp_left Fault.OfInput.foreseen
  refine hworkspace.bind fun w => ?_
  refine ((source_failsWith hsource).mono fun _ => .inl).bind fun source => ?_
  exact ((source.run_failsWith w.state w.limit settings.traced).mono fun f hf =>
    .inl hf.foreseen).map _

theorem release_of_seedAbsent
    (hargs : Settings.ofArguments e.release .session args = .ok settings)
    (hsource : settings.source? e.directory = some source)
    (hrun : settings.run source = .error .seedAbsent) : e.release = .earlier := by
  rcases run_failsWith hargs hsource _ hrun with hforeseen | ⟨hrelease, -⟩
  · cases hforeseen
  · exact hrelease

theorem shown_of_run {print : String → Answer String} {before : State} {o : Outcome}
    (h : settings.run source = .ok (before, o)) :
    settings.shown print source =
      do return (o, ← print (← o.coloured before settings.traced)) := by
  unfold Settings.shown
  rw [h]
  rfl

theorem shown_of_run_error {print : String → Answer String} {f : Fault}
    (h : settings.run source = .error f) : settings.shown print source = .error f := by
  unfold Settings.shown
  rw [h]
  rfl

/-- What can be written of an outcome is printed, and the status says if it was cut off. -/
theorem ofRun_eq_telling {print : String → Answer String} (hprint : PrintsPlain print)
    {before : State} {o : Outcome} (h : settings.run source = .ok (before, o))
    (hshow : o.Showable settings.traced) :
    Report.ofRun print before settings.traced o = .telling (settings.shown print source) := by
  obtain ⟨text, htext⟩ := (o.shownIf_coloured before settings.traced).shown hshow
  obtain ⟨printed, hprinted⟩ := Outcome.exists_print_of_coloured hprint htext
  have hshown : settings.shown print source = .ok (o, printed) := by
    rw [shown_of_run h]
    simp only [bind, Except.bind, htext, hprinted]
    rfl
  rw [hshown]
  unfold Report.ofRun Report.telling
  simp only [bind, Except.bind, htext, hprinted]

theorem ofRun_of_not_showable {print : String → Answer String} {before : State} {o : Outcome}
    {traced : Bool} (h : ¬ o.Showable traced) :
    Report.ofRun print before traced o = .broken (.numeral .tooLong) := by
  have hcoloured := (o.shownIf_coloured before traced).refused h
  unfold Report.ofRun
  simp only [bind, Except.bind, hcoloured]

theorem fault_telling (a : Answer (Outcome × String)) : (Report.telling a).fault = none := by
  cases a with
  | error f => rfl
  | ok shown =>
    unfold Report.telling
    dsimp only
    split <;> rfl

theorem ending_of_tellable (hprint : PrintsPlain e.print)
    (hargs : Settings.ofArguments e.release .session args = .ok settings)
    (hsource : settings.source? e.directory = some source) (h : settings.Tellable source) :
    Report.ending e.print settings.traced (settings.run source) =
      .telling (settings.shown e.print source) := by
  cases hrun : settings.run source with
  | error f =>
    have hforeseen : f.isUnforeseen = false := by
      refine (run_failsWith hargs hsource f hrun).resolve_right ?_
      rintro ⟨-, rfl⟩
      exact h.seeds hrun
    rw [shown_of_run_error hrun]
    exact Report.ofFault_of_foreseen hforeseen
  | ok result =>
    obtain ⟨before, o⟩ := result
    exact ofRun_eq_telling hprint hrun (h.outcome before o hrun)

/-- A session that is given a program prints what the run of it came to, says where the limit cut it
off, and else tells the error, exactly if nothing has to go untold.  It ends with a fault where the
outcome holds a number that is too long to be written.  With the current reader of arguments there is
no other way to a fault; an earlier one may leave a seed without a value. -/
theorem report_eq_telling_iff (hprint : PrintsPlain e.print)
    (hargs : Settings.ofArguments e.release .session args = .ok settings)
    (hsource : settings.source? e.directory = some source) (input : String) :
    let r := report e args input
    (r = .telling (settings.shown e.print source) ↔ settings.Tellable source) ∧
      (r.fault = none ↔ settings.Tellable source) ∧
      (∀ before o, settings.run source = .ok (before, o) → ¬ o.Showable settings.traced →
        r = .broken (.numeral .tooLong)) ∧
      (settings.run source = .error .seedAbsent →
        e.release = .earlier ∧ r = .broken .seedAbsent) ∧
      (e.release = .current → (settings.Tellable source ↔
        ∀ before o, settings.run source = .ok (before, o) → o.Showable settings.traced)) := by
  intro r
  have hr : r = .ending e.print settings.traced (settings.run source) :=
    report_of_source hargs hsource input
  have hseeds (hrun : settings.run source = .error .seedAbsent) : r = .broken .seedAbsent := by
    rw [hr, hrun]
    rfl
  have hlong (before o) (hrun : settings.run source = .ok (before, o))
      (hshow : ¬ o.Showable settings.traced) : r = .broken (.numeral .tooLong) := by
    rw [hr, hrun]
    exact ofRun_of_not_showable hshow
  have htelling (h : settings.Tellable source) :
      r = .telling (settings.shown e.print source) :=
    hr.trans (ending_of_tellable hprint hargs hsource h)
  have htellable (hnone : r.fault = none) : settings.Tellable source := by
    by_contra huntold
    rcases Settings.cases_of_not_tellable huntold with hrun | ⟨before, o, hrun, hshow⟩
    · rw [hseeds hrun] at hnone
      cases hnone
    · rw [hlong before o hrun hshow] at hnone
      cases hnone
  have hrelease := release_of_seedAbsent hargs hsource
  refine ⟨⟨fun h => htellable ?_, htelling⟩, ⟨htellable, fun h => ?_⟩, hlong,
    fun hrun => ⟨hrelease hrun, hseeds hrun⟩, fun hcurrent => ⟨fun h => h.outcome, fun h => ⟨?_, h⟩⟩⟩
  · rw [h]
    exact fault_telling _
  · rw [htelling h]
    exact fault_telling _
  · intro hrun
    cases hcurrent.symm.trans (hrelease hrun)

/-- What comes of one instruction is printed. -/
theorem report_eq_telling_iff_zayin :
    let e : Environment := ⟨.ofFiles [], printLine, .current⟩
    let p : Program := [⟨.zayin, .plain, 0⟩]
    let o := p.run State.zero defaultLimit false
    PrintsPlain e.print ∧ o.Showable false ∧
      report e ["-e", p.text] "" =
        .telling (do return (o, ← printLine (← o.coloured State.zero false))) := by
  intro e p o
  have hlistable : ∀ i ∈ p, i.IsListable :=
    List.forall_mem_singleton.mpr (Instruction.isListable_plain .zayin)
  have hargs := Settings.ofArguments_expr (m := .session) (by decide) p.head?_text e.release
  have hsource : { Settings.default with expr := some (.text p.text) }.source? e.directory =
      some (.ok (.text p.text)) := rfl
  have hrun := Settings.run_expr hlistable
  have hshow : o.Showable false := by
    refine ⟨fun t ht => (List.not_mem_nil ht).elim, ?_, fun hcut => ?_⟩
    · unfold State.Writable
      decide +kernel
    · cases hcut
  obtain ⟨⟨-, htelling⟩, -⟩ := report_eq_telling_iff printsPlain_printLine hargs hsource ""
  refine ⟨printsPlain_printLine, hshow, ?_⟩
  rw [htelling ⟨fun h => ?_, fun before o' h => ?_⟩]
  · rw [shown_of_run hrun]
    rfl
  · rw [hrun] at h
    cases h
  · rw [hrun] at h
    obtain rfl := (Prod.mk.inj (Except.ok.inj h)).2
    exact hshow

/-- A round by the greatest number that can be written leaves one that cannot be.  The session ends
with a fault and tells nothing. -/
theorem not_forall_report_telling :
    ¬ ∀ (e : Environment) (args : List String) (settings : Settings) (source : Answer Source),
      PrintsPlain e.print → e.release = .current →
        Settings.ofArguments e.release .session args = .ok settings →
          settings.source? e.directory = some source → (report e args "").fault = none := by
  intro h
  let p : Program := [⟨.sovav, .immediate, longest⟩]
  let o := p.run State.zero defaultLimit false
  let e : Environment := ⟨.ofFiles [], printLine, .current⟩
  have hlistable : ∀ i ∈ p, i.IsListable :=
    List.forall_mem_singleton.mpr ⟨fun h => absurd rfl h, fun _ => writable_longest⟩
  have hargs := Settings.ofArguments_expr (m := .session) (by decide) p.head?_text e.release
  have hsource : { Settings.default with expr := some (.text p.text) }.source? e.directory =
      some (.ok (.text p.text)) := rfl
  have hlong : ¬ o.Showable false := by
    intro hshow
    -- the round on zeros puts twice its operand into the first register
    have hround : o.final.get 0 = 2 * longest := by
      show (State.zero.round longest).get 0 = _
      simp [State.round, State.get, State.zero]
      omega
    exact not_writable_twice_longest (hround ▸ hshow.final 0)
  have hreport : report e ["-e", p.text] "" = .broken (.numeral .tooLong) := calc
    report e ["-e", p.text] "" = .ending printLine false _ := report_of_source hargs hsource ""
    _ = .ending printLine false (.ok (State.zero, o)) := congrArg _ (Settings.run_expr hlistable)
    _ = .ofRun printLine State.zero false o := rfl
    _ = .broken (.numeral .tooLong) := ofRun_of_not_showable hlong
  have hnone := h e _ _ _ printsPlain_printLine rfl hargs hsource
  rw [hreport] at hnone
  cases hnone

end Session

/-! ## A debugger -/

namespace Debugger

variable {e : Environment} {d : Directory} {args : List String} {settings : Settings}

/-- What comes of loading where the file is there: only what lies on the way to it goes untold. -/
def loading (r : Answer Stepper) : Except Report Stepper :=
  r.mapError fun f => if f.isFileAccess then Report.broken f else Report.refused f.message

/-- All that loading can come to: what is asked for is loaded, or tried and refused, or it is told
at once that the file is not there. -/
theorem load_cases (d : Directory) (s : Stepper) (settings : Settings) :
    (load d s settings = loading ((settings.program d).map s.load) ∧
        FailsWith (fun f => f.isUntold = f.isFileAccess) (settings.program d)) ∨
      ∃ message f, load d s settings = .error (.refused message) ∧
        settings.program d = .error f ∧ f.isUntold = false := by
  have hinput : ∀ f : Fault, f.OfInput → f.isUntold = f.isFileAccess := fun f hf => by
    rw [hf.isUntold, hf.noFile]
  unfold load Settings.program
  cases settings.file? with
  | none =>
    refine .inl ⟨?_, (Source.program_failsWith _).mono hinput⟩
    dsimp only
    rw [s.loadSource_eq_map]
    rfl
  | some file =>
    dsimp only
    rw [s.loadFile_eq_map]
    generalize Directory.shortened file = path
    cases hentry : d.entry path with
    | file bytes =>
      refine .inl ⟨rfl, ?_⟩
      refine FailsWith.bind ?_ fun text => (Program.ofText_failsWith text).mono hinput
      simp only [Directory.text, hentry]
      refine FailsWith.map (FailsWith.mapError ?_ _) _
      exact fun f => rfl
    | directory =>
      refine .inl ⟨rfl, ?_⟩
      simp only [Directory.text, hentry]
      exact .error rfl
    | denied =>
      refine .inl ⟨rfl, ?_⟩
      simp only [Directory.text, hentry]
      exact .error rfl
    | tooLong =>
      refine .inl ⟨rfl, ?_⟩
      simp only [Directory.text, hentry]
      exact .error rfl
    -- what is not there is told at once
    | nothing =>
      refine .inr ⟨_, .missingFile path, rfl, ?_, rfl⟩
      simp only [Directory.text, hentry]
      rfl
    | behindFile =>
      refine .inr ⟨_, .notDirectory path, rfl, ?_, rfl⟩
      simp only [Directory.text, hentry]
      rfl
    | null =>
      refine .inr ⟨_, .nullInPath, rfl, ?_, rfl⟩
      simp only [Directory.text, hentry]
      rfl

theorem load_of_program {p : Program} (h : settings.program d = .ok p) (s : Stepper) :
    load d s settings = .ok (s.load p) := by
  rcases load_cases d s settings with ⟨hload, -⟩ | ⟨message, f, -, hrefused, -⟩
  · rw [hload, h]
    rfl
  · rw [h] at hrefused
    cases hrefused

theorem exists_load_of_error {f : Fault} (h : settings.program d = .error f) (s : Stepper) :
    ∃ r, load d s settings = .error r ∧ r.Refuses f := by
  rcases load_cases d s settings with ⟨hload, hfails⟩ | ⟨message, g, hload, hrefused, htold⟩
  · have haccess : f.isUntold = f.isFileAccess := hfails f h
    rw [hload, h]
    refine ⟨_, rfl, ?_⟩
    dsimp only
    cases huntold : f.isUntold with
    | true =>
      rw [if_pos (haccess.symm.trans huntold)]
      exact Report.refuses_broken huntold
    | false =>
      rw [if_neg (by rw [← haccess, huntold]; decide)]
      exact Report.refuses_refused huntold _
  · obtain rfl := Except.error.inj (h.symm.trans hrefused)
    exact ⟨_, hload, Report.refuses_refused htold message⟩

/-- The command starts the debugger that is asked for, or refuses with the fault that there is
instead. -/
theorem report_of_launch (hargs : Settings.ofArguments e.release .debugger args = .ok settings)
    (hprogram : settings.lacksProgram = false) :
    (∃ launch, settings.launch e.directory = .ok launch ∧ report e args = .launched launch) ∨
      ∃ f, settings.launch e.directory = .error f ∧ (report e args).Refuses f := by
  have hlacks : ¬ settings.lacksProgram = true := by
    rw [hprogram]
    decide
  unfold Settings.launch report
  cases hstepper : settings.stepper with
  | error f =>
    refine .inr ⟨f, rfl, ?_⟩
    simp only [hargs, if_neg hlacks, hstepper]
    rcases Settings.stepper_failsWith hargs f hstepper with hinput | ⟨-, rfl⟩
    · rw [Report.ofFault_of_foreseen hinput.foreseen]
      exact Report.refuses_refused hinput.isUntold _
    · exact Report.refuses_broken rfl
  | ok s =>
    cases hloaded : settings.program e.directory with
    | error f =>
      obtain ⟨r, hload, hr⟩ := exists_load_of_error hloaded s
      refine .inr ⟨f, rfl, ?_⟩
      simp only [hargs, if_neg hlacks, hstepper, hload]
      exact hr
    | ok p =>
      refine .inl ⟨⟨settings.autoRun, s.load p⟩, rfl, ?_⟩
      simp only [hargs, if_neg hlacks, hstepper, load_of_program hloaded]

theorem release_of_seedAbsent
    (hargs : Settings.ofArguments e.release .debugger args = .ok settings)
    (hlaunch : settings.launch d = .error .seedAbsent) : e.release = .earlier := by
  have hprogram : FailsWith (· ≠ .seedAbsent) (settings.program d) := by
    rintro f hf rfl
    rcases load_cases d (Stepper.new State.zero 0) settings with
      ⟨-, hfails⟩ | ⟨-, g, -, hrefused, htold⟩
    · cases hfails _ hf
    · obtain rfl := Except.error.inj (hf.symm.trans hrefused)
      cases htold
  unfold Settings.launch at hlaunch
  cases hstepper : settings.stepper with
  | error f =>
    rw [hstepper] at hlaunch
    obtain rfl : f = .seedAbsent := Except.error.inj hlaunch
    rcases Settings.stepper_failsWith hargs _ hstepper with hinput | ⟨hrelease, -⟩
    · cases hinput.foreseen
    · exact hrelease
  | ok s =>
    rw [hstepper] at hlaunch
    cases hloaded : settings.program d with
    | error f =>
      rw [hloaded] at hlaunch
      exact absurd (Except.error.inj hlaunch) (hprogram f hloaded)
    | ok p =>
      rw [hloaded] at hlaunch
      cases hlaunch

/-- A command line that is understood starts the debugger over its program, asks for a program where
there is none, and else tells an error, unless something that cannot be read stands in the place of
the file: a directory, a file out of reach, or a name that is too long.  With these the command ends
untold.  An earlier release of the reader adds a seed without a value. -/
theorem launchesOrTells_iff
    (hargs : Settings.ofArguments e.release .debugger args = .ok settings) :
    let r := report e args
    (settings.lacksProgram = true →
        r = Manual.refuse .debugger "Provide a program file or -e program") ∧
      (settings.lacksProgram = false →
        (r.LaunchesOrTells (settings.launch e.directory) ↔
            ∀ f, settings.launch e.directory = .error f → f.isUntold = false) ∧
          (∀ f, settings.launch e.directory = .error f → f.isUntold = true → r = .broken f) ∧
          (settings.launch e.directory = .error .seedAbsent → e.release = .earlier)) := by
  intro r
  constructor
  · intro hlacks
    show report e args = _
    unfold report
    simp only [hargs, hlacks, if_true]
  · intro hprogram
    have hrelease := release_of_seedAbsent (d := e.directory) hargs
    rcases report_of_launch hargs hprogram with ⟨launch, hlaunch, hr⟩ | ⟨f, hlaunch, hr⟩
    · rw [hlaunch]
      have hnever (f : Fault) : (.ok launch : Answer Launch) ≠ .error f := by
        intro h
        cases h
      exact ⟨iff_of_true hr fun f hf => (hnever f hf).elim, fun f hf _ => (hnever f hf).elim,
        fun hf => (hnever _ hf).elim⟩
    · rw [hlaunch] at hrelease ⊢
      cases huntold : f.isUntold with
      | true =>
        have hbroken : r = .broken f := hr.eq_broken huntold
        refine ⟨iff_of_false ?_ fun htold => ?_, fun g hg _ => ?_, hrelease⟩
        · rintro ⟨message, htold⟩
          exact Report.broken_ne_refused f message (hbroken.symm.trans htold)
        · exact absurd (huntold.symm.trans (htold f rfl)) (by decide)
        · exact Except.error.inj hg ▸ hbroken
      | false =>
        refine ⟨iff_of_true (hr.exists_refused huntold) fun g hg => ?_, fun g hg hbad => ?_,
          hrelease⟩
        · exact Except.error.inj hg ▸ huntold
        · rw [← Except.error.inj hg, huntold] at hbad
          cases hbad

theorem launchesOrTells_iff_zayin :
    let e : Environment := ⟨.ofFiles [], printLine, .current⟩
    let p : Program := [⟨.zayin, .plain, 0⟩]
    report e ["-e", p.text] =
      .launched ⟨false, (Stepper.new State.zero defaultLimit).load p⟩ := by
  intro e p
  have hlistable : ∀ i ∈ p, i.IsListable :=
    List.forall_mem_singleton.mpr (Instruction.isListable_plain .zayin)
  have hargs := Settings.ofArguments_expr (m := .debugger) (by decide) p.head?_text e.release
  have hlaunch : { Settings.default with expr := some (.text p.text) }.launch e.directory =
      .ok ⟨false, (Stepper.new State.zero defaultLimit).load p⟩ := by
    have hprogram : { Settings.default with expr := some (.text p.text) }.program e.directory =
        .ok p := Program.ofText_text hlistable
    unfold Settings.launch
    rw [hprogram]
    rfl
  obtain ⟨-, hlaunched⟩ := launchesOrTells_iff hargs
  obtain ⟨⟨-, htold⟩, -⟩ := hlaunched (by decide)
  rw [hlaunch] at htold
  refine htold fun f hf => ?_
  cases hf

/-- The place of the program is a directory, which is there and cannot be read. -/
theorem not_forall_launchesOrTells :
    ¬ ∀ (e : Environment) (args : List String) (settings : Settings),
      e.release = .current → Settings.ofArguments e.release .debugger args = .ok settings →
        settings.lacksProgram = false → (report e args).fault = none := by
  intro h
  let e : Environment := ⟨.ofFiles [], printLine, .current⟩
  have hargs := Settings.ofArguments_file .debugger "." (by decide) e.release
  have hlaunch : { Settings.default with file := some "." }.launch e.directory =
      .error (.directory ".") := by
    have hsplit : ".".splitOn "/" = ["."] := by
      simp +decide [String.splitOn, String.splitOnAux]
    have hnames : Directory.names "." = [] := by
      unfold Directory.names
      rw [hsplit]
      decide
    have hshortened : Directory.shortened "." = "." := by
      unfold Directory.shortened
      rw [hnames]
      simp +decide
    have htext : e.directory.text "." = .error (.directory ".") := by
      have hentry : e.directory.entry "." = .directory := by
        unfold Directory.entry
        rw [hnames]
        simp +decide [Directory.look]
      unfold Directory.text
      rw [hentry]
    have hprogram : { Settings.default with file := some "." }.program e.directory =
        .error (.directory ".") := by
      show (do Program.ofText (← e.directory.text (Directory.shortened "."))) = _
      rw [hshortened, htext]
      rfl
    unfold Settings.launch
    rw [hprogram]
    rfl
  have hreport : report e ["."] = .broken (.directory ".") := by
    rcases report_of_launch hargs (by decide) with ⟨launch, hlaunched, -⟩ | ⟨f, hrefused, hr⟩
    · rw [hlaunch] at hlaunched
      cases hlaunched
    · rw [hlaunch] at hrefused
      obtain rfl := Except.error.inj hrefused
      exact hr
  have hnone := h e ["."] _ rfl hargs (by decide)
  rw [hreport] at hnone
  cases hnone

end Debugger

end LetterMachine
