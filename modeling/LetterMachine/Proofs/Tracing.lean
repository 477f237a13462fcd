import LetterMachine.Proofs.Session

/-!
# Showing steps

A session that shows the steps of its runs keeps a record of them, and may refuse a line that it
would answer otherwise: a number on the way may be too long to be written.  But for these records,
its workspace goes the same way.  A workspace without records is a workspace of its own, calls do
to it what they do to the workspace with them, and a line makes the same call whether steps are
shown or not.
-/

namespace LetterMachine

open LetterMachine.Text

/-- An outcome without the record of its steps. -/
def Outcome.unrecorded (o : Outcome) : Outcome := { o with trace := none }

theorem Program.unrecorded_run (s : State) (p : Program) (limit : Nat) (traced : Bool) :
    (run s p limit traced).unrecorded = run s p limit false := by
  rw [run_eq, run_eq]
  rfl

theorem Source.map_unrecorded_run (source : Source) (s : State) (limit : Datum) (traced : Bool) :
    (source.run s limit traced).map Outcome.unrecorded = source.run s limit false := by
  unfold run
  cases limit.limit with
  | error f => rfl
  | ok n =>
    cases source.program with
    | error f => rfl
    | ok p => exact congrArg Except.ok (Program.unrecorded_run s p n traced)

namespace Workspace

def unrecorded (w : Workspace) : Workspace := { w with history := w.history.map Outcome.unrecorded }

def Call.unrecorded : Call → Call
  | .execute source _ limit => .execute source false limit
  | call => call

/-- A call does to a workspace without records what it does to the workspace with them. -/
theorem unrecorded_perform (w : Workspace) (call : Call) :
    (w.perform call).1.unrecorded = (w.unrecorded.perform call.unrecorded).1 := by
  cases call with
  | execute source traced limit =>
    have hrun := source.map_unrecorded_run w.state (limit.getD w.limit) traced
    show _ = (w.unrecorded.perform (.execute source false limit)).1
    cases h : source.run w.state (limit.getD w.limit) traced with
    | error f =>
      have hfalse : source.run w.unrecorded.state (limit.getD w.unrecorded.limit) false =
          .error f := hrun.symm.trans (congrArg _ h)
      rw [perform_execute_of_error h, perform_execute_of_error hfalse]
    | ok o =>
      have hfalse : source.run w.unrecorded.state (limit.getD w.unrecorded.limit) false =
          .ok o.unrecorded := hrun.symm.trans (congrArg _ h)
      rw [perform_execute_of_ok h, perform_execute_of_ok hfalse]
      simp [settle, unrecorded, Outcome.unrecorded]
  | seed values =>
    show _ = (w.unrecorded.perform (.seed values)).1
    cases h : values.overlay w.state with
    | error f =>
      have hsame : values.overlay w.unrecorded.state = .error f := h
      rw [perform_seed_of_error h, perform_seed_of_error hsame]
    | ok s =>
      have hsame : values.overlay w.unrecorded.state = .ok s := h
      rw [perform_seed_of_ok h, perform_seed_of_ok hsame]
      simp only [settle, unrecorded]
  | reset =>
    show _ = (w.unrecorded.perform .reset).1
    rw [perform_reset, perform_reset]
    simp [settle, unrecorded]
  | register name =>
    show _ = (w.unrecorded.perform (.register name)).1
    rw [perform_register, perform_register]
  | table =>
    show _ = (w.unrecorded.perform .table).1
    rw [perform_table, perform_table]

end Workspace

namespace Session

/-- Is the line the command that switches the showing of steps on or off, or tells if it is on? -/
def asksForSteps (line : String) : Bool :=
  match trim line.toList with
  | ':' :: rest =>
    match Command.ofWords ((words rest).map String.ofList) with
    | .ok (.trace _) => true
    | _ => false
  | _ => false

/-- The workspaces behind the lines in a row, but for the lines that are only about showing steps.
A line counts whether it is answered or refused. -/
def visited (s : Session) : List String → List Workspace
  | [] => []
  | line :: rest =>
    let next := (s.handle line).1
    if asksForSteps line then next.visited rest
    else next.workspace.unrecorded :: next.visited rest

section

variable (s s' : Session) {line : String}

theorem visited_cons_of_asks (h : asksForSteps line) (lines : List String) :
    s.visited (line :: lines) = (s.handle line).1.visited lines := if_pos h

theorem visited_cons_of_not_asks (h : ¬ asksForSteps line) (lines : List String) :
    s.visited (line :: lines) =
      (s.handle line).1.workspace.unrecorded :: (s.handle line).1.visited lines := if_neg h

theorem call?_of_asksForSteps (h : asksForSteps line) : s.call? line = none := by
  unfold asksForSteps at h
  split at h
  · next rest htrim =>
    split at h
    · next setting hcommand =>
      rw [s.call?_command htrim, hcommand]
      rfl
    · cases h
  · cases h

theorem map_unrecorded_call? (line : String) :
    (s.call? line).map Workspace.Call.unrecorded =
      (s'.call? line).map Workspace.Call.unrecorded := by
  unfold call?
  split
  · rfl
  · rfl
  · split <;> rfl

theorem workspace_obey {command : Command} (h : command.call? = none) :
    (s.obey command).1.workspace = s.workspace := by
  cases command with
  | seed pairs =>
    cases hpairs : Seed.readPairs pairs with
    | error f =>
      unfold obey
      simp only [hpairs]
    | ok table =>
      rw [Command.call?_seed, hpairs] at h
      cases h
  | reset => cases h
  | help | state | trace setting | operators | quit => rfl

theorem workspace_handle_of_none (h : s.call? line = none) :
    (s.handle line).1.workspace = s.workspace := by
  rcases s.handle_cases line with ⟨a, -, hhandle⟩ | ⟨command, hcall, hhandle⟩ | ⟨text, hcall, -⟩
  · rw [hhandle]
  · rw [hhandle]
    exact s.workspace_obey (hcall.symm.trans h)
  · rw [hcall] at h
    cases h

theorem workspace_handle_of_some {call : Workspace.Call} (h : s.call? line = some call) :
    (s.handle line).1.workspace = (s.workspace.perform call).1 := by
  have hanswers := s.answers_handle h
  rcases s.workspace.perform_cases call with ⟨f, hperform⟩ | ⟨reply, hperform⟩
  · rw [hanswers.refused f hperform, hperform]
  · rw [(hanswers.carriedOut _ reply hperform).1, hperform]

variable {s s'}

/-- A line leads from the same workspace to the same workspace, but for records. -/
theorem unrecorded_handle (h : s.workspace.unrecorded = s'.workspace.unrecorded) (line : String) :
    (s.handle line).1.workspace.unrecorded = (s'.handle line).1.workspace.unrecorded := by
  -- both lines make a call, or neither does
  have hcalls := s.map_unrecorded_call? s' line
  cases hcall : s.call? line with
  | none =>
    rw [hcall] at hcalls
    rw [s.workspace_handle_of_none hcall,
      s'.workspace_handle_of_none (Option.map_eq_none_iff.mp hcalls.symm), h]
  | some call =>
    rw [hcall] at hcalls
    obtain ⟨call', hcall', hsame⟩ := Option.map_eq_some_iff.mp hcalls.symm
    rw [s.workspace_handle_of_some hcall, s'.workspace_handle_of_some hcall',
      Workspace.unrecorded_perform, Workspace.unrecorded_perform, h, hsame]

/-- Lines about showing steps can be left out. -/
theorem visited_filter (h : s.workspace.unrecorded = s'.workspace.unrecorded)
    (lines : List String) : s.visited lines = s'.visited (lines.filter (!asksForSteps ·)) := by
  -- the sessions part at the first line that is left out, so both are free
  induction lines generalizing s s' with
  | nil => rfl
  | cons line lines ih =>
    by_cases hasks : asksForSteps line
    · have hnext := s.workspace_handle_of_none (s.call?_of_asksForSteps hasks)
      rw [visited_cons_of_asks s hasks, List.filter_cons_of_neg (by simp [hasks])]
      exact ih ((congrArg _ hnext).trans h)
    · have hnext := unrecorded_handle h line
      rw [visited_cons_of_not_asks s hasks, List.filter_cons_of_pos (by simp [hasks]),
        visited_cons_of_not_asks s' hasks, hnext, ih hnext]

end

/-- Sessions with the same workspace go through the same workspaces, but for records, whether they
show steps or not, and whatever lines about showing steps stand between the others.  Such a line
leaves the workspace alone. -/
theorem visited_of_filter_eq (s : Session) (traced : Bool) {lines lines' : List String}
    (h : lines.filter (!asksForSteps ·) = lines'.filter (!asksForSteps ·)) :
    s.visited lines = { s with traced }.visited lines' ∧
      ∀ (t : Session) line, asksForSteps line → (t.handle line).1.workspace = t.workspace := by
  let s' : Session := { s with traced }
  have hsame : s'.workspace.unrecorded = s.workspace.unrecorded := rfl
  constructor
  · show s.visited lines = s'.visited lines'
    rw [visited_filter hsame.symm lines, h]
    exact (visited_filter (s := s') rfl lines').symm
  · intro t line hasks
    exact t.workspace_handle_of_none (t.call?_of_asksForSteps hasks)

theorem asksForSteps_detour (n : Int) : asksForSteps (detour n).text = false := by
  obtain ⟨rest, hrest⟩ : ∃ rest, (detour n).text.toList = 'ס' :: rest := ⟨_, toList_detour n⟩
  unfold asksForSteps
  rw [trim_detour, hrest]
  rfl

/-- A line that is refused where steps are shown, and run all the same, between switches. -/
theorem visited_of_filter_eq_detour :
    let s := new ⟨State.zero, .whole 2, #[]⟩ false
    let text := (detour longest).text
    let lines := [text, ":state"]
    let lines' := [text, " :TRACE off ", ":trace", ":state"]
    lines.filter (!asksForSteps ·) = lines'.filter (!asksForSteps ·) ∧
      ({ s with traced := true }.handle text).2 = .error (.numeral .tooLong) ∧
      s.visited lines = { s with traced := true }.visited lines' := by
  intro s text lines lines'
  have htext : asksForSteps text = false := asksForSteps_detour longest
  have hstate : asksForSteps ":state" = false := by decide +kernel
  have hoff : asksForSteps " :TRACE off " = true := by decide +kernel
  have hask : asksForSteps ":trace" = true := by decide +kernel
  have hlines : lines.filter (!asksForSteps ·) = lines'.filter (!asksForSteps ·) := by
    simp [lines, lines', htext, hstate, hoff, hask]
  exact ⟨hlines, (handle_detour writable_longest not_writable_twice_longest).1,
    (s.visited_of_filter_eq true hlines).1⟩

end Session

end LetterMachine
