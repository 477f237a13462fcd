import LetterMachine.Display
import LetterMachine.Seed

/-!
# The workspace

A workspace keeps a state from one run to the next, and the outcomes of the runs since the last
reset.  Work on it goes step by step: a step that is refused ends the work, and what the steps before
it have changed stays changed.
-/

namespace LetterMachine

structure Workspace where
  state : State
  limit : Datum
  history : Array Outcome

namespace Workspace

def ofSeed (seed : Seed) (limit : Datum) : Answer Workspace := return ⟨← seed.state, limit, #[]⟩

/-- Steps on a workspace.  Where they are refused, they leave it as it is by then. -/
abbrev Work := EStateM Fault Workspace

/-- An answer that the next step needs. -/
def need (a : Answer α) : Work α :=
  match a with
  | .ok x => pure x
  | .error f => throw f

/-- The workspace that the work leaves, and the answer to it. -/
def attempt (w : Workspace) (work : Work α) : Workspace × Answer α :=
  match work.run w with
  | .ok x next => (next, .ok x)
  | .error f next => (next, .error f)

def reset : Work Unit := do
  modify fun w => { w with state := State.zero }
  modify fun w => { w with history := #[] }

def seed (values : Seed) : Work Unit := do
  let state ← need (values.overlay (← get).state)
  modify fun w => { w with state }

/-- Runs a source from the state of the workspace, which moves on to the last state of the run. -/
def execute (source : Source) (traced : Bool) (limit : Option Datum) : Work Outcome := do
  let w ← get
  let outcome ← need (source.run w.state (limit.getD w.limit) traced)
  -- a run that was cut off at its limit counts too
  modify fun w => { w with state := outcome.final }
  modify fun w => { w with history := w.history.push outcome }
  return outcome

def register (name : Datum) : Work Int := do
  let i ← need (Slot.ofDatum name)
  return (← get).state.get i

def table : Work String := do
  need ((← get).state.table none defaultColumns)

inductive Call where
  | execute (source : Source) (traced : Bool) (limit : Option Datum)
  | seed (values : Seed)
  | reset
  | register (name : Datum)
  | table

inductive Reply where
  | nothing
  | outcome (o : Outcome)
  | number (n : Int)
  | text (s : String)
  deriving DecidableEq, Repr

def Call.work : Call → Work Reply
  | execute source traced limit => return .outcome (← Workspace.execute source traced limit)
  | seed values => do
    Workspace.seed values
    return .nothing
  | reset => do
    Workspace.reset
    return .nothing
  | register name => return .number (← Workspace.register name)
  | table => return .text (← Workspace.table)

def perform (w : Workspace) (call : Call) : Workspace × Answer Reply := w.attempt call.work

/-! ## Work by steps -/

section

variable {α β : Type} (w : Workspace)

theorem attempt_pure (x : α) : w.attempt (pure x) = (w, .ok x) := rfl

theorem attempt_bind (work : Work α) (next : α → Work β) :
    w.attempt (work >>= next) =
      match w.attempt work with
      | (w', .ok x) => w'.attempt (next x)
      | (w', .error f) => (w', .error f) := by
  have hbind : (work >>= next) w = EStateM.bind work next w := rfl
  unfold attempt EStateM.run
  rw [hbind]
  unfold EStateM.bind
  cases work w <;> rfl

theorem attempt_need (a : Answer α) : w.attempt (need a) = (w, a) := by
  cases a <;> rfl

theorem attempt_get : w.attempt get = (w, .ok w) := rfl

theorem attempt_modify (f : Workspace → Workspace) : w.attempt (modify f) = (f w, .ok ()) := rfl

end

end Workspace

end LetterMachine
