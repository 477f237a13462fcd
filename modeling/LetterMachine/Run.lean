import LetterMachine.Assembly
import LetterMachine.Operator

/-!
# Runs

A run applies the instructions of a program one by one, from an initial state, until the program
ends or the step limit stops it.  On demand it keeps a record of every step.
-/

namespace LetterMachine

structure Step where
  index : Nat
  instruction : Instruction
  before : State
  after : State
  deriving DecidableEq, Repr

inductive Status where
  | completed
  | stepLimit
  deriving DecidableEq, Repr

def Status.name : Status → String
  | completed => "completed"
  | stepLimit => "step_limit"

structure Outcome where
  final : State
  trace : Option (List Step)
  steps : Nat
  status : Status
  limit : Nat
  deriving DecidableEq, Repr

namespace Outcome

def exceeded (o : Outcome) : Bool := o.status == .stepLimit

/-- The outcome again, or a fault if the run was cut off. -/
def demand (o : Outcome) : Answer Outcome :=
  if o.exceeded then do throw (← shownWith [o.limit] (Fault.limitReached o.limit)) else .ok o

end Outcome

def defaultLimit : Nat := 100000

/-- The step limit that a datum is: a whole number that is not negative. -/
def Datum.limit (d : Datum) : Answer Nat :=
  match d.whole? with
  | some n => if 0 ≤ n then .ok n.toNat else .error (.badLimit d)
  | none => .error (.badLimit d)

/-- Runs the rest of a program, after so many steps and with their record.  The limit is looked at
only when there is an instruction left. -/
def Program.runFrom (limit : Nat) (s : State) (steps : Nat) (record : Option (Array Step)) :
    Program → Outcome
  | [] => ⟨s, record.map Array.toList, steps, .completed, limit⟩
  | i :: rest =>
    if limit ≤ steps then ⟨s, record.map Array.toList, steps, .stepLimit, limit⟩
    else
      -- the record holds a step before the next one is looked at
      let after := i.apply s
      Program.runFrom limit after (steps + 1) (record.map (·.push ⟨steps, i, s, after⟩)) rest

def Program.run (s : State) (p : Program) (limit : Nat) (traced : Bool) : Outcome :=
  Program.runFrom limit s 0 (if traced then some #[] else none) p

/-- Runs what a source spells.  The limit is checked first, and nothing runs unless all of the
source is a program. -/
def Source.run (s : State) (source : Source) (limit : Datum) (traced : Bool) : Answer Outcome := do
  let limit ← limit.limit
  return Program.run s (← source.program) limit traced

end LetterMachine
