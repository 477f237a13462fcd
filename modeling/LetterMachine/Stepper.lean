import LetterMachine.Directory
import LetterMachine.Run

/-!
# The stepper

A stepper holds a loaded program and applies it one instruction at a time, recording every step.  A
program that is refused leaves the stepper as it was.
-/

namespace LetterMachine

inductive Phase where
  | idle
  | running
  | done
  | limit
  deriving DecidableEq, Repr

def Phase.name : Phase → String
  | idle => "idle"
  | running => "running"
  | done => "done"
  | limit => "limit"

structure Stepper where
  initial : State
  limit : Nat
  program : Array Instruction
  state : State
  trace : Array Step
  pc : Nat
  phase : Phase
  deriving DecidableEq, Repr

namespace Stepper

def new (initial : State) (limit : Nat) : Stepper := ⟨initial, limit, #[], initial, #[], 0, .idle⟩

def ofLimit (initial : State) (limit : Datum) : Answer Stepper := return new initial (← limit.limit)

def steps (s : Stepper) : Nat := s.trace.size

def current (s : Stepper) : Option Instruction := s.program[s.pc]?

def reset (s : Stepper) : Stepper :=
  { s with state := s.initial, trace := #[], pc := 0, phase := .idle }

def load (s : Stepper) (p : Program) : Stepper := { s with program := p.toArray }.reset

def loadText (s : Stepper) (text : String) : Answer Stepper := return s.load (← Program.ofText text)

def loadSource (s : Stepper) (source : Source) : Answer Stepper := return s.load (← source.program)

/-- Loads a file.  The path is taken in its shortest spelling. -/
def loadFile (s : Stepper) (d : Directory) (path : String) : Answer Stepper := do
  s.loadText (← d.text (Directory.shortened path))

/-- Applies the next instruction, if there is one and the limit admits it.  The answer is whether
there is more to do. -/
def tick (s : Stepper) : Stepper × Bool :=
  if s.phase = .done ∨ s.phase = .limit then (s, false)
  else
    match s.program[s.pc]? with
    | none => ({ s with phase := .done }, false)
    | some i =>
      -- the limit is looked at only when there is an instruction to apply
      if s.limit ≤ s.steps then ({ s with phase := .limit }, false)
      else
        let after := i.apply s.state
        let next := s.pc + 1
        let more := next < s.program.size
        ({ s with
            state := after
            trace := s.trace.push ⟨s.pc, i, s.state, after⟩
            pc := next
            phase := if more then .running else .done }, more)

/-- Ticks until there is nothing more to do, at most so many times. -/
def tickFor : Nat → Stepper → Stepper
  | 0, s => s
  | n + 1, s =>
    match s.tick with
    | (next, true) => tickFor n next
    | (next, false) => next

/-- Ticks until there is nothing more to do: once for each instruction left, and once more to see
that none is. -/
def finish (s : Stepper) : Stepper := tickFor (s.program.size - s.pc + 1) s

/-- The outcome so far.  Only a stepper at its limit counts as cut off. -/
def outcome (s : Stepper) : Outcome :=
  ⟨s.state, some s.trace.toList, s.steps, if s.phase = .limit then .stepLimit else .completed,
    s.limit⟩

inductive Call where
  | loadText (text : String)
  | loadSource (source : Source)
  | loadFile (path : String)
  | tick
  | reset
  | finish
  | outcome

inductive Reply where
  | nothing
  | more (b : Bool)
  | outcome (o : Outcome)
  deriving DecidableEq, Repr

/-- The stepper with a program loaded, or as it was if the program is refused. -/
def loaded (s : Stepper) : Answer Stepper → Stepper × Answer Reply
  | .ok next => (next, .ok .nothing)
  | .error f => (s, .error f)

def perform (d : Directory) (s : Stepper) : Call → Stepper × Answer Reply
  | .loadText text => s.loaded (s.loadText text)
  | .loadSource source => s.loaded (s.loadSource source)
  | .loadFile path => s.loaded (s.loadFile d path)
  | .tick => (s.tick.1, .ok (.more s.tick.2))
  | .reset => (s.reset, .ok .nothing)
  | .finish => (s.finish, .ok (.outcome s.finish.outcome))
  | .outcome => (s, .ok (.outcome s.outcome))

end Stepper

end LetterMachine
