import LetterMachine.Display
import LetterMachine.Stepper

/-!
# The debugger

A debugger shows a stepper in three panels: the program with the next instruction marked, the
registers, and a log with one line for each step.  Panels keep their text until it is shown anew;
where a text cannot be written, the panels behind it stay as they were.
-/

namespace LetterMachine

open LetterMachine.Text

structure Debugger where
  stepper : Stepper
  /-- Does the program run as soon as the panels stand? -/
  autoRun : Bool
  breakpoints : List Int
  jam : Option String
  logged : Nat
  limitTold : Bool
  programPanel : String
  registerPanel : String
  log : Array String
  errors : Array String

namespace Debugger

def new (stepper : Stepper) (autoRun : Bool) : Debugger :=
  ⟨stepper, autoRun, [], none, 0, false, "", "", #[], #[]⟩

/-- A text in which no bracket opens a style. -/
def unstyled (s : String) : String :=
  String.ofList (s.toList.flatMap fun c => if c = '[' then [backslash, '['] else [c])

def styled (style s : String) : String := "[" ++ style ++ "]" ++ s ++ "[/" ++ style ++ "]"

def programLine (d : Debugger) (place : Nat) (i : Instruction) : String :=
  let atPc := place = d.stepper.pc
  let line := (if (place : Int) ∈ d.breakpoints then "●" else " ") ++ (if atPc then "▸" else " ")
    ++ " " ++ atRight 3 (Nat.repr place) ++ "│ " ++ i.text ++ "  " ++ i.op.name.map Char.toLower
    ++ (if i.mode = .plain then "" else " (" ++ i.mode.name ++ ")")
  if atPc then styled "bold reverse" (unstyled line) else unstyled line

def programText (d : Debugger) : String :=
  let program := d.stepper.program.toList
  if program.isEmpty then "(no program loaded)"
  else lines (program.mapIdx fun place i => d.programLine place i)

def registerRow (d : Debugger) (changed : List Slot) (i : Slot) : String :=
  let x := d.stepper.state.get i
  let row := atRight 2 i.name ++ " " ++ atRight 8 (Numeral.text x)
    ++ "  r=" ++ atRight 2 (Numeral.text (residue x))
    ++ "  b=" ++ atRight 3 (Numeral.text (balanced x))
  let row := if i = Slot.acc then styled "bold" row else row
  if changed.contains i then styled "green" row else row

def lastChanged (s : Stepper) : List Slot :=
  match s.trace.back? with
  | some t => t.changed
  | none => []

def registerText (d : Debugger) : String :=
  let s := d.stepper
  let head := styled "bold" "Step:" ++ " " ++ Nat.repr s.steps ++ "/" ++ Nat.repr s.program.size
    ++ "  " ++ styled "bold" "PC:" ++ " " ++ Nat.repr s.pc
    ++ "  " ++ styled "bold" "Phase:" ++ " " ++ s.phase.name
    ++ "  " ++ styled "bold" "Limit:" ++ " " ++ Nat.repr s.limit
  lines (head :: "" :: Slot.all.map (d.registerRow (lastChanged s)))

/-- What an action leaves behind: the debugger, and whether something was refused. -/
abbrev Result := Debugger × Answer Unit

/-- One action and then another, unless something is refused. -/
def Result.andThen (r : Result) (next : Debugger → Result) : Result :=
  match r with
  | (d, .ok ()) => next d
  | (d, .error f) => (d, .error f)

def showing (d : Debugger) (text : Answer String) (put : String → Debugger) : Result :=
  match text with
  | .ok s => (put s, .ok ())
  | .error f => (d, .error f)

def refreshProgram (d : Debugger) : Result :=
  d.showing (shownWith (d.stepper.program.toList.flatMap Instruction.numbers) d.programText)
    fun s => { d with programPanel := s }

def refreshRegisters (d : Debugger) : Result :=
  d.showing (shownWith ((d.stepper.limit : Int) :: d.stepper.state.toList) d.registerText)
    fun s => { d with registerPanel := s }

def logSteps (d : Debugger) : List Step → Result
  | [] => (d, .ok ())
  | t :: rest =>
    match t.writtenLine with
    | .ok line => logSteps { d with log := d.log.push (unstyled line), logged := d.logged + 1 } rest
    | .error f => (d, .error f)

def clearStale (d : Debugger) : Debugger :=
  if d.logged > d.stepper.steps then { d with log := #[], logged := 0, limitTold := false } else d

def tellLimit (d : Debugger) : Result :=
  if d.stepper.phase = .limit ∧ !d.limitTold then
    let told := { d with limitTold := true }
    told.showing (shownWith [(d.stepper.limit : Int)]
        (styled "red" ("Step limit of " ++ Nat.repr d.stepper.limit ++ " reached")))
      fun s => { told with log := told.log.push s }
  else (d, .ok ())

def refreshLog (d : Debugger) : Result :=
  -- a restarted program has fewer steps than the log tells of
  let d := d.clearStale
  (d.logSteps (d.stepper.trace.toList.drop d.logged)).andThen tellLimit

def refresh (d : Debugger) : Result :=
  (d.refreshProgram.andThen refreshRegisters).andThen refreshLog

/-- Keeps a fault, ends the program, and shows everything with the fault in the log. -/
def tellFault (d : Debugger) (f : Fault) : Result :=
  let d := { d with
    errors := d.errors.push f.message, stepper := { d.stepper with phase := .done } }
  d.refresh.andThen fun d =>
    ({ d with log := d.log.push (styled "red" ("\\[ERROR] " ++ unstyled f.message)) }, .ok ())

/-- Ends a row of steps by showing everything, or by reporting the fault that ended it. -/
def settle : Result → Result
  | (d, .ok ()) => d.refresh
  | (d, .error f) => d.tellFault f

def atBreakpoint (d : Debugger) : Bool := (d.stepper.pc : Int) ∈ d.breakpoints

/-- Ticks once.  The answer is whether to go on: there is more to do, and no breakpoint ahead. -/
def advance (d : Debugger) : Debugger × Answer Bool :=
  match d.jam with
  | some message => (d, .error (.jammed message))
  | none =>
    let (stepper, more) := d.stepper.tick
    let d := { d with stepper }
    (d, .ok (more && !d.atBreakpoint))

/-- Ticks at most so many times, up to a breakpoint. -/
def advanceFor : Nat → Debugger → Result
  | 0, d => (d, .ok ())
  | n + 1, d =>
    match d.advance with
    | (d, .ok true) => advanceFor n d
    | (d, .ok false) => (d, .ok ())
    | (d, .error f) => (d, .error f)

/-- Ticks up to the end or a breakpoint, and shows everything after every five hundred ticks. -/
def runFor : (fuel ticks : Nat) → Debugger → Result
  | 0, _, d => (d, .ok ())
  | fuel + 1, ticks, d =>
    match d.advance with
    | (d, .ok true) =>
      if (ticks + 1) % 500 = 0 then d.refresh.andThen (runFor fuel (ticks + 1))
      else runFor fuel (ticks + 1) d
    | (d, .ok false) => (d, .ok ())
    | (d, .error f) => (d, .error f)

inductive Action where
  | mount
  | steps (count : Nat)
  | run
  | toggle
  | restart
  | addBreakpoint (place : Int)
  | jam (message : String)

def withBreakpoint (place : Int) : List Int → List Int
  | [] => [place]
  | p :: rest =>
    if place < p then place :: p :: rest
    else if place = p then p :: rest
    else p :: withBreakpoint place rest

def stepBy (d : Debugger) (count : Nat) : Result := settle (advanceFor count d)

def run (d : Debugger) : Result :=
  settle (runFor (d.stepper.program.size - d.stepper.pc + 1) 0 d)

def toggle (d : Debugger) : Result :=
  let place : Int := d.stepper.pc
  let breakpoints :=
    if place ∈ d.breakpoints then d.breakpoints.filter (· != place)
    else withBreakpoint place d.breakpoints
  { d with breakpoints }.refreshProgram

def act (d : Debugger) : Action → Result
  -- the panels are filled before the program runs
  | .mount => d.refresh.andThen fun d => if d.autoRun then d.run else (d, .ok ())
  | .steps count => d.stepBy count
  | .run => d.run
  | .toggle => d.toggle
  | .restart => { d with stepper := d.stepper.reset }.refresh
  | .addBreakpoint place =>
    ({ d with breakpoints := withBreakpoint place d.breakpoints }, .ok ())
  | .jam message => ({ d with jam := some message }, .ok ())

end Debugger

end LetterMachine
