import LetterMachine.Debugger
import LetterMachine.Options
import LetterMachine.Session

/-!
# Commands

What the commands answer to their arguments: the text they print, the errors they report, and the
status they end with.  The files, the printing and the reader of arguments are those that a command
finds around it.
-/

namespace LetterMachine

open LetterMachine.Text

/-- What a command finds around it: the files, what comes of a text that is printed, and the release
of the reader of arguments. -/
structure Environment where
  directory : Directory
  print : String → Answer String
  release : Release

/-- What commands rely on in printing where the output is no terminal: a text without commands to the
terminal is printed without its colours, on lines of its own. -/
structure PrintsPlain (print : String → Answer String) : Prop where
  print_eq : ∀ s, NoCommand s → ∃ text, uncoloured s = some text ∧ print s = .ok (text ++ "\n")

/-- Printing that takes all terminal codes out of a text, and refuses one that sets the title of a
window. -/
def printLine (s : String) : Answer String :=
  match uncoloured s with
  | some text => .ok (text ++ "\n")
  | none => .error .noWindow

/-- The debugger as a command starts it: its program in written form, the first state, the limit,
and whether it runs at once. -/
structure Launch where
  autoRun : Bool
  stepper : Stepper

structure Report where
  status : Nat
  output : String
  errors : String
  fault : Option Fault
  launch : Option Launch

namespace Report

def printed (output : String) : Report := ⟨0, output, "", none, none⟩

def failed (status : Nat) (errors : String) : Report := ⟨status, "", errors, none, none⟩

def refused (message : String) : Report := failed 1 ("Error: " ++ message ++ "\n")

def broken (f : Fault) : Report := ⟨1, "", "", some f, none⟩

/-- An end with a fault, which is told if it was foreseen. -/
def ofFault (f : Fault) : Report := if f.isUnforeseen then broken f else refused f.message

def launched (launch : Launch) : Report := ⟨0, "", "", none, some launch⟩

end Report

/-- A command that reads options: its name, how it is used, its further help, and its options. -/
structure Manual where
  name : String
  usage : String
  help : String
  names : OptionNames

def Manual.session : Manual where
  name := "ivrit-repl"
  usage := lines [
    "usage: ivrit-repl [-h] [-e EXPR] [--seed NAME=VALUE] [--trace]",
    "                  [--max-steps MAX_STEPS]",
    "                  [file]",
    ""]
  help := lines [
    "",
    "IvritCode register machine REPL",
    "",
    "positional arguments:",
    "  file                  Program file to run",
    "",
    "options:",
    "  -h, --help            show this help message and exit",
    "  -e EXPR, --expr EXPR  Program text to run",
    "  --seed NAME=VALUE     Initial register value (repeatable)",
    "  --trace               Print every step",
    "  --max-steps MAX_STEPS",
    "                        Step ceiling (default 100000)",
    ""]
  names := [("-h", .help), ("--help", .help), ("-e", .expr), ("--expr", .expr), ("--seed", .seed),
    ("--trace", .trace), ("--max-steps", .maxSteps)]

def Manual.debugger : Manual where
  name := "ivrit-debugger"
  usage := lines [
    "usage: ivrit-debugger [-h] [-e EXPR] [--seed NAME=VALUE]",
    "                      [--max-steps MAX_STEPS] [--run]",
    "                      [file]",
    ""]
  help := lines [
    "",
    "IvritCode machine TUI debugger",
    "",
    "positional arguments:",
    "  file                  Path to a program file",
    "",
    "options:",
    "  -h, --help            show this help message and exit",
    "  -e EXPR, --expr EXPR  Program text to debug",
    "  --seed NAME=VALUE     Initial register value (repeatable)",
    "  --max-steps MAX_STEPS",
    "                        Step ceiling (default 100000)",
    "  --run                 Run to completion immediately (auto-run mode)",
    ""]
  names := [("-h", .help), ("--help", .help), ("-e", .expr), ("--expr", .expr), ("--seed", .seed),
    ("--max-steps", .maxSteps), ("--run", .run)]

def Manual.refuse (m : Manual) (message : String) : Report :=
  .failed 2 (m.usage ++ m.name ++ ": error: " ++ message ++ "\n")

structure Settings where
  file : Option String
  expr : Option Source
  seeds : List (Option String)
  traced : Bool
  limit : Datum
  autoRun : Bool

namespace Settings

def default : Settings := ⟨none, none, [], false, .whole defaultLimit, false⟩

/-- The settings after a request: help and a limit that is no number end the reading. -/
def take (m : Manual) (s : Settings) : Request → Except Report Settings
  | .option .help _ => .error (.printed (m.usage ++ m.help))
  | .option .expr (some text) => .ok { s with expr := some (.text text) }
  | .option .expr none => .ok { s with expr := some (.items []) }
  | .option .seed value => .ok { s with seeds := s.seeds ++ [value] }
  | .option .trace _ => .ok { s with traced := true }
  | .option .maxSteps none => .ok { s with limit := .list [] }
  | .option .maxSteps (some numeral) =>
    match Numeral.read numeral with
    | .ok n => .ok { s with limit := .whole n }
    | .error _ =>
      .error (m.refuse (OptionNames.complaint .maxSteps ("invalid int value: " ++ quoted numeral)))
  | .option .run _ => .ok { s with autoRun := true }
  | .file name => .ok { s with file := some name }

def ofArguments (release : Release) (m : Manual) (args : List String) :
    Except Report Settings := do
  let read := m.names.read release args
  let s ← read.requests.foldlM (take m) default
  match read.refusal, read.extras with
  | some message, _ => .error (m.refuse message)
  | none, [] => return s
  | none, extras => .error (m.refuse ("unrecognized arguments: " ++ " ".intercalate extras))

def file? (s : Settings) : Option String := s.file.filter (· != "")

/-- The source that is given: a file goes before a text. -/
def source? (s : Settings) (d : Directory) : Option (Answer Source) :=
  match s.file? with
  | some path => some ((d.text path).map .text)
  | none => s.expr.map .ok

def lacksProgram (s : Settings) : Bool := s.file?.isNone && (s.expr.all Source.isEmpty)

/-- The register and the value of a seed, which must not be left out. -/
def seedPair : Option String → Answer (String × Int)
  | some pair => Seed.readPair pair
  | none => .error .seedAbsent

def seed (s : Settings) : Answer Seed :=
  return .ofNames (Table.ofPairs (· == ·) (← s.seeds.mapM seedPair))

def workspace (s : Settings) : Answer Workspace := do
  Workspace.ofSeed (← s.seed) s.limit

def stepper (s : Settings) : Answer Stepper := do
  Stepper.ofLimit (← (← s.seed).state) s.limit

end Settings

namespace Session

def banner : String := lines [
  "IvritCode REPL",
  "  22 letter registers א..ת + accumulator A, arithmetic mod 22",
  "  Type :ops for the operators, :quit or Ctrl-D to exit",
  "",
  ""]

def prompt : String := "ivrit> "

def farewell : String := "\nBye.\n"

def reply (print : String → Answer String) (s : Session) (line : String) :
    Session × Answer String :=
  match s.handle line with
  | (s, .ok "") => (s, .ok "")
  | (s, .ok text) => (s, print text)
  | (s, .error f) => (s, print (red ++ "Error: " ++ f.message ++ plain))

/-- What is printed in answer to lines, until the conversation ends, and the fault that ends it if
an answer cannot be printed. -/
def converse (print : String → Answer String) (s : Session) :
    List String → String × Option Fault
  | [] => (prompt ++ farewell, none)
  | line :: rest =>
    match s.reply print line with
    | (_, .error f) => (prompt, some f)
    | (next, .ok text) =>
      if next.running then
        let (more, fault) := converse print next rest
        (prompt ++ text ++ more, fault)
      else (prompt ++ text, none)

/-- The lines of an input.  Behind the last line end there is a line only if something stands
there. -/
def inputLines (input : String) : List String :=
  let rows := (String.ofList (unixLines input.toList)).splitOn "\n"
  if rows.getLast? = some "" then rows.dropLast else rows

end Session

inductive Task where
  | converse (s : Session)
  | done (r : Report)

/-- The end of a session that ran one program: its outcome, unless that cannot be shown. -/
def Report.ofRun (print : String → Answer String) (previous : State) (traced : Bool)
    (o : Outcome) : Report :=
  match (do print (← o.coloured previous traced)) with
  | .error f => .broken f
  | .ok text =>
    -- what was reached is printed all the same
    if o.exceeded then
      ⟨2, text, "Stopped at step limit " ++ Nat.repr o.limit ++ "\n", none, none⟩
    else .printed text

def Session.task (e : Environment) (args : List String) : Task :=
  match Settings.ofArguments e.release .session args with
  | .error report => .done report
  | .ok settings =>
    match settings.workspace with
    | .error f => .done (.ofFault f)
    | .ok workspace =>
      match settings.source? e.directory with
      | none => .converse (.new workspace settings.traced)
      | some source =>
        let work := source.map fun source => Workspace.execute source settings.traced none
        match (do (workspace.attempt (← work)).2) with
        | .error f => .done (.ofFault f)
        | .ok outcome => .done (.ofRun e.print workspace.state settings.traced outcome)

def Session.report (e : Environment) (args : List String) (input : String) : Report :=
  match Session.task e args with
  | .done report => report
  | .converse s =>
    match s.converse e.print (Session.inputLines input) with
    | (text, none) => .printed (Session.banner ++ text)
    | (text, some f) => { Report.broken f with output := Session.banner ++ text }

/-- The program of a debugger: a file that has to exist, or a text. -/
def Debugger.load (d : Directory) (s : Stepper) (settings : Settings) : Except Report Stepper :=
  let told := fun (r : Answer Stepper) => r.mapError fun f : Fault =>
    -- a file that is there and cannot be read is no refusal of its program
    if f.isFileAccess then Report.broken f else Report.refused f.message
  match settings.file? with
  | none => told (s.loadSource (settings.expr.getD (.items [])))
  | some file =>
    let path := Directory.shortened file
    match d.entry path with
    | .nothing | .behindFile | .null => .error (.refused ("File not found: " ++ path))
    | .file _ | .directory | .denied | .tooLong => told (s.loadFile d file)

def Debugger.report (e : Environment) (args : List String) : Report :=
  match Settings.ofArguments e.release .debugger args with
  | .error report => report
  | .ok settings =>
    if settings.lacksProgram then
      Manual.refuse .debugger "Provide a program file or -e program"
    else
      match settings.stepper with
      | .error f => .ofFault f
      | .ok stepper =>
        match Debugger.load e.directory stepper settings with
        | .error report => report
        | .ok stepper => .launched ⟨settings.autoRun, stepper⟩

def Instruction.listingLine (place : Nat) (i : Instruction) : String :=
  atRight 3 (Nat.repr place) ++ "  " ++ atLeft 7 i.op.name ++ " " ++ atLeft 6 i.mode.name ++ " "
    ++ Numeral.text i.operand ++ "\n"

def Program.report (args : List String) : Report :=
  let text := " ".intercalate args
  match Program.ofText (if text = "" then "א ב ג סבב" else text) with
  | .error f => .broken f
  | .ok p => .printed (String.join (p.mapIdx Instruction.listingLine))

def Opcode.report : Report :=
  .printed (Nat.repr Opcode.base.length ++ " base opcodes + " ++ Opcode.roundSymbol ++ "\n"
    ++ String.join (Opcode.all.map fun op =>
      "  " ++ atRight 2 (Nat.repr op.number) ++ "  " ++ atRight 3 op.symbol ++ "  " ++ op.name
        ++ "\n"))

/-- The arithmetic at a few numbers, as it has to be. -/
def arithmeticHolds : Bool :=
  [0, 10, 11, 21, 22, -1].map balanced == [0, 10, -11, -1, 0, -1] && residue (-3) == 19
    && (-7 : Int).tdiv 2 == -3 && (7 : Int).tdiv 2 == 3

def arithmeticReport : Report :=
  if arithmeticHolds then .printed "Ring spot-checks passed.\n" else .failed 1 ""

inductive Tool where
  | session
  | debugger
  | assembler
  | opcodes
  | ring
  deriving DecidableEq, Repr

namespace Tool

def ofName? : String → Option Tool
  | "ivrit-repl" => some session
  | "ivrit-debugger" => some debugger
  | "assemble" => some assembler
  | "opcodes" => some opcodes
  | "ring" => some ring
  | _ => none

def report (tool : Tool) (e : Environment) (args : List String) (input : String) : Report :=
  match tool with
  | session => Session.report e args input
  | debugger => Debugger.report e args
  | assembler => Program.report args
  | opcodes => Opcode.report
  | ring => arithmeticReport

end Tool

end LetterMachine
