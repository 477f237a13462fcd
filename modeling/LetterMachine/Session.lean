import LetterMachine.Display
import LetterMachine.Workspace
import LetterMachine.Text.Lowercase

/-!
# Sessions

A session takes one line at a time.  A line is empty, a comment, a command behind a colon, or
program text that runs from the state that the line before left.  A command does its work before
it shows the state, so that a state that cannot be shown has changed all the same.
-/

namespace LetterMachine

open LetterMachine.Text

structure Session where
  workspace : Workspace
  traced : Bool
  running : Bool

inductive Command where
  | help
  | state
  | seed (pairs : List String)
  | reset
  /-- Shows whether steps are shown, after switching that on or off. -/
  | trace (setting : Option Bool)
  | operators
  | quit

def Command.ofWords : List String → Answer Command
  | [] => .ok .help
  | word :: args =>
    match lowercase word with
    | "state" => .ok .state
    | "seed" => .ok (.seed args)
    | "reset" => .ok .reset
    | "trace" =>
      .ok (.trace (match args.head?.map lowercase with
        | some "on" => some true
        | some "off" => some false
        | _ => none))
    | "ops" => .ok .operators
    | "quit" | "exit" | "q" => .ok .quit
    | name => .error (.unknownCommand name)

namespace Session

def new (workspace : Workspace) (traced : Bool) : Session := ⟨workspace, traced, true⟩

/-- Works on the workspace, and then shows what came of it.  The work stands even where it cannot be
shown. -/
def working (s : Session) (work : Workspace.Work α) (shown : Workspace → α → Answer String) :
    Session × Answer String :=
  let (workspace, answer) := s.workspace.attempt work
  ({ s with workspace }, do shown workspace (← answer))

def obey (s : Session) : Command → Session × Answer String
  | .help => (s, .ok "Commands: :state :seed :reset :trace :ops :quit")
  | .state => (s, s.workspace.state.colouredTable none defaultColumns)
  | .seed pairs =>
    match Seed.readPairs pairs with
    | .error f => (s, .error f)
    | .ok table =>
      s.working (Workspace.seed (Seed.ofNames table)) fun w _ =>
        w.state.colouredTable (some s.workspace.state) defaultColumns
  | .reset => s.working Workspace.reset fun w _ => w.state.colouredTable none defaultColumns
  | .trace setting =>
    let traced := setting.getD s.traced
    ({ s with traced }, .ok ("trace " ++ if traced then "on" else "off"))
  | .operators => (s, .ok operatorTable)
  | .quit => ({ s with running := false }, .ok "Bye.")

def execute (s : Session) (text : String) : Session × Answer String :=
  s.working (Workspace.execute (.text text) s.traced none) fun _ outcome =>
    outcome.coloured s.workspace.state s.traced

/-- Takes a line, and gives the text that answers it. -/
def handle (s : Session) (line : String) : Session × Answer String :=
  match trim line.toList with
  | [] => (s, .ok "")
  -- a colon alone asks for help
  | ':' :: rest =>
    match Command.ofWords ((words rest).map String.ofList) with
    | .error f => (s, .error f)
    | .ok command => s.obey command
  | c :: rest =>
    if Token.opensComment c then (s, .ok "") else s.execute (String.ofList (c :: rest))

end Session

end LetterMachine
