import LetterMachine.CommandLine

/-!
# The program

The first argument names the command, and the rest are its arguments.  All of these are tried as
paths before the command begins.
-/

namespace LetterMachine

namespace Directory

def entryAt (path : String) : IO Entry := do
  try return .file (← IO.FS.readBinFile path).toList
  catch
    -- a directory, or a path that goes on behind a file
    | .inappropriateType _ code _ => return if code == 21 then .directory else .behindFile
    | .permissionDenied .. => return .denied
    | .invalidArgument .. => return .tooLong
    | _ => return .nothing

/-- The names that lead to the same place without a way up. -/
def settled (row : List String) : List String :=
  row.foldl (fun inside name => if name == ".." then inside.dropLast else inside ++ [name]) []

/-- What paths lead to, with all directories on the way. -/
def ofPaths (paths : List String) : IO Directory := do
  let below := paths.filter fun path => !path.startsWith "/"
  let rows := below.flatMap fun path =>
    (List.range (names path).length).map fun n => (names path).take (n + 1)
  let inside ← rows.mapM fun row =>
    return ("/".intercalate (settled row), ← entryAt ("/".intercalate row))
  let all ← (paths ++ paths.map shortened).mapM fun path => return (path, ← entryAt path)
  let files := inside.filterMap fun (path, entry) =>
    match entry with
    | .file bytes => some (path, bytes)
    | _ => none
  let folders := inside.filterMap fun (path, entry) =>
    match entry with
    | .directory => some path
    | _ => none
  return ⟨files, folders, fun path => (all.lookup path).getD .nothing⟩

end Directory

def printReport (r : Report) : IO UInt32 := do
  IO.print r.output
  IO.eprint r.errors
  if let some f := r.fault then IO.eprintln f.message
  if let some launch := r.launch then
    let (d, _) := (Debugger.new launch.stepper launch.autoRun).act .mount
    IO.println d.programPanel
    IO.println d.registerPanel
    d.log.forM IO.println
  return r.status.toUInt32

partial def converse (e : Environment) (s : Session) : IO UInt32 := do
  IO.print Session.prompt
  (← IO.getStdout).flush
  let line ← (← IO.getStdin).getLine
  if line.isEmpty then
    IO.print Session.farewell
    return 0
  match s.reply e.print ((Session.inputLines line).headD "") with
  | (_, .error f) => do
    IO.eprintln f.message
    return 1
  | (next, .ok text) => do
    IO.print text
    if next.running then converse e next else return 0

end LetterMachine

open LetterMachine in
def main (args : List String) : IO UInt32 := do
  match args with
  | [] => printReport (.failed 2 "usage: COMMAND [ARGUMENT ...]\n")
  | name :: args =>
    let e : Environment := ⟨← Directory.ofPaths args, printLine, .current⟩
    match Tool.ofName? name with
    | none => printReport (.failed 2 ("unknown command: " ++ name ++ "\n"))
    | some .session =>
      match Session.task e args with
      | .done report => printReport report
      | .converse s => do
        IO.print Session.banner
        converse e s
    | some tool => printReport (tool.report e args "")
