import LetterMachine.Text.Digit

/-!
# Terminal codes

Colours are switched on and off by control sequences: escape, `[`, numbers between semicolons, and
a letter.  Commands to the terminal begin with escape and `]` and end with a bell; one of them sets
the title of a window.  Where the output is no terminal, sequences and commands are taken out again,
and there is no window to give a title to.
-/

namespace LetterMachine.Text

def yellow : String := "\x1b[33m"

def cyan : String := "\x1b[36m"

def red : String := "\x1b[31m"

def bright : String := "\x1b[1m"

def plain : String := "\x1b[0m"

def isParameter (c : Char) : Bool :=
  isDecimal c || c == ';'

/-- The length of a control sequence at the front, or zero where there is none.  A mark of invisible
text, `U+0001` before it or `U+0002` behind it, belongs to the sequence. -/
def colourLength (cs : List Char) : Nat :=
  let opened := cs.head? == some '\x01'
  match (if opened then cs.tail else cs) with
  | '\x1b' :: '[' :: rest =>
    match rest.dropWhile isParameter with
    | c :: behind =>
      if c.isAlpha then
        opened.toNat + 2 + (rest.takeWhile isParameter).length + 1
          + (behind.head? == some '\x02').toNat
      else 0
    | [] => 0
  | _ => 0

structure TerminalCommand where
  start : Nat
  length : Nat
  body : List Char

namespace TerminalCommand

/-- The command at the front of what stands at a place: escape, `]`, and all up to a bell.  Marks of
invisible text around it belong to it. -/
def atFront? (start : Nat) (cs : List Char) : Option TerminalCommand :=
  let opened := cs.head? == some '\x01'
  match (if opened then cs.tail else cs) with
  | '\x1b' :: ']' :: rest =>
    let body := rest.takeWhile (· != '\x07')
    match rest.dropWhile (· != '\x07') with
    | _ :: behind =>
      some ⟨start, opened.toNat + 2 + body.length + 1 + (behind.head? == some '\x02').toNat, body⟩
    | [] => none
  | _ => none

/-- The commands among the characters that stand at a place, after the first `skip`. -/
def allFrom : (start skip : Nat) → List Char → List TerminalCommand
  | _, _, [] => []
  | start, skip + 1, _ :: rest => allFrom (start + 1) skip rest
  | start, 0, c :: rest =>
    match atFront? start (c :: rest) with
    | none => allFrom (start + 1) 0 rest
    | some command => command :: allFrom (start + 1) (command.length - 1) rest

/-- Does the command set a title?  It says so by a number and the title, between them the only
semicolon; the number is 0, 2 or 02, and may be left out. -/
def setsTitle (command : TerminalCommand) : Bool :=
  command.body.count ';' == 1
    && ["", "0", "2", "02"].contains (String.ofList (command.body.takeWhile (· != ';')))

def takeOut (cs : List Char) (command : TerminalCommand) : List Char :=
  cs.take command.start ++ cs.drop (command.start + command.length)

end TerminalCommand

/-- A text without its commands, unless one of them sets a title.  Each is taken out at the place
where it stood in the whole text, also when others before it are gone already. -/
def withoutCommands (cs : List Char) : Option (List Char) :=
  let commands := TerminalCommand.allFrom 0 0 cs
  if commands.any TerminalCommand.setsTitle then none
  else some (commands.foldl TerminalCommand.takeOut cs)

/-- A text without the bracket that a command to the terminal begins with. -/
def NoCommand (s : String) : Prop := ']' ∉ s.toList

instance (s : String) : Decidable (NoCommand s) := inferInstanceAs (Decidable (_ ∉ _))

/-- The characters after the first `skip`, without the stretches that `length` measures. -/
def dropStretches (length : List Char → Nat) : (skip : Nat) → List Char → List Char
  | _, [] => []
  | skip + 1, _ :: rest => dropStretches length skip rest
  | 0, c :: rest =>
    match length (c :: rest) with
    | 0 => c :: dropStretches length 0 rest
    | n + 1 => dropStretches length n rest

/-- A text without terminal codes, unless it sets a title. -/
def uncoloured (s : String) : Option String :=
  (withoutCommands s.toList).map fun cs => String.ofList (dropStretches colourLength 0 cs)

end LetterMachine.Text
