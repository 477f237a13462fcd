import LetterMachine.Instruction
import LetterMachine.Token
import LetterMachine.Word

/-!
# Assembly

A program is assembled from tokens.  A word gives one instruction for each opcode it means; an
immediate opcode has to be the last of its word and takes the number that follows.  Assembly is all
or nothing: the first token that does not fit is refused, and no program comes of it.
-/

namespace LetterMachine

open LetterMachine.Text

inductive Piece where
  | instruction (i : Instruction)
  | token (t : Token)
  | empty (text : String)
  deriving DecidableEq, Repr

/-- A program in the making: the instructions so far, and the immediate opcode that waits for its
operand, with the word it comes from. -/
structure Linker where
  program : Array Instruction
  waiting : Option (Opcode × Token)
  deriving DecidableEq, Repr

namespace Linker

def start : Linker := ⟨#[], none⟩

def blame (l : Linker) (cause : AssemblyCause) (t : Token) : Answer α :=
  .error (.assembly ⟨cause, t.text, l.program.size, t.place⟩)

def add (l : Linker) (i : Instruction) : Linker := { l with program := l.program.push i }

def addMeaning (l : Linker) (t : Token) : Word.Meaning → Answer Linker
  | [] => .ok l
  -- only the last opcode of a word has a number behind it that it can take
  | [(op, .immediate)] => .ok { l with waiting := some (op, t) }
  | (_, .immediate) :: _ => l.blame .missingOperand t
  | (op, mode) :: rest => addMeaning (l.add ⟨op, mode, 0⟩) t rest

def feed (l : Linker) : Piece → Answer Linker
  | .empty text => l.blame .malformedToken ⟨.word, text, none⟩
  | .instruction i =>
    match l.waiting with
    -- the word that opened the operand is to blame, not what stands in its place
    | some (_, t) => l.blame .missingOperand t
    | none => .ok (l.add i)
  | .token t =>
    match t.kind, l.waiting with
    | .number, none => l.blame .unexpectedOperand t
    | .number, some (op, _) => do
      return { (l.add ⟨op, .immediate, ← t.value⟩) with waiting := none }
    | .word, some (_, waiting) => l.blame .missingOperand waiting
    | .word, none =>
      match Word.meaning? t.text.toList with
      | none => l.blame .unknownOpcode t
      | some meaning => l.addMeaning t meaning

def feedAll (l : Linker) (pieces : List Piece) : Answer Linker := pieces.foldlM feed l

/-- The program, if no opcode waits for its operand. -/
def finish (l : Linker) : Answer Program :=
  match l.waiting with
  | some (_, t) => l.blame .missingOperand t
  | none => .ok l.program.toList

end Linker

def Program.ofTokens (ts : List Token) : Answer Program := do
  (← Linker.start.feedAll (ts.map .token)).finish

def Program.ofText (s : String) : Answer Program := do
  Program.ofTokens (← Token.ofText s)

inductive Item where
  | opcode (op : Opcode)
  | instruction (i : Instruction)
  /-- A datum: a text is a piece of a program, a whole number an operand. -/
  | datum (d : Datum)

def Item.pieces : Item → Answer (List Piece)
  | .opcode op => .ok [.instruction (.ofOpcode op)]
  | .instruction i => .ok [.instruction i]
  | .datum (.whole n) => do
    return [.token ⟨.number, ← (Numeral.write n).mapError Fault.numeral, none⟩]
  | .datum (.text s) =>
    let run := trim s.toList
    -- a text that is one token keeps its spelling, and any other text is scanned
    if Token.isNumber run then .ok [.token ⟨.number, String.ofList run, none⟩]
    else if !run.isEmpty && run.all Token.isInside then
      .ok [.token ⟨.word, String.ofList run, none⟩]
    else do
      match ← Token.ofText s with
      | [] => return [.empty s]
      | tokens => return tokens.map .token
  | .datum d => do return [.token ⟨.word, ← shownWith d.numbers d.shown, none⟩]

def Item.instruction? : Item → Option Instruction
  | .instruction i => some i
  | _ => none

/-- The instruction that an item stands for by itself: a number stands for the opcode it numbers. -/
def Item.single : Item → Answer Instruction
  | .opcode op => .ok (.ofOpcode op)
  | .instruction i => .ok i
  | .datum d => return .ofOpcode (← Opcode.ofDatum d)

/-- The program that items spell.  An item is looked at only when everything before it fits. -/
def Program.ofItems (items : List Item) : Answer Program := do
  (← items.foldlM (fun l item => do l.feedAll (← item.pieces)) Linker.start).finish

inductive Source where
  | text (s : String)
  | items (items : List Item)
  /-- Any other datum: texts and lists stand above. -/
  | other (d : Datum) (h : d.isRow = false)

def Source.isEmpty : Source → Bool
  | text s => s == ""
  | items xs => xs.isEmpty
  | other _ _ => false

namespace Source

def toItems : Source → Answer (List Item)
  | .text s => .ok (s.toList.map fun c => .datum (.text (String.singleton c)))
  | .items row => .ok row
  -- a table counts as the list of its keys
  | .other (.table entries) _ => .ok (entries.map fun (k, _) => .datum (.text k))
  | .other d _ => .error (.notIterable d)

def assemble : Source → Answer Program
  | text s => Program.ofText s
  | source => do Program.ofItems (← source.toItems)

/-- The program of a source that may be a program already: a list of instructions is taken as it
is. -/
def program : Source → Answer Program
  | text s => Program.ofText s
  | source => do
    let row ← source.toItems
    match row.mapM Item.instruction? with
    | some p => return p
    | none => Program.ofItems row

end Source

namespace Item

def numbers : Item → List Int
  | opcode _ => []
  | instruction i => i.numbers
  | datum (.text _) => []
  | datum d => d.numbers

/-- The written form: an instruction is spelt, a text stands for itself. -/
def text : Item → String
  | opcode op => (Instruction.ofOpcode op).text
  | instruction i => i.text
  | datum (.text s) => s
  | datum d => d.shown

def listing (items : List Item) : Answer String :=
  shownWith (items.flatMap numbers) (" ".intercalate (items.map text))

end Item

def Program.text (p : Program) : String := " ".intercalate (p.map Instruction.text)

def Program.listing (p : Program) : Answer String :=
  shownWith (p.flatMap Instruction.numbers) p.text

end LetterMachine
