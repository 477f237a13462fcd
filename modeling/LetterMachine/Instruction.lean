import LetterMachine.Opcode

/-!
# Instructions

An instruction is an opcode in a mode, with an operand that only immediate mode shows.  It is
written with its symbol, the vowel mark of its mode, and the operand behind a blank.
-/

namespace LetterMachine

structure Instruction where
  op : Opcode
  mode : Mode
  operand : Int
  deriving DecidableEq, Repr, Inhabited

abbrev Program := List Instruction

namespace Instruction

def ofOpcode (op : Opcode) : Instruction := ⟨op, .plain, 0⟩

def numbers (i : Instruction) : List Int :=
  match i.mode with
  | .immediate => [i.operand]
  | _ => []

def text (i : Instruction) : String :=
  match i.mode with
  | .plain => i.op.symbol
  | .query => i.op.symbol.push Mode.sheva
  | .immediate => i.op.symbol.push Mode.hiriq ++ " " ++ Numeral.text i.operand

end Instruction

end LetterMachine
