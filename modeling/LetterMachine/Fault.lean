import LetterMachine.Datum
import LetterMachine.Text.Column
import LetterMachine.Text.Place
import LetterMachine.Text.Utf8

/-!
# Faults

Everything that can be refused, by its cause, and what is said of it.
-/

namespace LetterMachine

open LetterMachine.Text

inductive AssemblyCause where
  | malformedToken
  | unknownOpcode
  | unexpectedOperand
  | missingOperand
  deriving DecidableEq, Repr

/-- A refused program: the cause, the token that is to blame, how many instructions (for a malformed
stretch of text: tokens) stand before it, and its place where it has one. -/
structure AssemblyFault where
  cause : AssemblyCause
  token : String
  position : Nat
  place : Option Place
  deriving DecidableEq, Repr

def AssemblyCause.message : AssemblyCause → String
  | malformedToken => "Malformed token"
  | unknownOpcode => "Unknown opcode"
  | unexpectedOperand => "Unexpected operand"
  | missingOperand => "Immediate operand missing"

def AssemblyFault.message (f : AssemblyFault) : String :=
  f.cause.message ++ ": " ++ quoted f.token ++ " at instruction " ++ Nat.repr f.position
    ++ match f.place with
      | some p => " (line " ++ Nat.repr p.line ++ ", column " ++ Nat.repr p.column ++ ")"
      | none => ""

inductive Fault where
  | divisionByZero
  | numeral (cause : Numeral.Fault)
  | slotRange (n : Int)
  | unknownRegister (name : Datum)
  | slotOutside
  | indexTooLarge
  | registerCount (count : Nat)
  | seedValue (key value : Datum)
  | seedLength (count : Nat)
  | seedForm (pair : String)
  | seedNumeral (pair : String)
  /-- A seed without its value, which an earlier reader of arguments leaves. -/
  | seedAbsent
  | compoundKey (key : Datum)
  | notIterable (datum : Datum)
  | notOpcode (datum : Datum)
  | badLimit (limit : Datum)
  | assembly (fault : AssemblyFault)
  | noColumns
  | unknownCommand (name : String)
  | limitReached (limit : Nat)
  /-- A title where there is no window. -/
  | noWindow
  /-- A machine that has been made to fail. -/
  | jammed (message : String)
  | missingFile (path : String)
  | directory (path : String)
  | notDirectory (path : String)
  | accessDenied (path : String)
  | nameTooLong (path : String)
  | nullInPath
  | undecodable (fault : Utf8Fault)

namespace Fault

/-- Does the fault lie in reaching a file, not in what it holds? -/
def isFileAccess : Fault → Bool
  | missingFile _ | directory _ | notDirectory _ | accessDenied _ | nameTooLong _ => true
  | _ => false

/-- Does the fault end a command untold, as nothing is prepared for it? -/
def isUnforeseen : Fault → Bool
  | seedAbsent | noWindow => true
  | _ => false

/-- The text, unless one of the numbers in it is too long to be written. -/
def unlessTooLong (numbers : List Int) (shown : String) : String :=
  match Numeral.guarded numbers shown with
  | .ok s => s
  | .error f => f.message

def utf8Message (f : Utf8Fault) : String :=
  let cause := match f.cause with
    | .start => "invalid start byte"
    | .continuation => "invalid continuation byte"
    | .cut => "unexpected end of data"
  let bytes :=
    if f.length == 1 then
      "byte 0x" ++ String.ofList (hex 2 f.byte.toNat) ++ " in position " ++ Nat.repr f.offset
    else
      "bytes in position " ++ Nat.repr f.offset ++ "-" ++ Nat.repr (f.offset + f.length - 1)
  "'utf-8' codec can't decode " ++ bytes ++ ": " ++ cause

def message : Fault → String
  | divisionByZero => "integer division or modulo by zero"
  | numeral cause => cause.message
  | slotRange n => unlessTooLong [n] ("Register index out of range: " ++ Numeral.text n)
  | unknownRegister name => unlessTooLong name.numbers ("Unknown register: " ++ name.shown)
  | slotOutside => "list assignment index out of range"
  | indexTooLarge => "cannot fit 'int' into an index-sized integer"
  | registerCount count => "State needs 23 registers, got " ++ Nat.repr count
  | seedValue key value =>
    unlessTooLong (key.numbers ++ value.numbers)
      ("Seed value for " ++ key.shown ++ " must be an integer, got " ++ value.shown)
  | seedLength count => "Seed has " ++ Nat.repr count ++ " values, at most 23 allowed"
  | seedForm pair => "Seed must look like NAME=VALUE, got " ++ quoted pair
  | seedNumeral pair => "Seed value must be an integer, got " ++ quoted pair
  | seedAbsent => "'list' object has no attribute 'partition'"
  | compoundKey key => "unhashable type: '" ++ key.kind ++ "'"
  | notIterable datum => "'" ++ datum.kind ++ "' object is not iterable"
  | notOpcode datum => unlessTooLong datum.numbers (datum.shown ++ " is not a valid Opcode")
  | badLimit limit =>
    unlessTooLong limit.numbers
      ("max_steps must be a non-negative integer, got " ++ limit.shown)
  | assembly fault => fault.message
  | noColumns => "range() arg 3 must not be zero"
  | unknownCommand name => "Unknown command: :" ++ name
  | limitReached limit => "Step limit of " ++ Nat.repr limit ++ " reached before program end"
  | noWindow => "'NoneType' object has no attribute 'set_title'"
  | jammed message => message
  | missingFile path => "[Errno 2] No such file or directory: " ++ quoted path
  | directory path => "[Errno 21] Is a directory: " ++ quoted path
  | notDirectory path => "[Errno 20] Not a directory: " ++ quoted path
  | accessDenied path => "[Errno 13] Permission denied: " ++ quoted path
  | nameTooLong path => "[Errno 36] File name too long: " ++ quoted path
  | nullInPath => "embedded null byte"
  | undecodable fault => utf8Message fault

end Fault

abbrev Answer (α : Type) := Except Fault α

/-- A text that shows the given numbers, unless one of them is too long to be written. -/
def shownWith (numbers : List Int) (shown : α) : Answer α :=
  (Numeral.guarded numbers shown).mapError Fault.numeral

end LetterMachine
