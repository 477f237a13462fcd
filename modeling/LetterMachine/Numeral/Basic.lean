import LetterMachine.Text.Blank
import LetterMachine.Text.Digit
import LetterMachine.Text.Quoted

/-!
# Numerals

Whole numbers are read from and written in decimal notation, with at most `digitLimit` digits either
way.  The reader takes the decimal digits of every script, blanks on both sides, a sign, and single
underscores between digits; the writer uses plain digits.
-/

namespace LetterMachine.Numeral

open LetterMachine.Text

def digitLimit : Nat := 4300

inductive Fault where
  | malformed (literal : String)
  | tooManyDigits (count : Nat)
  | tooLong
  deriving DecidableEq, Repr

def Writable (n : Int) : Prop := n.natAbs < Nat.pow 10 digitLimit

instance (n : Int) : Decidable (Writable n) := inferInstanceAs (Decidable (_ < _))

def text (n : Int) : String :=
  if n < 0 then "-" ++ Nat.repr n.natAbs else Nat.repr n.natAbs

/-- A text that shows the given numbers can be written only if each of them can. -/
def guarded (numbers : List Int) (shown : α) : Except Fault α :=
  if ∀ n ∈ numbers, Writable n then .ok shown else .error .tooLong

def write (n : Int) : Except Fault String := guarded [n] (text n)

/-- The blanks that may stand around a numeral: separators are not among them. -/
def isMargin (c : Char) : Bool := isBlank c && !isSeparator c

/-- The sign in front of a numeral, if there is one, and what follows it. -/
def splitSign : List Char → Bool × List Char
  | '-' :: rest => (true, rest)
  | '+' :: rest => (false, rest)
  | cs => (false, cs)

/-- Digits and underscores, of which no underscore stands first, last or next to another. -/
def wellGrouped : List Char → Bool
  | [] => true
  | ['_'] => false
  | '_' :: '_' :: _ => false
  | _ :: rest => wellGrouped rest

def value (cs : List Char) : Nat :=
  (cs.filterMap digitValue?).foldl (fun n d => 10 * n + d) 0

/-- The number that a text spells, if it is a numeral.  Digits are counted before anything that
stands behind them is looked at. -/
def readChars (literal : String) (cs : List Char) : Except Fault Int :=
  let (negative, unsigned) := splitSign (cs.dropWhile isMargin)
  let inNumber := fun c => isDecimal c || c == '_'
  let body := unsigned.takeWhile inNumber
  let behind := unsigned.dropWhile inNumber
  let count := body.countP isDecimal
  if body.head? == some '_' || !wellGrouped body then .error (.malformed literal)
  -- digits are counted before anything behind them is looked at
  else if count > digitLimit then .error (.tooManyDigits count)
  else if count == 0 || !behind.all isMargin then .error (.malformed literal)
  else .ok (if negative then -(value body : Int) else value body)

def read (s : String) : Except Fault Int := readChars s s.toList

def Fault.message : Fault → String
  | malformed literal =>
    "invalid literal for int() with base 10: "
      ++ String.ofList ((quoted literal).toList.take 200)
  | tooManyDigits count =>
    "Exceeds the limit (4300 digits) for integer string conversion: value has "
      ++ Nat.repr count ++ " digits; use sys.set_int_max_str_digits() to increase the limit"
  | tooLong =>
    "Exceeds the limit (4300 digits) for integer string conversion; "
      ++ "use sys.set_int_max_str_digits() to increase the limit"

end LetterMachine.Numeral
