import LetterMachine.Numeral.Basic
import LetterMachine.Numeral.Shortest

/-!
# Data of any kind

Seeds, program items, register names and step limits are handed in as data whose kind is checked
only when they are used.  A datum that is refused is shown in the message that refuses it.
-/

namespace LetterMachine

open LetterMachine.Text

inductive Datum where
  | nothing
  | truth (b : Bool)
  | whole (n : Int)
  | real (x : Float)
  | text (s : String)
  | list (items : List Datum)
  | table (entries : List (String × Datum))
  deriving Inhabited

namespace Datum

mutual

def shown : Datum → String
  | nothing => "None"
  | truth true => "True"
  | truth false => "False"
  | whole n => Numeral.text n
  | real x => Numeral.floatText x
  | text s => quoted s
  | list items => "[" ++ ", ".intercalate (shownItems items) ++ "]"
  | table entries => "\x7b" ++ ", ".intercalate (shownEntries entries) ++ "\x7d"

def shownItems : List Datum → List String
  | [] => []
  | d :: rest => shown d :: shownItems rest

def shownEntries : List (String × Datum) → List String
  | [] => []
  | (k, d) :: rest => (quoted k ++ ": " ++ shown d) :: shownEntries rest

end

mutual

def numbers : Datum → List Int
  | whole n => [n]
  | list items => numbersIn items
  | table entries => numbersUnder entries
  | _ => []

def numbersIn : List Datum → List Int
  | [] => []
  | d :: rest => numbers d ++ numbersIn rest

def numbersUnder : List (String × Datum) → List Int
  | [] => []
  | (_, d) :: rest => numbers d ++ numbersUnder rest

end

def kind : Datum → String
  | nothing => "NoneType"
  | truth _ => "bool"
  | whole _ => "int"
  | real _ => "float"
  | text _ => "str"
  | list _ => "list"
  | table _ => "dict"

/-- The whole number that a datum is, if it is one.  A truth value is none. -/
def whole? : Datum → Option Int
  | whole n => some n
  | _ => none

/-- The whole number that a datum equals.  A truth value counts as zero or one. -/
def number? : Datum → Option Int
  | whole n => some n
  | truth b => some b.toNat
  | real x => Numeral.wholeOfFloat? x
  | _ => none

def isRow : Datum → Bool
  | text _ | list _ => true
  | _ => false

def isCompound : Datum → Bool
  | list _ | table _ => true
  | _ => false

/-- Do two data name the same key?  Numbers do if they are equal, whatever their kind. -/
def sameKey (a b : Datum) : Bool :=
  match a, b with
  | nothing, nothing => true
  | text s, text t => s == t
  | real x, real y => x == y
  | _, _ =>
    match a.number?, b.number? with
    | some m, some n => m == n
    | _, _ => false

end Datum

end LetterMachine
