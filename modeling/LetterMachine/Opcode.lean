import LetterMachine.Fault

/-!
# Letters and opcodes

The twenty-two letters name the base opcodes and the letter registers; the composite round, written
with three letters, is an opcode without a register.  Five letters have a final form, which stands
for the letter itself.
-/

namespace LetterMachine

def alphabet : List Char := "אבגדהוזחטיכלמנסעפצקרשת".toList

def finalForms : List (Char × Char) :=
  [('ך', 'כ'), ('ם', 'מ'), ('ן', 'נ'), ('ף', 'פ'), ('ץ', 'צ')]

inductive Opcode where
  | alef | bet | gimel | dalet | hei | vav | zayin | chet | tet | yod | kaf
  | lamed | mem | nun | samekh | ayin | pe | tsadi | qof | resh | shin | tav
  | sovav
  deriving DecidableEq, Repr, Inhabited

namespace Opcode

def all : List Opcode :=
  [alef, bet, gimel, dalet, hei, vav, zayin, chet, tet, yod, kaf,
    lamed, mem, nun, samekh, ayin, pe, tsadi, qof, resh, shin, tav, sovav]

def base : List Opcode := all.take 22

/-- The number of an opcode: its place in the alphabet, 22 for the composite round. -/
def number : Opcode → Nat
  | alef => 0 | bet => 1 | gimel => 2 | dalet => 3 | hei => 4 | vav => 5 | zayin => 6 | chet => 7
  | tet => 8 | yod => 9 | kaf => 10 | lamed => 11 | mem => 12 | nun => 13 | samekh => 14
  | ayin => 15 | pe => 16 | tsadi => 17 | qof => 18 | resh => 19 | shin => 20 | tav => 21
  | sovav => 22

def name : Opcode → String
  | alef => "ALEF" | bet => "BET" | gimel => "GIMEL" | dalet => "DALET" | hei => "HEI"
  | vav => "VAV" | zayin => "ZAYIN" | chet => "CHET" | tet => "TET" | yod => "YOD"
  | kaf => "KAF" | lamed => "LAMED" | mem => "MEM" | nun => "NUN" | samekh => "SAMEKH"
  | ayin => "AYIN" | pe => "PE" | tsadi => "TSADI" | qof => "QOF" | resh => "RESH"
  | shin => "SHIN" | tav => "TAV" | sovav => "SOVAV"

def roundSymbol : String := "סבב"

def symbol (op : Opcode) : String :=
  match alphabet[op.number]? with
  | some c => String.singleton c
  | none => roundSymbol

def ofDatum (d : Datum) : Answer Opcode :=
  match all.find? fun op => d.number? == some (op.number : Int) with
  | some op => .ok op
  | none => .error (.notOpcode d)

/-- The letters that stand for opcodes: the alphabet, then the final forms. -/
def ofLetter? (c : Char) : Option Opcode :=
  letters.lookup c
where
  letters : List (Char × Opcode) :=
    let plain := alphabet.zip base
    plain ++ finalForms.filterMap fun (final, letter) => (plain.lookup letter).map (final, ·)

/-- The Latin names, in capitals, with three further spellings. -/
def names : List (String × Opcode) :=
  all.map (fun op => (op.name, op)) ++ [("ALEPH", alef), ("HE", hei), ("SOVEV", sovav)]

def ofName? (name : String) : Option Opcode := names.lookup name

def summary : Opcode → String
  | alef => "identity"
  | bet => "second half += first half"
  | gimel => "second half *= first half"
  | dalet => "half differences, swapped"
  | hei => "sign map, A = sum of signs"
  | vav => "swap halves"
  | zayin => "all letters +1"
  | chet => "all letters -1"
  | tet => "square all, A = sum of squares"
  | yod => "broadcast A to all letters"
  | kaf => "sliding window sum of 4"
  | lamed => "A = balanced sum, subtract mean"
  | mem => "moving average of 3"
  | nun => "negate everything"
  | samekh => "rotate letters by A"
  | ayin => "A = max half correlation"
  | pe => "A = א, propagate to ב and ת"
  | tsadi => "compare halves, expose max"
  | qof => "mirror and tilt"
  | resh => "reseed letters from A, stride ב"
  | shin => "quartet square mix"
  | tav => "quartet rotate"
  | sovav => "composite round on א ב ג ד"

end Opcode

inductive Mode where
  | plain
  /-- Only the accumulator changes, and receives what the operation would have added up to. -/
  | query
  | immediate
  deriving DecidableEq, Repr, Inhabited

namespace Mode

/-- The name of the mode: that of its vowel mark. -/
def name : Mode → String
  | plain => "none"
  | query => "sheva"
  | immediate => "hiriq"

def sheva : Char := '\u05b0'

def hiriq : Char := '\u05b4'

def ofMark? (c : Char) : Option Mode :=
  if c = sheva then some query else if c = hiriq then some immediate else none

def ofSuffix? (c : Char) : Option Mode :=
  if c = '?' then some query else if c = '!' then some immediate else none

end Mode

end LetterMachine
