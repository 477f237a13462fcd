import LetterMachine.Opcode

/-!
# Registers

There are twenty-three registers: one for each letter, in slots 0 to 21, and the accumulator in
slot 22.  A register answers to its letter, to the letter's final form, to Latin names in small or
capital letters, and to its slot number.
-/

namespace LetterMachine

open LetterMachine.Text

abbrev Slot := Fin 23

namespace Slot

def acc : Slot := 22

def all : List Slot := List.finRange 23

def name (i : Slot) : String :=
  match alphabet[i.val]? with
  | some c => String.singleton c
  | none => "A"

/-- The names of registers: letters and accumulator, final forms, Latin names and further
spellings. -/
def names : List (String × Slot) :=
  let shown := all.map fun i => (i.name, i)
  shown
    ++ finalForms.filterMap (fun (final, letter) =>
        (shown.lookup (String.singleton letter)).map (String.singleton final, ·))
    ++ Opcode.base.map (fun op => (op.name, Fin.ofNat 23 op.number))
    ++ [("ALEPH", 0), ("HE", 4), ("ACC", acc), ("ALEPH_OLAM", acc)]

theorem toNat_lt {n : Int} (h : 0 ≤ n ∧ n < 23) : n.toNat < 23 := by omega

theorem toNat_add_lt {n : Int} (h : -23 ≤ n ∧ n < 0) : (n + 23).toNat < 23 := by omega

def ofNumber (n : Int) : Answer Slot :=
  if h : 0 ≤ n ∧ n < 23 then .ok ⟨n.toNat, toNat_lt h⟩ else .error (.slotRange n)

/-- The Latin capital of a letter.  Two letters outside the Latin alphabet have one: the long s and
the dotless i. -/
def capital (c : Char) : Char :=
  if c = 'ſ' then 'S' else if c = 'ı' then 'I' else c.toUpper

/-- The slot of a name: as it is spelt, else in capitals, else as a number. -/
def ofText (s : String) : Answer Slot :=
  let key := strip s
  match names.lookup key <|> names.lookup (key.map capital) with
  | some i => .ok i
  | none =>
    if key.toList.all isDigit && key != "" then do
      ofNumber (← (Numeral.read key).mapError Fault.numeral)
    else .error (.unknownRegister (.text s))

/-- The slot that a datum names, by number or by name. -/
def ofDatum : Datum → Answer Slot
  | .whole n => ofNumber n
  | .text s => ofText s
  | d => .error (.unknownRegister d)

end Slot

end LetterMachine
