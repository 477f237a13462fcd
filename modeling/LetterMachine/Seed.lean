import LetterMachine.State

/-!
# Seeds

A seed gives registers their first values: a list from slot 0 on, or a table of registers and their
values.  Registers that it does not name are zero.
-/

namespace LetterMachine

open LetterMachine.Text

inductive Seed where
  | none
  | values (values : List Datum)
  | named (pairs : List (Datum × Datum))
  | other (d : Datum)

namespace Seed

/-- The seed of pairs in order.  What is made of other data is no key. -/
def ofPairs (pairs : List (Datum × Datum)) : Answer Seed :=
  match pairs.find? fun pair => pair.1.isCompound with
  | some (key, _) => .error (.compoundKey key)
  | .none => .ok (named (Table.ofPairs Datum.sameKey pairs))

/-- The seed of a datum: the items of a list, the characters of a text. -/
def ofDatum : Datum → Seed
  | .nothing => none
  | .list ds => values ds
  | .text s => values (s.toList.map fun c => .text (String.singleton c))
  | .table entries => named (entries.map fun (k, d) => (.text k, d))
  | d => other d

def checked (key value : Datum) : Answer Int :=
  match value.whole? with
  | some n => .ok n
  | _ => .error (.seedValue key value)

/-- The state with a value in a register.  A wrong value is refused before a wrong register. -/
def place (s : State) (key value : Datum) : Answer State := do
  let x ← checked key value
  return s.set (← Slot.ofDatum key) x

def numbered (ds : List Datum) : List (Datum × Datum) :=
  ds.mapIdx fun i d => (.whole i, d)

def state : Seed → Answer State
  | none => .ok State.zero
  | named pairs => pairs.foldlM (fun s (key, value) => place s key value) State.zero
  | values ds =>
    if ds.length > 23 then .error (.seedLength ds.length)
    else (numbered ds).foldlM (fun s (key, value) => place s key value) State.zero
  | other d => .error (.notIterable d)

def slots : Seed → Answer (List Slot)
  | none => .error (.notIterable .nothing)
  | named pairs => pairs.mapM fun (key, _) => Slot.ofDatum key
  | values ds => ds.mapIdx (fun i _ => Datum.whole i) |>.mapM Slot.ofDatum
  | other d => .error (.notIterable d)

/-- A state with the registers of a seed overwritten.  Some seed has to be given. -/
def overlay (s : State) : Seed → Answer State
  | none => .error (.notIterable .nothing)
  | seed => do
    let seeded ← seed.state
    return (← seed.slots).foldl (fun t i => t.set i (seeded.get i)) s

/-- The register and the value of a pair `NAME=VALUE`.  The value is read before the name is looked
up. -/
def readPair (pair : String) : Answer (String × Int) :=
  match pair.toList.dropWhile (· != '=') with
  | [] => .error (.seedForm pair)
  | _ :: value =>
    let name := String.ofList (trim (pair.toList.takeWhile (· != '=')))
    match Numeral.read (String.ofList value) with
    | .error _ => .error (.seedNumeral pair)
    | .ok n => do
      -- the name is only checked here, and looked up when the seed is used
      let _ ← Slot.ofText name
      return (name, n)

def readPairs (pairs : List String) : Answer (List (String × Int)) := do
  return Table.ofPairs (· == ·) (← pairs.mapM readPair)

def ofNames (table : List (String × Int)) : Seed :=
  named (table.map fun (name, n) => (.text name, .whole n))

end Seed

end LetterMachine
