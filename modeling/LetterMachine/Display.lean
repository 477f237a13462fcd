import LetterMachine.Run
import LetterMachine.Text.Terminal

/-!
# Showing states and steps

A state is shown as rows of letters and the accumulator, plain with a mark behind each register that
changed, or coloured.  A step is shown as one line of the registers it changed.
-/

namespace LetterMachine

open LetterMachine.Text

namespace Slot

/-- A register with its number, and with the residue where that is another number. -/
def cell (i : Slot) (x : Int) : String :=
  if x = residue x then i.name ++ "=" ++ atRight 2 (Numeral.text x)
  else i.name ++ "=" ++ Numeral.text x ++ "(" ++ Numeral.text (residue x) ++ ")"

/-- A register with its number, which has to be one that can be written. -/
def writtenCell (i : Slot) (x : Int) : Answer String := shownWith [x] (i.cell x)

end Slot

/-- Where rows of so many columns begin.  No row can have zero columns, and with less than zero
there are no rows. -/
def rowStarts (columns : Int) : Answer (List Nat) :=
  if columns = 0 then .error .noColumns
  else if columns < 0 then .ok []
  else .ok ((List.range 22).filter fun i => (i : Int) % columns = 0)

namespace State

def changedSince (previous : Option State) (s : State) : List Slot :=
  match previous with
  | some p => p.changed s
  | none => []

def letterSlots : List Slot := Slot.all.take 22

def accLine (s : State) (changed : List Slot) : String :=
  "A=" ++ Numeral.text s.acc ++ " (residue " ++ Numeral.text (residue s.acc) ++ ", balanced "
    ++ Numeral.text (balanced s.acc) ++ ")" ++ (if Slot.acc ∈ changed then "*" else "")

/-- The rows of a state, with a mark behind each register that changed. -/
def rows (s : State) (previous : Option State) (columns : Int) : Answer (List String) := do
  let changed := s.changedSince previous
  let cells ← letterSlots.mapM fun i =>
    return (← i.writtenCell (s.get i)) ++ (if i ∈ changed then "*" else " ")
  let starts ← rowStarts columns
  let total ← shownWith [s.acc] (s.accLine changed)
  return starts.map (fun i => "  ".intercalate ((cells.drop i).take columns.toNat)) ++ [total]

def table (s : State) (previous : Option State) (columns : Int) : Answer String :=
  return lines (← s.rows previous columns)

def colouredCell (s : State) (changed : List Slot) (i : Slot) : Answer String := do
  let text ← i.writtenCell (s.get i)
  return if i ∈ changed then yellow ++ bright ++ text ++ plain else text

def colouredTable (s : State) (previous : Option State) (columns : Int) : Answer String := do
  let changed := s.changedSince previous
  let starts ← rowStarts columns
  let rows ← starts.mapM fun start => do
    let row := letterSlots.filter fun i => start ≤ i.val ∧ i.val < start + columns.toNat
    return "  ".intercalate (← row.mapM (s.colouredCell changed))
  let total ← s.colouredCell changed Slot.acc
  return lines (rows ++ [total])

end State

def defaultColumns : Int := 6

namespace Step

def changed (t : Step) : List Slot := t.before.changed t.after

def numbers (t : Step) : List Int :=
  t.changed.flatMap (fun i => [t.before.get i, t.after.get i]) ++ t.instruction.numbers

/-- The line of a step: its place, its instruction, and the registers that it changed. -/
def line (t : Step) : String :=
  let parts := t.changed.map fun i =>
    i.name ++ ":" ++ Numeral.text (t.before.get i) ++ "->" ++ Numeral.text (t.after.get i)
  let body := if parts.isEmpty then "(no change)" else " ".intercalate parts
  "t=" ++ atLeft 4 (Nat.repr t.index) ++ " " ++ atLeft 6 t.instruction.text ++ " " ++ body

def writtenLine (t : Step) : Answer String := shownWith t.numbers t.line

def writtenLines (ts : List Step) : Answer String := return lines (← ts.mapM writtenLine)

end Step

namespace Outcome

/-- The two lines of a step in colours: its instruction, and the state after it. -/
def colouredStep (t : Step) : Answer String := do
  let title ← shownWith t.instruction.numbers
    (cyan ++ "t=" ++ atLeft 4 (Nat.repr t.index) ++ plain ++ " " ++ t.instruction.text)
  return lines [title, ← t.after.colouredTable t.before defaultColumns]

def notice (o : Outcome) : Answer (List String) :=
  if o.exceeded then do
    let line ← shownWith [(o.limit : Int)]
      (red ++ "step limit " ++ Nat.repr o.limit ++ " reached after " ++ Nat.repr o.steps ++ " steps"
        ++ plain)
    return [line]
  else .ok []

/-- The outcome of a run in colours: its steps if they are asked for, the last state, and a line
that says if the run was cut off. -/
def coloured (o : Outcome) (previous : State) (traced : Bool) : Answer String := do
  let steps ← (if traced then o.trace.getD [] else []).mapM colouredStep
  let final ← o.final.colouredTable previous defaultColumns
  return lines (steps ++ [final] ++ (← o.notice))

end Outcome

def operatorTable : String :=
  lines (Opcode.all.map fun op =>
    "  " ++ atRight 3 op.symbol ++ "  " ++ atLeft 7 op.name ++ " " ++ op.summary)

end LetterMachine
