import LetterMachine.Proofs.Markup

/-!
# Panels read back

A reader of a panel takes the marks of styles out of its text, finds the rows between line feeds, and
in a row the numbers and words between blanks and signs.  What is found so does not depend on how
the panel was written.  In the text that a debugger writes it is the program with its breakpoints and
the place of the next instruction, and the registers with their residues, their balanced values and
what the last step changed.
-/

namespace LetterMachine

open LetterMachine.Text

/-! ## What panels tell -/

/-- What a row of the program panel tells: a breakpoint, the mark of what comes next, the styles of
the row, its place, what its word means, the operand if there is one, the name of the opcode, and
notes behind it. -/
structure ProgramRow where
  breakpoint : Bool
  next : Bool
  styles : List String
  place : Nat
  meaning : Word.Meaning
  operand : Option Int
  name : String
  notes : List String

/-- What the first row of the register panel tells. -/
structure Heading where
  steps : Nat
  size : Nat
  pc : Nat
  phase : String
  limit : Nat

/-- What the row of a register tells. -/
structure RegisterRow where
  styles : List String
  name : String
  value : Int
  residue : Int
  balanced : Int

namespace Debugger

/-- A sign, or a blank in its place. -/
def readMark (sign c : Char) : Option Bool :=
  if c = sign then some true else if c = ' ' then some false else none

def readInstruction : List (List Char) →
    Option (Word.Meaning × Option Int × String × List String)
  | word :: next :: rest => do
    let meaning ← Word.meaning? word
    match integer? next, rest with
    | some n, name :: notes => some (meaning, some n, String.ofList name, notes.map String.ofList)
    | some _, [] => none
    | none, notes => some (meaning, none, String.ofList next, notes.map String.ofList)
  | _ => none

def readProgramRow (line : List Char) : Option ProgramRow := do
  let (styles, cs) ← readRow line
  match cs with
  | dot :: marker :: rest =>
    match (rest.splitOn '│').map pieces with
    | [[place], told] =>
      let (meaning, operand, name, notes) ← readInstruction told
      return ⟨← readMark '●' dot, ← readMark '▸' marker, styles, ← natural? place, meaning, operand,
        name, notes⟩
    | _ => none
  | _ => none

/-- The rows of the program panel, none if it says that there is no program. -/
def readProgram (panel : String) : Option (List ProgramRow) :=
  (panel.toList.splitOn '\n').mapM readProgramRow <|>
    if panel = "(no program loaded)" then some [] else none

def readHeading (line : List Char) : Option Heading := do
  let row ← readStyled .outside [] line
  match (pieces (row.map Prod.fst)).map String.ofList with
  | ["Step:", ratio, "PC:", pc, "Phase:", phase, "Limit:", limit] =>
    match ratio.toList.splitOn '/' with
    | [steps, size] =>
      return ⟨← natural? steps, ← natural? size, ← natural? pc.toList, phase,
        ← natural? limit.toList⟩
    | _ => none
  | _ => none

def readRegisterRow (line : List Char) : Option RegisterRow := do
  let (styles, cs) ← readRow line
  match (cs.splitOn '=').map pieces with
  | [[name, value, ['r']], [rest, ['b']], [centred]] =>
    return ⟨styles, String.ofList name, ← integer? value, ← integer? rest, ← integer? centred⟩
  | _ => none

def readRegisters (panel : String) : Option (Heading × List RegisterRow) :=
  match panel.toList.splitOn '\n' with
  | heading :: [] :: rows => do
    return (← readHeading heading, ← rows.mapM readRegisterRow)
  | _ => none

/-! ### The program -/

/-- The row that an instruction of the program has to have. -/
def programRow (d : Debugger) (place : Nat) (i : Instruction) : ProgramRow where
  breakpoint := (place : Int) ∈ d.breakpoints
  next := place = d.stepper.pc
  styles := if place = d.stepper.pc then ["bold reverse"] else []
  place := place
  meaning := [(i.op, i.mode)]
  operand := if i.mode = .immediate then some i.operand else none
  name := i.op.name.map Char.toLower
  notes := if i.mode = .plain then [] else ["(" ++ i.mode.name ++ ")"]

end Debugger

theorem Opcode.madeOf_lower (op : Opcode) : MadeOf Char.isLower (op.name.map Char.toLower) := by
  have hall : (op.name.toList.map Char.toLower).all Char.isLower = true := by
    cases op <;> decide
  unfold MadeOf
  rw [String.toList_map]
  exact List.all_eq_true.mp hall

theorem Mode.madeOf_name (mode : Mode) : MadeOf Char.isLower mode.name := by
  cases mode <;> decide

namespace Debugger

/-- What stands behind the bar in the row of an instruction. -/
def told (i : Instruction) : String :=
  " " ++ i.text ++ "  " ++ i.op.name.map Char.toLower ++
    if i.mode = .plain then "" else " (" ++ i.mode.name ++ ")"

/-- The text of a row in the program panel, without styles. -/
def lineText (d : Debugger) (place : Nat) (i : Instruction) : String :=
  (if (place : Int) ∈ d.breakpoints then "●" else " ")
    ++ (if place = d.stepper.pc then "▸" else " ") ++ (" " ++ atRight 3 (Nat.repr place))
    ++ "│" ++ told i

theorem programLine_eq (d : Debugger) (place : Nat) (i : Instruction) :
    d.programLine place i =
      if place = d.stepper.pc then styled "bold reverse" (unstyled (d.lineText place i))
      else unstyled (d.lineText place i) := by
  have hbar : "│ " = "│" ++ " " := by decide
  unfold programLine lineText told
  simp only [hbar, String.append_assoc]

section

variable {kind : Char → Bool} (h : Takes kind) (hlower : ∀ c, c.isLower → kind c)
include h hlower

theorem madeOf_told (hsigns : MadeOf kind " -()") (i : Instruction) : MadeOf kind (told i) := by
  have hblank : MadeOf kind " " := hsigns.part (by decide)
  have htext := Instruction.madeOf_text h (hsigns '-' (by decide)) (hsigns ' ' (by decide)) i
  have hname := i.op.madeOf_lower.mono hlower
  have hmode := i.mode.madeOf_name.mono hlower
  have hopen : MadeOf kind " (" := hsigns.part (by decide)
  refine (((hblank.append htext).append (hsigns.part (by decide))).append hname).append ?_
  split
  · exact fun c hc => by cases hc
  · exact (hopen.append hmode).append (hsigns.part (by decide))

theorem madeOf_lineText (hsigns : MadeOf kind "●▸│ -()") (d : Debugger) (place : Nat)
    (i : Instruction) : MadeOf kind (d.lineText place i) := by
  have hblank : MadeOf kind " " := hsigns.part (by decide)
  have hplace := (MadeOf.repr h place).atRight (hsigns ' ' (by decide)) 3
  have htold := madeOf_told h hlower (hsigns.part (by decide)) i
  have hmark {c : Prop} [Decidable c] {s : String} (hs : MadeOf kind s) :
      MadeOf kind (if c then s else " ") := by
    split
    · exact hs
    · exact hblank
  exact ((((hmark (hsigns.part (by decide))).append (hmark (hsigns.part (by decide)))).append
    (hblank.append hplace)).append (hsigns.part (by decide))).append htold

end

theorem pieces_text (i : Instruction) :
    pieces i.text.toList =
      Instruction.word i.op i.mode :: i.numbers.map fun n => (Numeral.text n).toList := by
  obtain ⟨c, rest, hword, -⟩ := Instruction.exists_word_eq_cons i.op i.mode
  have hblank : ' ' ∉ Instruction.word i.op i.mode := fun hmem =>
    absurd (Instruction.isHebrew_of_mem_word i.op i.mode ' ' hmem) (by decide)
  have hfirst := pieces_eq_singleton hblank (by rw [hword]; exact List.cons_ne_nil c rest)
  rw [i.toList_text]
  obtain ⟨op, mode, operand⟩ := i
  cases mode with
  | plain | query => simpa [Instruction.numbers] using hfirst
  | immediate =>
    simp only [Instruction.numbers, List.flatMap_singleton, List.map_singleton]
    rw [pieces_append_blank, hfirst, pieces_numeral]
    rfl

/-- A name is not taken for a number. -/
theorem integer?_lower (op : Opcode) : integer? (op.name.map Char.toLower).toList = none := by
  rw [String.toList_map]
  cases op <;> decide

theorem lower_ne_nil (op : Opcode) : (op.name.map Char.toLower).toList ≠ [] := by
  rw [String.toList_map]
  cases op <;> decide

theorem readInstruction_word {word : List Char} {meaning : Word.Meaning} {name : String}
    (hword : Word.meaning? word = some meaning) (hname : integer? name.toList = none)
    (notes : List String) :
    readInstruction (word :: name.toList :: notes.map String.toList) =
      some (meaning, none, name, notes) := by
  unfold readInstruction
  simp [hword, hname, Function.comp_def]

theorem readInstruction_operand {word : List Char} {meaning : Word.Meaning}
    (hword : Word.meaning? word = some meaning) (n : Int) (name : String) (notes : List String) :
    readInstruction (word :: (Numeral.text n).toList :: name.toList :: notes.map String.toList) =
      some (meaning, some n, name, notes) := by
  unfold readInstruction
  simp [hword, integer?_text, Function.comp_def]

/-- What stands behind the name of an opcode: its mode, if that is not the plain one. -/
def notes (i : Instruction) : List String :=
  if i.mode = .plain then [] else ["(" ++ i.mode.name ++ ")"]

theorem pieces_told (i : Instruction) :
    pieces (told i).toList =
      Instruction.word i.op i.mode :: (i.numbers.map fun n => (Numeral.text n).toList) ++
        (i.op.name.map Char.toLower).toList :: (notes i).map String.toList := by
  have hname := pieces_of_isLower i.op.madeOf_lower (lower_ne_nil i.op)
  have hnote : pieces ("(" ++ i.mode.name ++ ")").toList = [("(" ++ i.mode.name ++ ")").toList] := by
    cases i.mode <;> decide
  have hchars : (told i).toList =
      ' ' :: (i.text.toList ++ ' ' :: ' ' :: ((i.op.name.map Char.toLower).toList ++
        if i.mode = .plain then [] else ' ' :: ("(" ++ i.mode.name ++ ")").toList)) := by
    unfold told
    split <;> simp
  unfold notes
  rw [hchars, pieces_blank, pieces_append_blank, pieces_blank, pieces_text]
  congr 1
  split
  · rw [List.append_nil, hname]
    rfl
  · rw [pieces_append_blank, hname, hnote]
    rfl

/-- The instruction is told by its word, its operand if it shows one, its name and its mode. -/
theorem readInstruction_told (i : Instruction) :
    readInstruction (pieces (told i).toList) =
      some ([(i.op, i.mode)], if i.mode = .immediate then some i.operand else none,
        i.op.name.map Char.toLower, notes i) := by
  have hmeaning := Instruction.meaning?_word i.op i.mode
  have hname := integer?_lower i.op
  rw [pieces_told]
  -- only in immediate mode a number stands between the word and the name
  by_cases hmode : i.mode = .immediate
  · have hnumbers : i.numbers = [i.operand] := by
      unfold Instruction.numbers
      rw [hmode]
    rw [if_pos hmode, hnumbers]
    exact readInstruction_operand hmeaning i.operand _ _
  · have hnumbers : i.numbers = [] := by
      unfold Instruction.numbers
      split
      · next h => exact absurd h hmode
      · rfl
    rw [if_neg hmode, hnumbers]
    exact readInstruction_word hmeaning hname _

theorem readMark_ite (c : Prop) [Decidable c] {sign : Char} (hsign : sign ≠ ' ') :
    readMark sign (if c then sign else ' ') = some (decide c) := by
  unfold readMark
  by_cases hc : c
  · rw [if_pos hc, if_pos rfl, decide_eq_true hc]
  · rw [if_neg hc, if_neg hsign.symm, if_pos rfl, decide_eq_false hc]

theorem toList_lineText (d : Debugger) (place : Nat) (i : Instruction) :
    (d.lineText place i).toList =
      (if (place : Int) ∈ d.breakpoints then '●' else ' ') ::
        (if place = d.stepper.pc then '▸' else ' ') ::
          ((' ' :: (atRight 3 (Nat.repr place)).toList) ++ '│' :: (told i).toList) := by
  unfold lineText
  split <;> split <;> simp

/-- The line of an instruction is read as its text, in the style of its row. -/
theorem readRow_programLine (d : Debugger) (place : Nat) (i : Instruction) :
    readRow (d.programLine place i).toList =
      some (if place = d.stepper.pc then ["bold reverse"] else [],
        (d.lineText place i).toList) := by
  have hunmarked := madeOf_lineText takes_isUnmarked isUnmarked_of_isLower (by decide) d place i
  have hne : (d.lineText place i).toList ≠ [] := by
    rw [toList_lineText]
    exact List.cons_ne_nil _ _
  rw [programLine_eq, unstyled_of_not_mem (hunmarked.not_mem (by decide))]
  split
  · exact readRow_of_readsAs ((hunmarked.readsAs _).styled (by decide)) hne
  · exact readRow_of_readsAs (hunmarked.readsAs _) hne

/-- The row of an instruction has a dot iff a breakpoint is set there, and is marked iff it comes next.
It tells the place, and the instruction. -/
theorem readProgramRow_programLine (d : Debugger) (place : Nat) (i : Instruction) :
    readProgramRow (d.programLine place i).toList = some (d.programRow place i) := by
  have hbar : '│' ∉ ' ' :: (atRight 3 (Nat.repr place)).toList := by
    have hplace := (MadeOf.repr (takes_ne '│' (by decide) (by decide)) place).atRight (by decide) 3
    rw [List.mem_cons, not_or]
    exact ⟨by decide, hplace.not_mem (by decide)⟩
  have htold : '│' ∉ (told i).toList :=
    (madeOf_told (takes_ne '│' (by decide) (by decide)) (ne_of_isLower (by decide)) (by decide)
      i).not_mem (by decide)
  have hparts : ((' ' :: (atRight 3 (Nat.repr place)).toList ++
      '│' :: (told i).toList).splitOn '│').map pieces =
        [[(Nat.repr place).toList], pieces (told i).toList] := by
    rw [List.splitOn_append_cons_self_of_not_mem hbar, List.splitOn_eq_singleton htold,
      List.map_cons, List.map_singleton, pieces_blank, pieces_atRight, pieces_repr]
  unfold readProgramRow
  rw [readRow_programLine, toList_lineText]
  simp only [Option.bind_eq_bind, Option.bind_some, hparts, readInstruction_told,
    readMark_ite _ (by decide : '●' ≠ ' '), readMark_ite _ (by decide : '▸' ≠ ' '), natural?_repr]
  rfl

/-! ### Registers -/

/-- The row that a register has to have: bold for the accumulator, and green if the last step has
changed it. -/
def registerOf (d : Debugger) (i : Slot) : RegisterRow where
  styles := (if i = Slot.acc then ["bold"] else []) ++
    if d.stepper.trace.back?.any fun t => t.before.get i ≠ t.after.get i then ["green"] else []
  name := i.name
  value := d.stepper.state.get i
  residue := residue (d.stepper.state.get i)
  balanced := balanced (d.stepper.state.get i)

theorem contains_lastChanged (s : Stepper) (i : Slot) :
    (lastChanged s).contains i = s.trace.back?.any fun t => t.before.get i ≠ t.after.get i := by
  unfold lastChanged
  cases s.trace.back? with
  | none => rfl
  | some t =>
    rw [Option.any_some, Bool.eq_iff_iff, List.contains_iff_mem, decide_eq_true_iff]
    exact State.mem_changed

/-- The text of a row in the register panel, without styles. -/
def rowText (i : Slot) (x : Int) : String :=
  atRight 2 i.name ++ " " ++ atRight 8 (Numeral.text x)
    ++ "  r=" ++ atRight 2 (Numeral.text (residue x))
    ++ "  b=" ++ atRight 3 (Numeral.text (balanced x))

theorem madeOf_rowText {kind : Char → Bool} (h : Takes kind) (hsigns : MadeOf kind "A -r=b")
    (i : Slot) (x : Int) : MadeOf kind (rowText i x) := by
  have hblank := hsigns ' ' (by decide)
  have hname := (Slot.madeOf_name h (hsigns 'A' (by decide)) i).atRight hblank 2
  have hnumeral (width : Nat) (n : Int) : MadeOf kind (atRight width (Numeral.text n)) :=
    (MadeOf.numeral h (hsigns '-' (by decide)) n).atRight hblank width
  have hvalue := (hname.append (hsigns.part (by decide) : MadeOf kind " ")).append (hnumeral 8 x)
  have hresidue := (hvalue.append (hsigns.part (by decide) : MadeOf kind "  r=")).append
    (hnumeral 2 (residue x))
  exact (hresidue.append (hsigns.part (by decide) : MadeOf kind "  b=")).append
    (hnumeral 3 (balanced x))

theorem pieces_name (i : Slot) : pieces i.name.toList = [i.name.toList] := by
  have hall : ∀ j : Slot, pieces j.name.toList = [j.name.toList] := by decide
  exact hall i

/-- A row of the register panel gives its name and three numbers between equals signs and blanks. -/
theorem pieces_rowText (i : Slot) (x : Int) :
    ((rowText i x).toList.splitOn '=').map pieces =
      [[i.name.toList, (Numeral.text x).toList, ['r']],
        [(Numeral.text (residue x)).toList, ['b']], [(Numeral.text (balanced x)).toList]] := by
  let value := atRight 2 i.name ++ " " ++ atRight 8 (Numeral.text x) ++ "  r"
  let rest := atRight 2 (Numeral.text (residue x)) ++ "  b"
  let centred := atRight 3 (Numeral.text (balanced x))
  have hchars : (rowText i x).toList =
      value.toList ++ '=' :: (rest.toList ++ '=' :: centred.toList) := by
    simp [rowText, value, rest, centred]
  -- nothing that the row is put together from holds an equals sign of its own
  have hequals := takes_ne '=' (by decide) (by decide)
  have hnumeral (width : Nat) (n : Int) : MadeOf (· != '=') (atRight width (Numeral.text n)) :=
    (MadeOf.numeral hequals (by decide) n).atRight (by decide) width
  have hvalue : '=' ∉ value.toList := by
    have hname := (Slot.madeOf_name hequals (by decide) i).atRight (by decide) 2
    exact (((hname.append (by decide : MadeOf _ " ")).append (hnumeral 8 x)).append
      (by decide : MadeOf _ "  r")).not_mem (by decide)
  have hrest : '=' ∉ rest.toList :=
    ((hnumeral 2 (residue x)).append (by decide : MadeOf _ "  b")).not_mem (by decide)
  have hcentred : '=' ∉ centred.toList := (hnumeral 3 (balanced x)).not_mem (by decide)
  rw [hchars, List.splitOn_append_cons_self_of_not_mem hvalue,
    List.splitOn_append_cons_self_of_not_mem hrest, List.splitOn_eq_singleton hcentred]
  have hletter (c : Char) (hc : pieces [c] = [[c]]) (cs : List Char) :
      pieces (cs ++ ' ' :: ' ' :: [c]) = pieces cs ++ [[c]] := by
    rw [pieces_append_blank, pieces_blank, hc]
  have hfirst : pieces value.toList = [i.name.toList, (Numeral.text x).toList, ['r']] := by
    have hparts : value.toList = ((atRight 2 i.name).toList ++
        ' ' :: (atRight 8 (Numeral.text x)).toList) ++ ' ' :: ' ' :: ['r'] := by
      simp [value]
    rw [hparts, hletter 'r' (by decide), pieces_append_blank, pieces_atRight, pieces_atRight,
      pieces_name, pieces_numeral]
    rfl
  have hsecond : pieces rest.toList = [(Numeral.text (residue x)).toList, ['b']] := by
    have hparts : rest.toList =
        (atRight 2 (Numeral.text (residue x))).toList ++ ' ' :: ' ' :: ['b'] := by
      simp [rest]
    rw [hparts, hletter 'b' (by decide), pieces_atRight, pieces_numeral]
    rfl
  have hthird : pieces centred.toList = [(Numeral.text (balanced x)).toList] := by
    rw [pieces_atRight, pieces_numeral]
  rw [List.map_cons, List.map_cons, List.map_singleton, hfirst, hsecond, hthird]

theorem registerRow_eq (d : Debugger) (changed : List Slot) (i : Slot) :
    d.registerRow changed i =
      let row := rowText i (d.stepper.state.get i)
      let row := if i = Slot.acc then styled "bold" row else row
      if changed.contains i then styled "green" row else row :=
  rfl

theorem readRegisterRow_registerRow (d : Debugger) (i : Slot) :
    readRegisterRow (d.registerRow (lastChanged d.stepper) i).toList = some (d.registerOf i) := by
  let text := rowText i (d.stepper.state.get i)
  have hunmarked : MadeOf isUnmarked text := madeOf_rowText takes_isUnmarked (by decide) i _
  have hne : text.toList ≠ [] := by
    intro hnil
    have hpieces := pieces_rowText i (d.stepper.state.get i)
    rw [show (rowText i (d.stepper.state.get i)).toList = [] from hnil] at hpieces
    cases hpieces
  have hbold (styles : List String) : ReadsAs styles
      (if i = Slot.acc then styled "bold" text else text)
      (inStyles ((if i = Slot.acc then ["bold"] else []) ++ styles) text) := by
    split
    · exact (hunmarked.readsAs _).styled (by decide)
    · exact hunmarked.readsAs _
  have hrow : readRow (d.registerRow (lastChanged d.stepper) i).toList =
      some ((d.registerOf i).styles, text.toList) := by
    refine readRow_of_readsAs ?_ hne
    rw [registerRow_eq]
    unfold registerOf
    dsimp only
    rw [contains_lastChanged]
    -- green is put around bold, so it stands behind it in the styles
    split
    · exact (hbold _).styled (by decide)
    · exact hbold _
  unfold readRegisterRow
  rw [hrow]
  simp only [Option.bind_eq_bind, Option.bind_some, pieces_rowText, text, integer?_text,
    String.ofList_toList]
  rfl

/-! ### The heading -/

/-- The heading that the register panel has to have. -/
def headingOf (s : Stepper) : Heading where
  steps := s.steps
  size := s.program.size
  pc := s.pc
  phase := s.phase.name
  limit := s.limit

/-- The numbers of the heading, with the blanks around them. -/
def ratioText (s : Stepper) : String :=
  " " ++ (Nat.repr s.steps ++ "/" ++ Nat.repr s.program.size) ++ "  "

def headText (s : Stepper) : String :=
  styled "bold" "Step:" ++ ratioText s ++ styled "bold" "PC:" ++ (" " ++ Nat.repr s.pc ++ "  ")
    ++ styled "bold" "Phase:" ++ (" " ++ s.phase.name ++ "  ")
    ++ styled "bold" "Limit:" ++ (" " ++ Nat.repr s.limit)

theorem registerText_eq (d : Debugger) :
    d.registerText =
      lines (headText d.stepper :: "" :: Slot.all.map (d.registerRow (lastChanged d.stepper))) := by
  unfold registerText headText ratioText
  simp only [String.append_assoc]

theorem madeOf_phaseName (phase : Phase) : MadeOf Char.isLower phase.name := by
  cases phase <;> decide

theorem readsAs_headText (s : Stepper) :
    ReadsAs [] (headText s)
      (inStyles ["bold"] "Step:" ++ inStyles [] (ratioText s) ++ inStyles ["bold"] "PC:"
        ++ inStyles [] (" " ++ Nat.repr s.pc ++ "  ") ++ inStyles ["bold"] "Phase:"
        ++ inStyles [] (" " ++ s.phase.name ++ "  ") ++ inStyles ["bold"] "Limit:"
        ++ inStyles [] (" " ++ Nat.repr s.limit)) := by
  have hlabel {label : String} (hlabel : MadeOf isUnmarked label) :
      ReadsAs [] (styled "bold" label) (inStyles ["bold"] label) :=
    (hlabel.readsAs ["bold"]).styled (by decide)
  have hblank : MadeOf isUnmarked " " := by decide
  have hgap : MadeOf isUnmarked "  " := by decide
  have hnumber := MadeOf.repr takes_isUnmarked
  have hratio : MadeOf isUnmarked (ratioText s) :=
    (hblank.append (((hnumber s.steps).append (by decide)).append (hnumber s.program.size))).append
      hgap
  have hpc := (hblank.append (hnumber s.pc)).append hgap
  have hphase := (hblank.append ((madeOf_phaseName s.phase).mono isUnmarked_of_isLower)).append hgap
  have hlimit := hblank.append (hnumber s.limit)
  exact (((((((hlabel (by decide)).append (hratio.readsAs [])).append (hlabel (by decide))).append
    (hpc.readsAs [])).append (hlabel (by decide))).append (hphase.readsAs [])).append
      (hlabel (by decide))).append (hlimit.readsAs [])

theorem pieces_ratio (m n : Nat) :
    pieces (Nat.repr m ++ "/" ++ Nat.repr n).toList = [(Nat.repr m ++ "/" ++ Nat.repr n).toList] := by
  have hnumber := MadeOf.repr (takes_ne ' ' (by decide) (by decide))
  refine pieces_eq_singleton
    ((((hnumber m).append (by decide)).append (hnumber n)).not_mem (by decide)) ?_
  simp

theorem splitOn_ratio (m n : Nat) :
    (Nat.repr m ++ "/" ++ Nat.repr n).toList.splitOn '/' =
      [(Nat.repr m).toList, (Nat.repr n).toList] := by
  have hslash (k : Nat) : '/' ∉ (Nat.repr k).toList :=
    (MadeOf.repr (takes_ne '/' (by decide) (by decide)) k).not_mem (by decide)
  have hchars : (Nat.repr m ++ "/" ++ Nat.repr n).toList =
      (Nat.repr m).toList ++ '/' :: (Nat.repr n).toList := by
    simp
  rw [hchars, List.splitOn_append_cons_self_of_not_mem (hslash m),
    List.splitOn_eq_singleton (hslash n)]

/-- The text of the heading, without styles. -/
def plainHead (s : Stepper) : List Char :=
  "Step:".toList ++ (ratioText s).toList ++ "PC:".toList ++ (" " ++ Nat.repr s.pc ++ "  ").toList
    ++ "Phase:".toList ++ (" " ++ s.phase.name ++ "  ").toList ++ "Limit:".toList
    ++ (" " ++ Nat.repr s.limit).toList

theorem pieces_plainHead (s : Stepper) :
    pieces (plainHead s) =
      ["Step:".toList, (Nat.repr s.steps ++ "/" ++ Nat.repr s.program.size).toList, "PC:".toList,
        (Nat.repr s.pc).toList, "Phase:".toList, s.phase.name.toList, "Limit:".toList,
        (Nat.repr s.limit).toList] := by
  have hphase := pieces_of_isLower (madeOf_phaseName s.phase) (by cases s.phase <;> decide)
  have hlast : pieces ("Limit:".toList ++ (" " ++ Nat.repr s.limit).toList) =
      ["Limit:".toList, (Nat.repr s.limit).toList] := by
    have hlabel : pieces "Limit:".toList = ["Limit:".toList] := by decide
    have hblank : (" " ++ Nat.repr s.limit).toList = ' ' :: (Nat.repr s.limit).toList := by simp
    rw [hblank, pieces_append_blank, hlabel, pieces_repr]
    rfl
  unfold plainHead ratioText
  simp only [List.append_assoc]
  rw [pieces_labelled (by decide) (pieces_ratio _ _), pieces_labelled (by decide) (pieces_repr _),
    pieces_labelled (by decide) hphase, hlast]

theorem readHeading_headText (s : Stepper) :
    readHeading (headText s).toList = some (headingOf s) := by
  unfold readHeading
  rw [(readsAs_headText s).eq]
  simp only [Option.bind_eq_bind, Option.bind_some, List.map_append, map_fst_inStyles]
  have hpieces := pieces_plainHead s
  unfold plainHead at hpieces
  simp only [hpieces, List.map_cons, List.map_nil, String.ofList_toList, splitOn_ratio,
    natural?_repr, Option.bind_some]
  rfl

/-! ### The panels -/

theorem madeOf_programLine (d : Debugger) (place : Nat) (i : Instruction) :
    MadeOf (· != '\n') (d.programLine place i) := by
  have hunmarked := madeOf_lineText takes_isUnmarked isUnmarked_of_isLower (by decide) d place i
  have hline := madeOf_lineText takes_ne_lineFeed (ne_of_isLower (by decide)) (by decide) d place i
  rw [programLine_eq, unstyled_of_not_mem (hunmarked.not_mem (by decide))]
  split
  · exact MadeOf.styled (by decide) (by decide) hline
  · exact hline

theorem madeOf_registerRow (d : Debugger) (changed : List Slot) (i : Slot) :
    MadeOf (· != '\n') (d.registerRow changed i) := by
  have htext := madeOf_rowText takes_ne_lineFeed (by decide) i (d.stepper.state.get i)
  have hstyled {c : Prop} [Decidable c] {style s : String} (hstyle : MadeOf (· != '\n') style)
      (hs : MadeOf (· != '\n') s) : MadeOf (· != '\n') (if c then styled style s else s) := by
    split
    · exact MadeOf.styled (by decide) hstyle hs
    · exact hs
  rw [registerRow_eq]
  exact hstyled (by decide) (hstyled (by decide) htext)

theorem madeOf_headText (s : Stepper) : MadeOf (· != '\n') (headText s) := by
  have hnumber := MadeOf.repr takes_ne_lineFeed
  have hlabel {label : String} (h : MadeOf (· != '\n') label) :
      MadeOf (· != '\n') (styled "bold" label) :=
    MadeOf.styled (by decide) (by decide) h
  have hgapped {text : String} (h : MadeOf (· != '\n') text) :
      MadeOf (· != '\n') (" " ++ text ++ "  ") :=
    ((by decide : MadeOf (· != '\n') " ").append h).append (by decide)
  have hslash : MadeOf (· != '\n') "/" := by decide
  have hratio := hgapped (((hnumber s.steps).append hslash).append (hnumber s.program.size))
  have hphase := hgapped ((madeOf_phaseName s.phase).mono (ne_of_isLower (by decide)))
  have hlimit := (by decide : MadeOf (· != '\n') " ").append (hnumber s.limit)
  exact (((((((hlabel (by decide)).append hratio).append (hlabel (by decide))).append
    (hgapped (hnumber s.pc))).append (hlabel (by decide))).append hphase).append
      (hlabel (by decide))).append hlimit

/-- The program panel tells every instruction of the program at its place. -/
theorem readProgram_programText (d : Debugger) :
    readProgram d.programText = some (d.stepper.program.toList.mapIdx d.programRow) := by
  unfold programText
  generalize d.stepper.program.toList = program
  cases program with
  | nil =>
    -- what stands in the place of a program is no row
    show readProgram "(no program loaded)" = some []
    rfl
  | cons i rest =>
    have hrows : ∀ row ∈ (i :: rest).mapIdx d.programLine, MadeOf (· != '\n') row := by
      intro row hrow
      obtain ⟨place, hplace, rfl⟩ := List.mem_mapIdx.mp hrow
      exact madeOf_programLine d place _
    have hread : (((i :: rest).mapIdx d.programLine).map String.toList).mapM readProgramRow =
        some ((i :: rest).mapIdx d.programRow) := by
      rw [List.mapIdx_eq_zipIdx_map, List.mapIdx_eq_zipIdx_map, List.mapM_map, List.mapM_map]
      exact mapM_eq_pure fun x _ => readProgramRow_programLine d x.2 x.1
    show readProgram (lines ((i :: rest).mapIdx d.programLine)) = _
    unfold readProgram
    rw [splitOn_lines (by simp) hrows, hread]
    rfl

/-- The register panel tells the heading, and every register with what the last step changed. -/
theorem readRegisters_registerText (d : Debugger) :
    readRegisters d.registerText = some (headingOf d.stepper, Slot.all.map d.registerOf) := by
  let row := d.registerRow (lastChanged d.stepper)
  have hrows : ∀ text ∈ headText d.stepper :: "" :: Slot.all.map row, MadeOf (· != '\n') text := by
    refine List.forall_mem_cons.mpr ⟨madeOf_headText d.stepper, ?_⟩
    refine List.forall_mem_cons.mpr ⟨by decide, fun text htext => ?_⟩
    obtain ⟨i, -, rfl⟩ := List.mem_map.mp htext
    exact madeOf_registerRow d _ i
  have hread : ((Slot.all.map row).map String.toList).mapM readRegisterRow =
      some (Slot.all.map d.registerOf) := by
    rw [List.mapM_map, List.mapM_map]
    exact mapM_eq_pure fun i _ => readRegisterRow_registerRow d i
  unfold readRegisters
  rw [registerText_eq, splitOn_lines (List.cons_ne_nil _ _) hrows]
  simp only [List.map_cons, String.toList_empty]
  rw [hread, readHeading_headText]
  rfl

/-- Read back, the panels tell the program with the breakpoints and the place of the next instruction,
and the registers with how far the stepper has come and what the last step changed. -/
structure Exhibits (d : Debugger) : Prop where
  program : readProgram d.programPanel = some (d.stepper.program.toList.mapIdx d.programRow)
  registers :
    readRegisters d.registerPanel = some (headingOf d.stepper, Slot.all.map d.registerOf)

end Debugger

end LetterMachine
