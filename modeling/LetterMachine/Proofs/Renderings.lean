import LetterMachine.Proofs.Display
import LetterMachine.Proofs.Printing
import Mathlib.Algebra.Order.Floor.Div
import Mathlib.Data.List.Sort

/-!
# Two renderings of a state

A state is shown in two ways: plain, with a mark behind each letter that changed, and in colours.
Each sets out the rows in its own way.  They agree: without the marks and without the colours the
rows are the same, whatever the number of columns.
-/

namespace LetterMachine

namespace Text

/-! ## Without colours -/

/-- Taking the colours out of the first text leaves the second, whatever text stands behind. -/
structure Uncolours (s t : String) : Prop where
  head : s.toList.head? ≠ some '\x02'
  dropped : ∀ rest : List Char, rest.head? ≠ some '\x02' →
    dropStretches colourLength 0 (s.toList ++ rest) =
      t.toList ++ dropStretches colourLength 0 rest

/-- A character that stands in no terminal code and next to none. -/
def isCalm (c : Char) : Bool := c != '\x1b' && c != '\x01' && c != '\x02'

theorem takes_isCalm : Takes isCalm :=
  ((takes_ne '\x1b' (by decide) (by decide)).and (takes_ne '\x01' (by decide) (by decide))).and
    (takes_ne '\x02' (by decide) (by decide))

theorem colourLength_cons_of_isCalm {c : Char} (h : isCalm c) (rest : List Char) :
    colourLength (c :: rest) = 0 := by
  unfold isCalm at h
  unfold colourLength
  grind

theorem head?_append_ne {c : Char} {cs ds : List Char} (hcs : cs.head? ≠ some c)
    (hds : ds.head? ≠ some c) : (cs ++ ds).head? ≠ some c := by
  cases cs with
  | nil => exact hds
  | cons d cs => exact hcs

theorem dropStretches_length_append (length : List Char → Nat) (cs rest : List Char) :
    dropStretches length cs.length (cs ++ rest) = dropStretches length 0 rest := by
  induction cs with
  | nil => rfl
  | cons c cs ih => exact ih

namespace Uncolours

variable {s s' t t' : String}

theorem of_calm (h : MadeOf isCalm s) : Uncolours s s where
  head hhead := by
    have hcalm := h _ (List.mem_of_mem_head? hhead)
    exact absurd hcalm (by decide)
  dropped rest _ := by
    unfold MadeOf at h
    generalize s.toList = cs at h
    -- along the characters: a code begins at none of them
    induction cs with
    | nil => rfl
    | cons c cs ih =>
      obtain ⟨hc, hcs⟩ := List.forall_mem_cons.mp h
      rw [List.cons_append, dropStretches, colourLength_cons_of_isCalm hc]
      exact congrArg (c :: ·) (ih hcs)

theorem append (h : Uncolours s t) (h' : Uncolours s' t') : Uncolours (s ++ s') (t ++ t') where
  head := by
    rw [String.toList_append]
    exact head?_append_ne h.head h'.head
  dropped rest hrest := by
    -- behind the first text stands the second one, and no mark of invisible text
    rw [String.toList_append, List.append_assoc, h.dropped _ (head?_append_ne h'.head hrest),
      h'.dropped rest hrest, String.toList_append, List.append_assoc]

theorem intercalate {α : Type} {coloured cell : α → String}
    (h : ∀ i, Uncolours (coloured i) (cell i)) (hs : Uncolours s s) (row : List α) :
    Uncolours (s.intercalate (row.map coloured)) (s.intercalate (row.map cell)) := by
  induction row with
  | nil => exact of_calm (s := "") (by decide)
  | cons i row ih =>
    cases row with
    | nil => simpa using h i
    | cons j row => simpa [String.intercalate_cons_cons] using ((h i).append hs).append ih

/-- A control sequence is taken out. -/
theorem sequence {ps : List Char} {c : Char} (hps : ps.all isParameter)
    (hc : isParameter c = false) (halpha : c.isAlpha) :
    Uncolours (String.ofList ('\x1b' :: '[' :: (ps ++ [c]))) "" where
  head := by simp
  dropped rest hrest := by
    have htext : (String.ofList ('\x1b' :: '[' :: (ps ++ [c]))).toList ++ rest =
        '\x1b' :: '[' :: (ps ++ c :: rest) := by
      simp
    rw [List.all_eq_true] at hps
    have htake : (ps ++ c :: rest).takeWhile isParameter = ps := by
      rw [List.takeWhile_append_of_pos hps, List.takeWhile_cons_of_neg (by simp [hc]),
        List.append_nil]
    have hdrop : (ps ++ c :: rest).dropWhile isParameter = c :: rest := by
      rw [List.dropWhile_append_of_pos hps, List.dropWhile_cons_of_neg (by simp [hc])]
    have hmark : (rest.head? == some '\x02') = false := by simpa using hrest
    have hlength : colourLength ('\x1b' :: '[' :: (ps ++ c :: rest)) = ps.length + 3 := by
      unfold colourLength
      simp [htake, hdrop, halpha, hmark]
      omega
    -- with the first character goes what the sequence has left
    have hleft := dropStretches_length_append colourLength ('[' :: (ps ++ [c])) rest
    rw [htext, dropStretches, hlength]
    simpa using hleft

theorem code {s : String} (h : s ∈ [yellow, bright, plain]) : Uncolours s "" := by
  have hsequence : ∃ ps, s = String.ofList ('\x1b' :: '[' :: (ps ++ ['m'])) ∧
      ps.all isParameter := by
    simp only [List.mem_cons, List.not_mem_nil, or_false] at h
    rcases h with rfl | rfl | rfl
    · exact ⟨['3', '3'], rfl, by decide⟩
    · exact ⟨['1'], rfl, by decide⟩
    · exact ⟨['0'], rfl, by decide⟩
  obtain ⟨ps, rfl, hps⟩ := hsequence
  exact sequence hps (by decide) (by decide)

theorem highlighted (h : Uncolours s t) : Uncolours (yellow ++ bright ++ s ++ plain) t := by
  simpa using (((code (by simp)).append (code (s := bright) (by simp))).append h).append
    (code (s := plain) (by simp))

end Uncolours

theorem uncoloured_of_uncolours {s t : String} (hcommand : NoCommand s) (h : Uncolours s t) :
    uncoloured s = some t := by
  have hdropped := h.dropped [] (by simp)
  rw [List.append_nil] at hdropped
  unfold uncoloured withoutCommands
  rw [TerminalCommand.allFrom_eq_nil hcommand]
  simp [hdropped, dropStretches]

/-! ## Without marks -/

/-- Does a cell end in front of these characters, its mark counted in?  It does at the end of the
row, and at two blanks that the next cell stands behind. -/
def endsCell : List Char → Bool
  | [] => true
  | ' ' :: ' ' :: c :: _ => c != ' '
  | _ => false

def withoutMarks : List Char → List Char
  | [] => []
  | c :: rest => if endsCell rest then withoutMarks rest else c :: withoutMarks rest

/-- A row without the mark behind each cell. -/
def unmarked (row : String) : String := String.ofList (withoutMarks row.toList)

/-- A text that can be told from what stands beside it in a row: it neither begins nor ends with a
blank, and has one blank at most. -/
structure IsCell (s : String) : Prop where
  head : ∃ c cs, s.toList = c :: cs ∧ c ≠ ' '
  last : s.toList.getLast? ≠ some ' '
  blanks : s.toList.count ' ' ≤ 1

theorem IsCell.of_parts {front behind : String} {n : Nat} (hn : n ≤ 1)
    (hfront : MadeOf (· != ' ') front) (hfront' : front ≠ "")
    (hbehind : MadeOf (· != ' ') behind) (hbehind' : behind ≠ "") :
    IsCell (front ++ (String.ofList (List.replicate n ' ') ++ behind)) := by
  have hchars : (front ++ (String.ofList (List.replicate n ' ') ++ behind)).toList =
      front.toList ++ (List.replicate n ' ' ++ behind.toList) := by simp
  have hnot : ' ' ∉ front.toList := hfront.not_mem (by decide)
  have hnot' : ' ' ∉ behind.toList := hbehind.not_mem (by decide)
  have hne : front.toList ≠ [] := by simpa using hfront'
  have hne' : behind.toList ≠ [] := by simpa using hbehind'
  constructor
  · obtain ⟨c, cs, hcons⟩ := List.exists_cons_of_ne_nil hne
    rw [hcons] at hchars hnot
    exact ⟨c, _, hchars, fun hc => hnot (hc ▸ List.mem_cons_self)⟩
  · rw [hchars, ← List.append_assoc, List.getLast?_append_of_ne_nil _ hne']
    exact fun hlast => hnot' (List.mem_of_getLast? hlast)
  · rw [hchars, List.count_append, List.count_append, List.count_eq_zero_of_not_mem hnot,
      List.count_eq_zero_of_not_mem hnot', List.count_replicate_self]
    omega

theorem endsCell_cons_of_ne {c : Char} (h : c ≠ ' ') (rest : List Char) :
    endsCell (c :: rest) = false := by
  unfold endsCell
  grind

theorem endsCell_cons_cons_of_ne {c : Char} (h : c ≠ ' ') (b : Char) (rest : List Char) :
    endsCell (b :: c :: rest) = false := by
  unfold endsCell
  grind

theorem endsCell_cons_of_endsCell {rest : List Char} (h : endsCell rest) (mark : Char) :
    endsCell (mark :: rest) = false := by
  unfold endsCell at h
  split at h
  · unfold endsCell
    grind
  · by_cases hmark : mark = ' '
    · rw [hmark]
      rfl
    · exact endsCell_cons_of_ne hmark _
  · cases h

/-- A cell ends behind its mark only, so none of its own characters is taken for one. -/
theorem endsCell_append_eq_false {c : Char} {cs : List Char} (hlast : (c :: cs).getLast? ≠ some ' ')
    (hblanks : (c :: cs).count ' ' ≤ 1) (mark : Char) {rest : List Char} (hrest : endsCell rest) :
    endsCell (cs ++ mark :: rest) = false := by
  cases cs with
  | nil => exact endsCell_cons_of_endsCell hrest mark
  | cons d cs =>
    by_cases hd : d = ' '
    · -- a blank in a cell is the only one, and not at its end
      subst hd
      cases cs with
      | nil => exact absurd rfl hlast
      | cons e cs =>
        have he : e ≠ ' ' := by
          rintro rfl
          simp only [List.count_cons_self, List.count_cons] at hblanks
          omega
        exact endsCell_cons_cons_of_ne he _ _
    · exact endsCell_cons_of_ne hd _

/-- Behind a cell and its mark stands nothing, or the next cell after two blanks. -/
theorem withoutMarks_append {cs : List Char} (hlast : cs.getLast? ≠ some ' ')
    (hblanks : cs.count ' ' ≤ 1) (mark : Char) {rest : List Char} (hrest : endsCell rest) :
    withoutMarks (cs ++ mark :: rest) = cs ++ withoutMarks rest := by
  induction cs with
  | nil => rw [List.nil_append, withoutMarks, if_pos hrest, List.nil_append]
  | cons c cs ih =>
    have hinside := endsCell_append_eq_false hlast hblanks mark hrest
    have htail := ih (by cases cs <;> simp_all) (by rw [List.count_cons] at hblanks; omega)
    rw [List.cons_append, withoutMarks, hinside, htail]
    rfl

section

variable {α : Type} {cell : α → String} (h : ∀ i, IsCell (cell i)) (mark : α → Char)
include h

theorem exists_head_of_marked (i : α) (row : List α) :
    ∃ c cs, ("  ".intercalate
      ((i :: row).map fun i => cell i ++ String.singleton (mark i))).toList = c :: cs ∧ c ≠ ' ' := by
  obtain ⟨c, cs, hcell, hc⟩ := (h i).head
  cases row with
  | nil => exact ⟨c, _, by simp [hcell]; rfl, hc⟩
  | cons j row => exact ⟨c, _, by simp [String.intercalate_cons_cons, hcell]; rfl, hc⟩

theorem withoutMarks_intercalate (row : List α) :
    withoutMarks ("  ".intercalate (row.map fun i => cell i ++ String.singleton (mark i))).toList =
      ("  ".intercalate (row.map cell)).toList := by
  induction row with
  | nil => rfl
  | cons i row ih =>
    have hcell (rest : List Char) (hrest : endsCell rest) :=
      withoutMarks_append (h i).last (h i).blanks (mark i) hrest
    cases row with
    | nil => simpa [withoutMarks] using hcell [] rfl
    | cons j row =>
      obtain ⟨c, cs, hnext, hc⟩ := exists_head_of_marked h mark j row
      -- two blanks part the cells, and neither of them is a mark
      have hgap : withoutMarks (' ' :: ' ' :: c :: cs) = ' ' :: ' ' :: withoutMarks (c :: cs) := by
        rw [withoutMarks, endsCell_cons_cons_of_ne hc, withoutMarks, endsCell_cons_of_ne hc]
        rfl
      have hrow := hcell (' ' :: ' ' :: c :: cs) (by simpa [endsCell] using hc)
      rw [hgap, ← hnext, ih] at hrow
      simpa [String.intercalate_cons_cons] using hrow

theorem unmarked_intercalate (row : List α) :
    unmarked ("  ".intercalate (row.map fun i => cell i ++ String.singleton (mark i))) =
      "  ".intercalate (row.map cell) := by
  unfold unmarked
  rw [withoutMarks_intercalate h mark, String.ofList_toList]

end

example : unmarked "א= 3*  ב=25(3)   ג= 0 " = "א= 3  ב=25(3)  ג= 0" := by decide

end Text

open LetterMachine.Text

theorem Slot.isCell_cell (i : Slot) (x : Int) : IsCell (i.cell x) := by
  have hblank := takes_ne ' ' (by decide) (by decide)
  have hname : MadeOf (· != ' ') (i.name ++ "=") :=
    (madeOf_name hblank (by decide) i).append (by decide)
  have hnumeral : ∀ n, MadeOf (· != ' ') (Numeral.text n) := MadeOf.numeral hblank (by decide)
  unfold cell
  split
  · have hlength : (Numeral.text x).length ≠ 0 := by simpa using Numeral.text_ne_empty x
    exact .of_parts (by omega) hname (by simp) (hnumeral x) (Numeral.text_ne_empty x)
  · have hbehind : MadeOf (· != ' ')
        (Numeral.text x ++ ("(" ++ (Numeral.text (residue x) ++ ")"))) :=
      (hnumeral x).append (.append (by decide) ((hnumeral (residue x)).append (by decide)))
    simpa [String.append_assoc] using
      IsCell.of_parts (n := 0) (by decide) hname (by simp) hbehind (by simp)

/-! ## Rows -/

namespace State

/-- The letters in rows of so many. -/
def letterRows (columns : Nat) : List (List Slot) :=
  (List.range (22 ⌈/⌉ columns)).map fun k => (letterSlots.drop (columns * k)).take columns

theorem pairwise_letterSlots : letterSlots.Pairwise (· < ·) :=
  (List.pairwise_lt_finRange 23).sublist (List.take_sublist 22 _)

theorem length_letterSlots : letterSlots.length = 22 := rfl

theorem getElem_letterSlots {n : Nat} (h : n < letterSlots.length) : letterSlots[n].val = n := by
  have hvals : letterSlots.map Fin.val = List.range 22 := by decide
  have hval := congrArg (·[n]?) hvals
  simpa [List.getElem?_eq_getElem h, length_letterSlots ▸ h] using hval

theorem filter_eq_take_drop (start columns : Nat) :
    (letterSlots.filter fun i => start ≤ i.val ∧ i.val < start + columns) =
      (letterSlots.drop start).take columns := by
  -- both are in the order of the letters, so the members decide
  refine (pairwise_letterSlots.filter _).eq_of_mem_iff
    ((pairwise_letterSlots.sublist (List.drop_sublist start _)).sublist
      (List.take_sublist columns _)) fun i => ?_
  rw [List.mem_filter, mem_letterSlots_iff, decide_eq_true_eq, List.mem_take_iff_getElem]
  constructor
  · rintro ⟨hi, hlow, hhigh⟩
    refine ⟨i.val - start, ?_, ?_⟩
    · rw [List.length_drop, length_letterSlots]
      omega
    · apply Fin.ext
      rw [List.getElem_drop, getElem_letterSlots]
      omega
  · rintro ⟨n, hn, rfl⟩
    rw [List.length_drop, length_letterSlots] at hn
    rw [List.getElem_drop, getElem_letterSlots]
    omega

/-- Pieces of one width, one after the other. -/
theorem flatten_pieces {α : Type} (xs : List α) (width count : Nat) :
    ((List.range count).map fun k => (xs.drop (width * k)).take width).flatten =
      xs.take (width * count) := by
  induction count with
  | zero => simp
  | succ count ih =>
    rw [List.range_succ, List.map_append, List.flatten_append, ih, Nat.mul_succ, List.take_add]
    simp

section

variable {columns : Nat} (hcolumns : 0 < columns)
include hcolumns

theorem lt_rowCount_iff (k n : Nat) : k < n ⌈/⌉ columns ↔ columns * k < n := by
  rw [← Nat.not_le, ceilDiv_le_iff_le_mul hcolumns, Nat.not_le]

theorem rowStarts_eq_map :
    rowStarts columns = .ok ((List.range (22 ⌈/⌉ columns)).map (columns * ·)) := by
  rw [rowStarts_of_pos (by omega)]
  congr 1
  -- both lists are in order, so it is enough that they have the same members
  refine (List.pairwise_lt_range.filter _).eq_of_mem_iff (r := (· < ·)) ?_ fun i => ?_
  · rw [List.pairwise_map]
    exact List.pairwise_lt_range.imp fun hlt => Nat.mul_lt_mul_of_pos_left hlt hcolumns
  · simp only [List.mem_filter, List.mem_map, List.mem_range, lt_rowCount_iff hcolumns,
      decide_eq_true_eq]
    constructor
    · rintro ⟨hi, hmod⟩
      obtain ⟨k, rfl⟩ := Int.natCast_dvd_natCast.mp (Int.dvd_of_emod_eq_zero hmod)
      exact ⟨k, hi, rfl⟩
    · rintro ⟨k, hk, rfl⟩
      exact ⟨hk, Int.emod_eq_zero_of_dvd (Int.natCast_dvd_natCast.mpr ⟨k, rfl⟩)⟩

theorem flatten_letterRows : (letterRows columns).flatten = letterSlots := by
  have hall : 22 ≤ columns * (22 ⌈/⌉ columns) := (ceilDiv_le_iff_le_mul hcolumns).mp le_rfl
  rw [letterRows, flatten_pieces]
  exact List.take_of_length_le hall

theorem length_of_mem_letterRows {row : List Slot} (h : row ∈ letterRows columns) :
    0 < row.length ∧ row.length ≤ columns := by
  obtain ⟨k, hk, rfl⟩ := List.mem_map.mp h
  have hstart := (lt_rowCount_iff hcolumns k 22).mp (List.mem_range.mp hk)
  rw [List.length_take, List.length_drop, length_letterSlots]
  omega

end

/-! ## Cells -/

/-- Does a register hold another number than in a state before, if there is one? -/
def differsFrom (previous : Option State) (s : State) (i : Slot) : Bool :=
  previous.any fun p => p.get i != s.get i

theorem mem_changedSince {previous : Option State} {s : State} {i : Slot} :
    i ∈ s.changedSince previous ↔ s.differsFrom previous i := by
  cases previous with
  | none => simp [changedSince, differsFrom]
  | some p => simp [changedSince, differsFrom, mem_changed]

/-- The cell of a letter in the plain table: its mark stands behind it. -/
def markedCell (previous : Option State) (s : State) (i : Slot) : String :=
  i.cell (s.get i) ++ if s.differsFrom previous i then "*" else " "

/-- The cell of a register in the coloured table. -/
def highlightedCell (previous : Option State) (s : State) (i : Slot) : String :=
  if s.differsFrom previous i then yellow ++ bright ++ i.cell (s.get i) ++ plain
  else i.cell (s.get i)

section

variable {s : State} (hs : s.Writable) (previous : Option State) {columns : Nat}
include hs

theorem writtenCell_eq (i : Slot) : i.writtenCell (s.get i) = .ok (i.cell (s.get i)) :=
  shownWith_of_writable (List.forall_mem_singleton.mpr (hs i)) _

theorem colouredCell_eq (i : Slot) :
    s.colouredCell (s.changedSince previous) i = .ok (s.highlightedCell previous i) := by
  unfold colouredCell
  rw [writtenCell_eq hs]
  simp only [mem_changedSince]
  rfl

theorem rows_eq (hcolumns : 0 < columns) :
    s.rows previous columns = .ok
      ((letterRows columns).map (fun row => "  ".intercalate (row.map (s.markedCell previous))) ++
        [s.accLine [] ++ if s.differsFrom previous Slot.acc then "*" else ""]) := by
  have hcells : letterSlots.mapM (fun i => do
      return (← i.writtenCell (s.get i)) ++ if i ∈ s.changedSince previous then "*" else " ") =
      .ok (letterSlots.map (s.markedCell previous)) := by
    refine mapM_eq_pure fun i _ => ?_
    rw [writtenCell_eq hs]
    simp only [mem_changedSince]
    rfl
  have hacc : s.accLine (s.changedSince previous) =
      s.accLine [] ++ if s.differsFrom previous Slot.acc then "*" else "" := by
    simp [accLine, mem_changedSince]
  have hnumber : ∀ n ∈ [s.acc], Numeral.Writable n := List.forall_mem_singleton.mpr (hs Slot.acc)
  have htotal := shownWith_of_writable hnumber (s.accLine (s.changedSince previous))
  unfold rows
  dsimp only
  rw [hcells, rowStarts_eq_map hcolumns, ← hacc]
  simp only [bind, Except.bind, htotal, letterRows, List.map_map, Function.comp_def, List.map_take,
    List.map_drop, Int.toNat_natCast]
  rfl

theorem colouredTable_eq (hcolumns : 0 < columns) :
    s.colouredTable previous columns = .ok (lines
      ((letterRows columns).map
        (fun row => "  ".intercalate (row.map (s.highlightedCell previous))) ++
        [s.highlightedCell previous Slot.acc])) := by
  have hrow : ∀ start, (do
      let row := letterSlots.filter fun i =>
        start ≤ i.val ∧ i.val < start + (columns : Int).toNat
      return "  ".intercalate (← row.mapM (s.colouredCell (s.changedSince previous)))) =
      (.ok ("  ".intercalate (((letterSlots.drop start).take columns).map
        (s.highlightedCell previous))) : Answer String) := by
    intro start
    dsimp only
    rw [Int.toNat_natCast, filter_eq_take_drop,
      mapM_eq_pure fun i _ => colouredCell_eq hs previous i]
    rfl
  unfold colouredTable
  dsimp only
  rw [rowStarts_eq_map hcolumns, colouredCell_eq hs]
  have hrows (starts : List Nat) := mapM_eq_pure fun start (_ : start ∈ starts) => hrow start
  dsimp only at hrows
  simp only [bind, Except.bind] at hrows ⊢
  rw [hrows]
  simp only [letterRows, List.map_map, Function.comp_def]
  rfl

end

theorem uncolours_highlightedCell (previous : Option State) (s : State) (i : Slot) :
    Uncolours (s.highlightedCell previous i) (i.cell (s.get i)) := by
  have hcell := Uncolours.of_calm (Slot.madeOf_cell takes_isCalm (by decide) i (s.get i))
  unfold highlightedCell
  split
  · exact hcell.highlighted
  · exact hcell

theorem unmarked_row (previous : Option State) (s : State) (row : List Slot) :
    unmarked ("  ".intercalate (row.map (s.markedCell previous))) =
      "  ".intercalate (row.map fun i => i.cell (s.get i)) := by
  have hcells := unmarked_intercalate (fun i => Slot.isCell_cell i (s.get i))
    (fun i => if s.differsFrom previous i then '*' else ' ') row
  simp only [apply_ite String.singleton] at hcells
  exact hcells

theorem uncoloured_row {s : State} (hs : s.Writable) (previous : Option State) (row : List Slot) :
    uncoloured ("  ".intercalate (row.map (s.highlightedCell previous))) =
      some ("  ".intercalate (row.map fun i => i.cell (s.get i))) := by
  refine uncoloured_of_uncolours (noCommand_of_madeOf ?_)
    (.intercalate (s.uncolours_highlightedCell previous) (.of_calm (by decide)) row)
  refine .intercalate (by decide) fun text htext => ?_
  obtain ⟨i, -, rfl⟩ := List.mem_map.mp htext
  exact madeOf_colouredCell (colouredCell_eq hs previous i)

/-- The plain table and the coloured one show the same rows: the marks taken out of the one and the
colours out of the other, they are equal, for every number of columns.  There are as many rows as
the letters need, with each letter once and in order, none of them empty and none too long.  Both
tables highlight the registers whose number is another than before, and no others. -/
theorem renderings_agree {s : State} (hs : s.Writable) (previous : Option State) {columns : Nat}
    (hcolumns : 1 ≤ columns) :
    let marked := (letterRows columns).map fun row =>
      "  ".intercalate (row.map (s.markedCell previous))
    let coloured := (letterRows columns).map fun row =>
      "  ".intercalate (row.map (s.highlightedCell previous))
    s.rows previous columns = .ok
        (marked ++ [s.accLine [] ++ if s.differsFrom previous Slot.acc then "*" else ""]) ∧
      s.colouredTable previous columns = .ok
        (lines (coloured ++ [s.highlightedCell previous Slot.acc])) ∧
      coloured.mapM uncoloured = some (marked.map unmarked) ∧
      (letterRows columns).length = 22 ⌈/⌉ columns ∧
      (letterRows columns).flatten = letterSlots ∧
      (∀ row ∈ letterRows columns, 0 < row.length ∧ row.length ≤ columns) ∧
      ∀ i, s.differsFrom previous i ↔ ∃ p, previous = some p ∧ p.get i ≠ s.get i := by
  intro marked coloured
  refine ⟨rows_eq hs previous hcolumns, colouredTable_eq hs previous hcolumns, ?_, ?_,
    flatten_letterRows hcolumns, fun row => length_of_mem_letterRows hcolumns, fun i => ?_⟩
  · rw [List.mapM_map, List.map_map]
    refine mapM_eq_pure fun row _ => ?_
    exact (uncoloured_row hs previous row).trans (congrArg some (s.unmarked_row previous row).symm)
  · rw [letterRows, List.length_map, List.length_range]
  · cases previous <;> simp [differsFrom]

/-- Five columns leave two letters for the last row. -/
theorem renderings_agree_five :
    let s := State.zero.set 0 (-3)
    1 ≤ 5 ∧ s.Writable ∧ (letterRows 5).length = 5 ∧
      s.markedCell (some State.zero) 0 = "א=-3(19)*" ∧
      ∃ marked coloured : List String,
        s.rows (some State.zero) 5 = .ok (marked ++ ["A=0 (residue 0, balanced 0)"]) ∧
        s.colouredTable (some State.zero) 5 = .ok (lines (coloured ++ ["A= 0"])) ∧
        coloured.mapM uncoloured = some (marked.map unmarked) := by
  intro s
  have hs : s.Writable := by
    show ∀ i, Numeral.Writable (s.get i)
    decide +kernel
  obtain ⟨hrows, htable, huncoloured, hlength, -⟩ :=
    renderings_agree hs (some State.zero) (by decide : 1 ≤ 5)
  have htotal : (s.accLine [] ++ if s.differsFrom (some State.zero) Slot.acc then "*" else "") =
      "A=0 (residue 0, balanced 0)" := by decide +kernel
  have hacc : s.highlightedCell (some State.zero) Slot.acc = "A= 0" := by decide +kernel
  rw [htotal] at hrows
  rw [hacc] at htable
  exact ⟨by decide, hs, hlength.trans (by decide), by decide +kernel, _, _, hrows, htable,
    huncoloured⟩

end State

end LetterMachine
