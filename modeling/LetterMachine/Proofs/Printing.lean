import LetterMachine.CommandLine
import LetterMachine.Proofs.Characters
import LetterMachine.Proofs.Seed

/-!
# What can be printed

Printing takes the colours out of a text that gives no command to the terminal.  A shown outcome is
made of names, numbers and colours: it gives none, so that what can be shown can be printed.
-/

namespace LetterMachine

namespace Text

namespace TerminalCommand

theorem atFront?_eq_none {cs : List Char} (h : ']' ∉ cs) (start : Nat) :
    atFront? start cs = none := by
  have hopened : ']' ∉ if cs.head? == some '\x01' then cs.tail else cs := by
    split
    · exact fun hmem => h (List.mem_of_mem_tail hmem)
    · exact h
  unfold atFront?
  dsimp only
  split
  · next heq =>
    rw [heq] at hopened
    exact absurd (List.mem_cons_of_mem _ List.mem_cons_self) hopened
  · rfl

theorem allFrom_eq_nil {cs : List Char} (h : ']' ∉ cs) (start skip : Nat) :
    allFrom start skip cs = [] := by
  induction cs generalizing start skip with
  | nil => cases skip <;> rfl
  | cons c cs ih =>
    have hcs : ']' ∉ cs := fun hmem => h (List.mem_cons_of_mem c hmem)
    cases skip with
    | succ skip => exact ih hcs (start + 1) skip
    | zero =>
      unfold allFrom
      rw [atFront?_eq_none h]
      exact ih hcs (start + 1) 0

end TerminalCommand

theorem exists_uncoloured {s : String} (h : NoCommand s) : ∃ text, uncoloured s = some text := by
  unfold uncoloured withoutCommands
  rw [TerminalCommand.allFrom_eq_nil h]
  exact ⟨_, rfl⟩

theorem noCommand_of_madeOf {s : String} (h : MadeOf (· != ']') s) : NoCommand s :=
  h.not_mem (by decide)

theorem takes_ne_bracket : Takes (· != ']') := takes_ne ']' (by decide) (by decide)

end Text

open LetterMachine.Text

theorem printsPlain_printLine : PrintsPlain printLine where
  print_eq s h := by
    obtain ⟨text, htext⟩ := exists_uncoloured h
    refine ⟨text, htext, ?_⟩
    unfold printLine
    rw [htext]

/-! ## Texts that are shown -/

theorem shownWith_eq_ok {α : Type} {numbers : List Int} {x y : α}
    (h : shownWith numbers x = .ok y) : y = x := by
  unfold shownWith Numeral.guarded at h
  split at h
  · exact (Except.ok.inj h).symm
  · cases h

namespace State

theorem madeOf_colouredCell {s : State} {changed : List Slot} {i : Slot} {text : String}
    (h : s.colouredCell changed i = .ok text) : MadeOf (· != ']') text := by
  obtain ⟨cell, hcell, h⟩ := Answer.bind_eq_ok h
  obtain rfl := shownWith_eq_ok hcell
  obtain rfl := Except.ok.inj h
  have hcell := Slot.madeOf_cell takes_ne_bracket (by decide) i (s.get i)
  split
  · exact (MadeOf.append (by decide) hcell).append (by decide)
  · exact hcell

theorem madeOf_colouredTable {s : State} {previous : Option State} {columns : Int} {text : String}
    (h : s.colouredTable previous columns = .ok text) : MadeOf (· != ']') text := by
  obtain ⟨starts, -, h⟩ := Answer.bind_eq_ok h
  obtain ⟨rows, hrows, h⟩ := Answer.bind_eq_ok h
  obtain ⟨total, htotal, h⟩ := Answer.bind_eq_ok h
  obtain rfl := Except.ok.inj h
  have hrow : ∀ row ∈ rows, MadeOf (· != ']') row := by
    refine Answer.forall_of_mapM (fun start row hstart => ?_) hrows
    obtain ⟨cells, hcells, hstart⟩ := Answer.bind_eq_ok hstart
    obtain rfl := Except.ok.inj hstart
    exact .intercalate (by decide)
      (Answer.forall_of_mapM (fun i cell hcell => madeOf_colouredCell hcell) hcells)
  refine .lines (by decide) fun row hmem => ?_
  rcases List.mem_append.mp hmem with hmem | hmem
  · exact hrow row hmem
  · obtain rfl := List.mem_singleton.mp hmem
    exact madeOf_colouredCell htotal

end State

namespace Outcome

theorem madeOf_colouredStep {t : Step} {text : String} (h : colouredStep t = .ok text) :
    MadeOf (· != ']') text := by
  obtain ⟨title, htitle, h⟩ := Answer.bind_eq_ok h
  obtain ⟨table, htable, h⟩ := Answer.bind_eq_ok h
  obtain rfl := shownWith_eq_ok htitle
  obtain rfl := Except.ok.inj h
  have hrepr := MadeOf.repr takes_ne_bracket t.index
  have hindex : MadeOf (· != ']') (cyan ++ "t=" ++ atLeft 4 (Nat.repr t.index)) :=
    MadeOf.append (by decide) (hrepr.atLeft (by decide) 4)
  have hinstruction :=
    Instruction.madeOf_text takes_ne_bracket (by decide) (by decide) t.instruction
  have htitle := ((hindex.append (by decide : MadeOf (· != ']') plain)).append
    (by decide : MadeOf (· != ']') " ")).append hinstruction
  exact .lines (by decide) (List.forall_mem_cons.mpr
    ⟨htitle, List.forall_mem_singleton.mpr (State.madeOf_colouredTable htable)⟩)

theorem madeOf_notice {o : Outcome} {notice : List String} (h : o.notice = .ok notice) :
    ∀ line ∈ notice, MadeOf (· != ']') line := by
  unfold Outcome.notice at h
  split at h
  · obtain ⟨line, hline, h⟩ := Answer.bind_eq_ok h
    obtain rfl := shownWith_eq_ok hline
    obtain rfl := Except.ok.inj h
    have hrepr := MadeOf.repr takes_ne_bracket
    have hlimit : MadeOf (· != ']') (red ++ "step limit " ++ Nat.repr o.limit) :=
      MadeOf.append (by decide) (hrepr o.limit)
    have hsteps := (hlimit.append (by decide : MadeOf (· != ']') " reached after ")).append
      (hrepr o.steps)
    exact List.forall_mem_singleton.mpr
      ((hsteps.append (by decide : MadeOf (· != ']') " steps")).append
        (by decide : MadeOf (· != ']') plain))
  · obtain rfl := Except.ok.inj h
    exact List.forall_mem_nil _

theorem madeOf_coloured {o : Outcome} {previous : State} {traced : Bool} {text : String}
    (h : o.coloured previous traced = .ok text) : MadeOf (· != ']') text := by
  obtain ⟨steps, hsteps, h⟩ := Answer.bind_eq_ok h
  obtain ⟨final, hfinal, h⟩ := Answer.bind_eq_ok h
  obtain ⟨notice, hnotice, h⟩ := Answer.bind_eq_ok h
  obtain rfl := Except.ok.inj h
  refine .lines (by decide) fun line hmem => ?_
  rcases List.mem_append.mp hmem with hmem | hmem
  · rcases List.mem_append.mp hmem with hmem | hmem
    · exact Answer.forall_of_mapM (fun t text => madeOf_colouredStep) hsteps line hmem
    · obtain rfl := List.mem_singleton.mp hmem
      exact State.madeOf_colouredTable hfinal
  · exact madeOf_notice hnotice line hmem

/-- What can be shown of an outcome can be printed. -/
theorem exists_print_of_coloured {print : String → Answer String} (hprint : PrintsPlain print)
    {o : Outcome} {previous : State} {traced : Bool} {text : String}
    (h : o.coloured previous traced = .ok text) : ∃ printed, print text = .ok printed := by
  obtain ⟨plain, -, hplain⟩ := hprint.print_eq text (noCommand_of_madeOf (madeOf_coloured h))
  exact ⟨_, hplain⟩

end Outcome

end LetterMachine
