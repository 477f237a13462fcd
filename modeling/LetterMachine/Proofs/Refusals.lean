import LetterMachine.Proofs.Grammar
import LetterMachine.Proofs.Seed
import LetterMachine.Run

/-!
# What can be refused

Reading a seed, a limit or a program is refused for what is wrong with it, and for nothing else: no
file is looked for, and no fault arises that the commands do not foresee.
-/

namespace LetterMachine

open LetterMachine.Text

/-- A fault of what is given: it does not lie on the way to a file, and it is foreseen. -/
structure Fault.OfInput (f : Fault) : Prop where
  noFile : f.isFileAccess = false
  foreseen : f.isUnforeseen = false

/-- An answer that is refused with certain faults only. -/
def FailsWith {α : Type} (P : Fault → Prop) (a : Answer α) : Prop := ∀ f, a = .error f → P f

namespace FailsWith

section

variable {α β : Type} {P Q : Fault → Prop} {a : Answer α}

theorem ok (x : α) : FailsWith P (.ok x : Answer α) := fun f h => by cases h

theorem error {f : Fault} (h : P f) : FailsWith P (.error f : Answer α) := by
  intro g hg
  obtain rfl := Except.error.inj hg
  exact h

theorem mono (h : FailsWith P a) (hPQ : ∀ f, P f → Q f) : FailsWith Q a := fun f hf =>
  hPQ f (h f hf)

theorem bind (h : FailsWith P a) {next : α → Answer β} (hnext : ∀ x, FailsWith P (next x)) :
    FailsWith P (a >>= next) := by
  cases a with
  | error f => exact error (h f rfl)
  | ok x => exact hnext x

theorem map (h : FailsWith P a) (f : α → β) : FailsWith P (a >>= fun x => pure (f x)) :=
  h.bind fun x => ok (f x)

theorem mapM {f : α → Answer β} {xs : List α} (h : ∀ x ∈ xs, FailsWith P (f x)) :
    FailsWith P (xs.mapM f) := by
  induction xs with
  | nil => exact ok []
  | cons x xs ih =>
    obtain ⟨hx, hxs⟩ := List.forall_mem_cons.mp h
    rw [List.mapM_cons]
    exact hx.bind fun y => (ih hxs).map (y :: ·)

theorem foldlM {f : β → α → Answer β} (h : ∀ y x, FailsWith P (f y x)) (y : β) (xs : List α) :
    FailsWith P (xs.foldlM f y) := by
  induction xs generalizing y with
  | nil => exact ok y
  | cons x xs ih =>
    rw [List.foldlM_cons]
    exact (h y x).bind fun y' => ih y'

theorem mapError {ε : Type} {fault : ε → Fault} (h : ∀ e, P (fault e)) (a : Except ε α) :
    FailsWith P (a.mapError fault) := by
  cases a with
  | error e => exact error (h e)
  | ok x => exact ok x

end

end FailsWith

theorem Fault.ofInput_numeral (cause : Numeral.Fault) : (Fault.numeral cause).OfInput := ⟨rfl, rfl⟩

/-! ## Registers, limits and seeds -/

theorem Slot.ofNumber_failsWith (n : Int) : FailsWith Fault.OfInput (Slot.ofNumber n) := by
  unfold ofNumber
  split
  · exact .ok _
  · exact .error ⟨rfl, rfl⟩

theorem Slot.ofText_failsWith (s : String) : FailsWith Fault.OfInput (Slot.ofText s) := by
  unfold ofText
  dsimp only
  split
  · exact .ok _
  · split
    · exact (FailsWith.mapError Fault.ofInput_numeral _).bind Slot.ofNumber_failsWith
    · exact .error ⟨rfl, rfl⟩

theorem Slot.ofDatum_failsWith (d : Datum) : FailsWith Fault.OfInput (Slot.ofDatum d) := by
  cases d with
  | whole n => exact ofNumber_failsWith n
  | text s => exact ofText_failsWith s
  | nothing | truth b | real x | list items | table entries => exact .error ⟨rfl, rfl⟩

theorem Datum.limit_failsWith (d : Datum) : FailsWith Fault.OfInput d.limit := by
  unfold limit
  split
  · split
    · exact .ok _
    · exact .error ⟨rfl, rfl⟩
  · exact .error ⟨rfl, rfl⟩

namespace Seed

theorem readPair_failsWith (pair : String) : FailsWith Fault.OfInput (readPair pair) := by
  unfold readPair
  split
  · exact .error ⟨rfl, rfl⟩
  · dsimp only
    split
    · exact .error ⟨rfl, rfl⟩
    · exact (Slot.ofText_failsWith _).map _

theorem place_failsWith (s : State) (key value : Datum) :
    FailsWith Fault.OfInput (place s key value) := by
  have hchecked : FailsWith Fault.OfInput (checked key value) := by
    unfold checked
    split
    · exact .ok _
    · exact .error ⟨rfl, rfl⟩
  exact hchecked.bind fun x => (Slot.ofDatum_failsWith key).map (s.set · x)

theorem placeAll_failsWith (s : State) (pairs : List (Datum × Datum)) :
    FailsWith Fault.OfInput (placeAll s pairs) := by
  have hpair (t : State) (pair : Datum × Datum) :
      FailsWith Fault.OfInput (place t pair.1 pair.2) := place_failsWith t pair.1 pair.2
  exact .foldlM hpair s pairs

theorem state_failsWith (seed : Seed) : FailsWith Fault.OfInput seed.state := by
  cases seed with
  | none => exact .ok State.zero
  | named pairs => exact placeAll_failsWith State.zero pairs
  | values ds =>
    rw [state_values]
    split
    · exact .error ⟨rfl, rfl⟩
    · exact placeAll_failsWith State.zero (numbered ds)
  | other d => exact .error ⟨rfl, rfl⟩

end Seed

/-! ## Programs -/

theorem Token.ofText_failsWith (s : String) : FailsWith Fault.OfInput (Token.ofText s) := by
  unfold ofText
  split
  · exact .ok _
  · exact .error ⟨rfl, rfl⟩

/-- Faults that numerals are refused with, and tokens that do not fit. -/
structure Fault.OfLinking (P : Fault → Prop) : Prop where
  numeral : ∀ cause, P (.numeral cause)
  misfit : ∀ a : AssemblyFault, a.cause ≠ .malformedToken → P (.assembly a)

theorem Fault.ofLinking_ofInput : OfLinking OfInput :=
  ⟨ofInput_numeral, fun _ _ => ⟨rfl, rfl⟩⟩

namespace Linker

section

variable {P : Fault → Prop} (hP : Fault.OfLinking P) (l : Linker)
include hP

theorem blame_failsWith {α : Type} {cause : AssemblyCause} (hcause : cause ≠ .malformedToken)
    (t : Token) : FailsWith P (l.blame cause t : Answer α) :=
  .error (hP.misfit _ hcause)

theorem addMeaning_failsWith (t : Token) (m : Word.Meaning) :
    FailsWith P (l.addMeaning t m) := by
  fun_induction addMeaning l t m with
  | case1 l => exact .ok l
  | case2 l op => exact .ok _
  | case3 l op rest => exact l.blame_failsWith hP (by decide) t
  | case4 l op mode rest _ _ ih => exact ih

theorem feed_failsWith (piece : Piece)
    (hempty : ∀ text, piece = .empty text →
      P (.assembly ⟨.malformedToken, text, l.program.size, none⟩)) :
    FailsWith P (l.feed piece) := by
  cases piece with
  | empty text => exact .error (hempty text rfl)
  | instruction i =>
    cases hl : l.waiting with
    | none =>
      simp only [feed, hl]
      exact .ok _
    | some opened =>
      simp only [feed, hl]
      exact l.blame_failsWith hP (by decide) _
  | token t =>
    cases hkind : t.kind with
    | number =>
      cases hl : l.waiting with
      | none =>
        rw [feed_number_of_none hkind hl]
        exact l.blame_failsWith hP (by decide) t
      | some opened =>
        rw [feed_number_of_some hkind hl]
        exact (FailsWith.mapError hP.numeral _).map _
    | word =>
      cases hl : l.waiting with
      | none =>
        rw [feed_word_of_none hkind hl]
        split
        · exact l.blame_failsWith hP (by decide) t
        · exact l.addMeaning_failsWith hP t _
      | some opened =>
        rw [feed_word_of_some hkind hl]
        exact l.blame_failsWith hP (by decide) _

theorem feedAll_failsWith (pieces : List Piece)
    (hempty : ∀ text, .empty text ∈ pieces → ∀ n, P (.assembly ⟨.malformedToken, text, n, none⟩)) :
    FailsWith P (l.feedAll pieces) := by
  induction pieces generalizing l with
  | nil => exact .ok l
  | cons piece pieces ih =>
    have hfirst := l.feed_failsWith hP piece fun text h =>
      hempty text (h ▸ List.mem_cons_self) l.program.size
    rw [feedAll_cons]
    exact hfirst.bind fun l => ih l fun text h => hempty text (List.mem_cons_of_mem piece h)

theorem finish_failsWith : FailsWith P l.finish := by
  unfold finish
  split
  · exact l.blame_failsWith hP (by decide) _
  · exact .ok _

end

end Linker

theorem Program.ofText_failsWith (s : String) : FailsWith Fault.OfInput (Program.ofText s) :=
  (Token.ofText_failsWith s).bind fun _ =>
    (Linker.start.feedAll_failsWith Fault.ofLinking_ofInput _ fun _ _ _ => ⟨rfl, rfl⟩).bind fun l =>
      l.finish_failsWith Fault.ofLinking_ofInput

theorem Item.pieces_failsWith (item : Item) : FailsWith Fault.OfInput item.pieces := by
  unfold pieces
  split
  · exact .ok _
  · exact .ok _
  · exact (FailsWith.mapError Fault.ofInput_numeral _).map _
  · dsimp only
    split
    · exact .ok _
    · split
      · exact .ok _
      · refine (Token.ofText_failsWith _).bind fun tokens => ?_
        cases tokens <;> exact .ok _
  · exact (FailsWith.mapError Fault.ofInput_numeral _).map _

theorem Program.ofItems_failsWith (items : List Item) :
    FailsWith Fault.OfInput (Program.ofItems items) := by
  have hfeed (l : Linker) (item : Item) :
      FailsWith Fault.OfInput (do l.feedAll (← item.pieces)) :=
    item.pieces_failsWith.bind fun pieces =>
      l.feedAll_failsWith Fault.ofLinking_ofInput pieces fun _ _ _ => ⟨rfl, rfl⟩
  exact (FailsWith.foldlM hfeed Linker.start items).bind fun l =>
    l.finish_failsWith Fault.ofLinking_ofInput

theorem Source.toItems_failsWith (source : Source) :
    FailsWith Fault.OfInput source.toItems := by
  unfold toItems
  split
  · exact .ok _
  · exact .ok _
  · exact .ok _
  · exact .error ⟨rfl, rfl⟩

theorem Source.program_failsWith (source : Source) : FailsWith Fault.OfInput source.program := by
  unfold program
  split
  · exact Program.ofText_failsWith _
  · refine source.toItems_failsWith.bind fun row => ?_
    split
    · exact .ok _
    · exact Program.ofItems_failsWith row

theorem Source.run_failsWith (s : State) (source : Source) (limit : Datum) (traced : Bool) :
    FailsWith Fault.OfInput (source.run s limit traced) :=
  limit.limit_failsWith.bind fun limit =>
    source.program_failsWith.map (Program.run s · limit traced)

end LetterMachine
