import LetterMachine.Proofs.Characters
import LetterMachine.Proofs.Display
import LetterMachine.Proofs.Run
import LetterMachine.Proofs.Seed

/-!
# Traces read back

The line of a step tells each register that the step changed, with the number before and the number
behind it.  Such a field is the only thing in a line that holds a colon, and blanks keep it apart from
all else.  So the line is read back without a doubt, and from the state before the step it gives the
state behind it.  A run that is told line by line can be replayed from its first state.
-/

namespace LetterMachine

namespace Text

/-- The fields of a line: what stands between blanks and holds a colon. -/
def fields (line : String) : List String :=
  ((line.toList.splitOn ' ').filter (·.contains ':')).map String.ofList

/-- Pieces are found again between the separators, as long as no piece holds a separator and each is
told from the empty one. -/
theorem filter_splitOn_intercalate {kept : List Char → Bool} {separator : Char} {between : String}
    {pieces : List String} (hbetween : between.toList = [separator]) (hempty : kept [] = false)
    (h : ∀ s ∈ pieces, separator ∉ s.toList ∧ kept s.toList) :
    ((between.intercalate pieces).toList.splitOn separator).filter kept =
      pieces.map String.toList := by
  rw [String.toList_intercalate, hbetween]
  cases pieces with
  | nil => simp [hempty]
  | cons s pieces =>
    have hseparator : ∀ cs ∈ (s :: pieces).map String.toList, separator ∉ cs := by
      intro cs hcs
      obtain ⟨t, ht, rfl⟩ := List.mem_map.mp hcs
      exact (h t ht).1
    rw [List.splitOn_intercalate separator hseparator (by simp), List.filter_eq_self]
    intro cs hcs
    obtain ⟨t, ht, rfl⟩ := List.mem_map.mp hcs
    exact (h t ht).2

theorem fields_intercalate {pieces : List String}
    (h : ∀ s ∈ pieces, ' ' ∉ s.toList ∧ ':' ∈ s.toList) :
    fields (" ".intercalate pieces) = pieces := by
  unfold fields
  rw [filter_splitOn_intercalate rfl rfl fun s hs => ⟨(h s hs).1, by simpa using (h s hs).2⟩,
    List.map_map]
  simp

theorem fields_append (s t : String) : fields (s ++ " " ++ t) = fields s ++ fields t := by
  have hchars : (s ++ " " ++ t).toList = s.toList ++ ' ' :: t.toList := by simp
  unfold fields
  rw [hchars, List.splitOn_append_cons_self, List.filter_append, List.map_append]

theorem mem_of_mem_splitOn {c separator : Char} {cs word : List Char}
    (hword : word ∈ cs.splitOn separator) (hc : c ∈ word) : c ∈ cs := by
  induction cs generalizing word with
  | nil =>
    rw [List.splitOn_nil, List.mem_singleton] at hword
    rwa [hword] at hc
  | cons d cs ih =>
    rw [List.splitOn_cons_eq_if_modifyHead] at hword
    split at hword
    · rcases List.mem_cons.mp hword with rfl | hword
      · cases hc
      · exact List.mem_cons_of_mem d (ih hword hc)
    · -- the character goes to the first word behind it
      cases hwords : cs.splitOn separator with
      | nil =>
        rw [hwords] at hword
        cases hword
      | cons first words =>
        rw [hwords] at hword
        rcases List.mem_cons.mp hword with rfl | hword
        · rcases List.mem_cons.mp hc with rfl | hc
          · exact List.mem_cons_self
          · exact List.mem_cons_of_mem d (ih (hwords ▸ List.mem_cons_self) hc)
        · exact List.mem_cons_of_mem d (ih (hwords ▸ List.mem_cons_of_mem first hword) hc)

theorem fields_eq_nil {s : String} (h : ':' ∉ s.toList) : fields s = [] := by
  unfold fields
  rw [List.map_eq_nil_iff, List.filter_eq_nil_iff]
  intro word hword
  simpa using fun hc => h (mem_of_mem_splitOn hword hc)

example : fields "t=0    בִ -1 ב:0->-1 A:7->9" = ["ב:0->-1", "A:7->9"] := by decide

/-- Lines are told by the text that they are joined to, if each of them is there to be seen. -/
theorem eq_of_lines_eq {ls ms : List String} (hls : ∀ l ∈ ls, '\n' ∉ l.toList ∧ l.toList ≠ [])
    (hms : ∀ m ∈ ms, '\n' ∉ m.toList ∧ m.toList ≠ []) (h : lines ls = lines ms) : ls = ms := by
  have hsplit : ∀ ks : List String, (∀ k ∈ ks, '\n' ∉ k.toList ∧ k.toList ≠ []) →
      ((lines ks).toList.splitOn '\n').filter (!·.isEmpty) = ks.map String.toList := fun ks hks =>
    filter_splitOn_intercalate rfl rfl fun k hk => ⟨(hks k hk).1, by simpa using (hks k hk).2⟩
  have hmap := hsplit ls hls
  rw [h, hsplit ms hms] at hmap
  exact ((List.map_inj_right fun _ _ => String.toList_inj.mp).mp hmap).symm

end Text

open LetterMachine.Text

/-! ## Changes -/

/-- What tells that a register went from one number to another. -/
def Slot.change (i : Slot) (x y : Int) : String :=
  i.name ++ ":" ++ Numeral.text x ++ "->" ++ Numeral.text y

namespace Slot

theorem toList_change (i : Slot) (x y : Int) :
    (i.change x y).toList =
      i.name.toList ++ ':' :: ((Numeral.text x).toList ++ ['-'] ++ '>' ::
        (Numeral.text y).toList) := by
  simp [change]

theorem madeOf_change {kind : Char → Bool} (h : Takes kind) (hsigns : MadeOf kind "A:->")
    (i : Slot) (x y : Int) : MadeOf kind (i.change x y) := by
  have hnumeral := MadeOf.numeral h (hsigns '-' (by decide))
  have hname := (madeOf_name h (hsigns 'A' (by decide)) i).append
    (hsigns.part (by decide) : MadeOf kind ":")
  exact ((hname.append (hnumeral x)).append (hsigns.part (by decide) : MadeOf kind "->")).append
    (hnumeral y)

theorem colon_mem_change (i : Slot) (x y : Int) : ':' ∈ (i.change x y).toList := by
  rw [toList_change]
  exact List.mem_append_right _ List.mem_cons_self

theorem change_inj {i j : Slot} {x y x' y' : Int} (h : i.change x y = j.change x' y') :
    i = j ∧ x = x' ∧ y = y' := by
  have harrow : ∀ n, '>' ∉ (Numeral.text n).toList := fun n =>
    (MadeOf.numeral (takes_ne '>' (by decide) (by decide)) (by decide) n).not_mem
      (by decide)
  have hchars := congrArg String.toList h
  rw [toList_change, toList_change] at hchars
  obtain ⟨hname, hrest⟩ := List.append_inj hchars (by rw [length_name, length_name])
  -- the numbers stand on the two sides of the arrow
  have hsplit := congrArg (List.splitOn '>') (List.cons.inj hrest).2
  rw [List.splitOn_append_cons_self_of_not_mem (by simp [harrow]),
    List.splitOn_append_cons_self_of_not_mem (by simp [harrow]),
    List.splitOn_eq_singleton (harrow y), List.splitOn_eq_singleton (harrow y')] at hsplit
  obtain ⟨hbefore, hbehind⟩ := List.cons.inj hsplit
  refine ⟨name_injective (String.toList_inj.mp hname), ?_, ?_⟩
  · exact Numeral.text_injective (String.toList_inj.mp (List.append_cancel_right hbefore))
  · exact Numeral.text_injective (String.toList_inj.mp (List.cons.inj hbehind).1)

end Slot

/-! ## Lines -/

namespace Step

/-- What stands in front of the changes in the line of a step. -/
def head (t : Step) : String :=
  "t=" ++ atLeft 4 (Nat.repr t.index) ++ " " ++ atLeft 6 t.instruction.text

def changes (t : Step) : List String :=
  t.changed.map fun i => i.change (t.before.get i) (t.after.get i)

section

variable {t u : Step} {i : Slot}

theorem changed_eq_nil_iff : t.changed = [] ↔ t.before = t.after := by
  unfold changed
  rw [List.eq_nil_iff_forall_not_mem]
  constructor
  · exact fun h => State.ext_get fun i => by simpa [State.mem_changed] using h i
  · intro h i hi
    exact State.mem_changed.mp hi (congrArg (State.get · i) h)

variable (t)

theorem line_eq :
    t.line =
      t.head ++ " " ++ if t.changed = [] then "(no change)" else " ".intercalate t.changes := by
  unfold line
  simp only [List.isEmpty_iff, List.map_eq_nil_iff]
  rfl

theorem madeOf_head {kind : Char → Bool} (h : Takes kind) (hsigns : MadeOf kind "t= -") :
    MadeOf kind t.head := by
  have hblank := hsigns ' ' (by decide)
  have htime := (hsigns.part (by decide) : MadeOf kind "t=").append
    ((MadeOf.repr h t.index).atLeft hblank 4)
  exact (htime.append (hsigns.part (by decide) : MadeOf kind " ")).append
    ((Instruction.madeOf_text h (hsigns '-' (by decide)) hblank t.instruction).atLeft hblank 6)

theorem madeOf_line {kind : Char → Bool} (h : Takes kind) (hsigns : MadeOf kind "t= -A:>")
    (hsame : t.changed = [] → MadeOf kind "(no change)") : MadeOf kind t.line := by
  have hhead := t.madeOf_head h (hsigns.part (by decide))
  have hspace : MadeOf kind " " := hsigns.part (by decide)
  rw [line_eq]
  refine (hhead.append hspace).append ?_
  split
  · next hnil => exact hsame hnil
  · refine hspace.intercalate fun text htext => ?_
    obtain ⟨i, -, rfl⟩ := List.mem_map.mp htext
    exact Slot.madeOf_change h (hsigns.part (by decide)) i _ _

/-- The fields of a line are the changes of the step. -/
theorem fields_line : fields t.line = t.changes := by
  have hhead : ':' ∉ t.head.toList :=
    (t.madeOf_head (takes_ne ':' (by decide) (by decide)) (by decide)).not_mem
      (by decide)
  rw [line_eq, fields_append, fields_eq_nil hhead, List.nil_append]
  split
  · next hnil =>
    unfold changes
    rw [hnil, List.map_nil]
    decide
  · refine fields_intercalate fun text htext => ?_
    obtain ⟨i, -, rfl⟩ := List.mem_map.mp htext
    have hblank := Slot.madeOf_change (takes_ne ' ' (by decide) (by decide)) (by decide) i
      (t.before.get i) (t.after.get i)
    exact ⟨hblank.not_mem (by decide), Slot.colon_mem_change i _ _⟩

/-- A line says that nothing changed iff nothing did. -/
theorem line_unchanged_iff : (∃ front, t.line = front ++ "(no change)") ↔ t.before = t.after := by
  rw [← changed_eq_nil_iff]
  constructor
  · rintro ⟨front, hfront⟩
    by_contra hne
    -- no change holds a closing bracket
    have hline := t.madeOf_line (takes_ne ')' (by decide) (by decide)) (by decide)
      (absurd · hne)
    have hbracket : ')' ∉ t.line.toList := hline.not_mem (by decide)
    rw [hfront, String.toList_append] at hbracket
    exact hbracket (List.mem_append_right _ (by decide))
  · intro hnil
    refine ⟨t.head ++ " ", ?_⟩
    rw [line_eq, if_pos hnil]

variable {t}

theorem change_mem_fields_line {x y : Int} :
    i.change x y ∈ fields t.line ↔ t.before.get i = x ∧ t.after.get i = y ∧ x ≠ y := by
  rw [fields_line]
  constructor
  · intro h
    obtain ⟨j, hj, hchange⟩ := List.mem_map.mp h
    obtain ⟨rfl, rfl, rfl⟩ := Slot.change_inj hchange
    exact ⟨rfl, rfl, State.mem_changed.mp hj⟩
  · rintro ⟨rfl, rfl, hne⟩
    exact List.mem_map.mpr ⟨i, State.mem_changed.mpr hne, rfl⟩

/-- The line of a step and the state before it give the state behind it. -/
theorem after_eq_of_line_eq (hbefore : t.before = u.before) (hline : t.line = u.line) :
    t.after = u.after := by
  refine State.ext_get fun i => ?_
  by_cases ht : t.before.get i = t.after.get i
  · by_cases hu : u.before.get i = u.after.get i
    · rw [← ht, hbefore, hu]
    · have hmem := change_mem_fields_line.mpr ⟨rfl, rfl, hu⟩
      rw [← hline] at hmem
      exact (change_mem_fields_line.mp hmem).2.1
  · have hmem := change_mem_fields_line.mpr ⟨rfl, rfl, ht⟩
    rw [hline] at hmem
    exact (change_mem_fields_line.mp hmem).2.1.symm

end

/-! ## Records -/

def states (t : Step) : State × State := (t.before, t.after)

theorem written_lines_eq {ts : List Step} (h : ∀ t ∈ ts, ∀ n ∈ t.numbers, Numeral.Writable n) :
    writtenLines ts = .ok (lines (ts.map line)) := by
  have hmap : ts.mapM writtenLine = .ok (ts.map line) :=
    mapM_eq_pure fun t ht => shownWith_of_writable (h t ht) t.line
  unfold writtenLines
  rw [hmap]
  rfl

theorem map_line_eq_of_lines_eq {ts us : List Step}
    (h : lines (ts.map line) = lines (us.map line)) : ts.map line = us.map line := by
  have hsingle : ∀ l ∈ (ts ++ us).map line, '\n' ∉ l.toList ∧ l.toList ≠ [] := by
    intro l hl
    obtain ⟨t, -, rfl⟩ := List.mem_map.mp hl
    have hline := t.madeOf_line (takes_ne '\n' (by decide) (by decide)) (by decide)
      fun _ => by decide
    refine ⟨hline.not_mem (by decide), ?_⟩
    rw [line_eq, head]
    simp
  rw [List.map_append] at hsingle
  exact eq_of_lines_eq (fun l hl => hsingle l (List.mem_append_left _ hl))
    (fun l hl => hsingle l (List.mem_append_right _ hl)) h

end Step

namespace Program

/-- The lines of a record, read one after the other, lead through the states of the run. -/
theorem after_take_eq_of_map_line_eq {s : State} {p q : Program}
    (h : (record s p).map Step.line = (record s q).map Step.line) (n : Nat) :
    s.after (p.take n) = s.after (q.take n) := by
  induction n with
  | zero => rfl
  | succ n ih =>
    have hline := congrArg (·[n]?) h
    rw [List.getElem?_map, List.getElem?_map, getElem?_record, getElem?_record] at hline
    rw [List.take_add_one, List.take_add_one] at hline ⊢
    cases hp : p[n]? with
    | none =>
      cases hq : q[n]? with
      | none => simpa using ih
      | some j => simp [hp, hq] at hline
    | some i =>
      cases hq : q[n]? with
      | none => simp [hp, hq] at hline
      | some j =>
        rw [hp, hq] at hline
        exact Step.after_eq_of_line_eq ih (Option.some.inj hline)

theorem map_states_eq_of_map_line_eq {s : State} {p q : Program}
    (h : (record s p).map Step.line = (record s q).map Step.line) :
    (record s p).map Step.states = (record s q).map Step.states := by
  have hlength : p.length = q.length := by simpa using congrArg List.length h
  have hstates := after_take_eq_of_map_line_eq h
  refine List.ext_getElem? fun n => ?_
  rw [List.getElem?_map, List.getElem?_map, getElem?_record, getElem?_record]
  by_cases hn : n < p.length
  · rw [List.getElem?_eq_getElem hn, List.getElem?_eq_getElem (hlength ▸ hn)]
    exact congrArg some (Prod.ext (hstates n) (hstates (n + 1)))
  · rw [List.getElem?_eq_none (by omega), List.getElem?_eq_none (by omega)]
    rfl

end Program

theorem Source.exists_record_of_run {source : Source} {s : State} {limit : Datum} {o : Outcome}
    {ts : List Step} (h : source.run s limit true = .ok o) (htrace : o.trace = some ts) :
    ∃ p, ts = Program.record s p := by
  obtain ⟨n, -, h⟩ := Answer.bind_eq_ok h
  obtain ⟨p, -, h⟩ := Answer.bind_eq_ok h
  obtain rfl := Except.ok.inj h
  rw [Program.run_eq] at htrace
  exact ⟨p.take n, (Option.some.inj htrace).symm⟩

/-- The text of a record loses nothing of the states.  If two runs from one state, of whatever
programs under whatever limits, are told with the same text, then they have the same steps, each
between the same states.  Each line tells of the registers that changed and of no others, each with
its numbers before and behind the step; it says that there was no change iff the state stayed. -/
theorem Source.states_eq_of_writtenLines_eq {source source' : Source} {s : State}
    {limit limit' : Datum} {o o' : Outcome} {ts us : List Step}
    (hrun : source.run s limit true = .ok o) (hrun' : source'.run s limit' true = .ok o')
    (htrace : o.trace = some ts) (htrace' : o'.trace = some us)
    (hwritable : ∀ t ∈ ts ++ us, ∀ n ∈ t.numbers, Numeral.Writable n) :
    Step.writtenLines ts = .ok (lines (ts.map Step.line)) ∧
      (Step.writtenLines ts = Step.writtenLines us → ts.map Step.states = us.map Step.states) ∧
      ∀ t ∈ ts,
        fields t.line = ((Slot.all.filter fun i => t.before.get i ≠ t.after.get i).map fun i =>
          i.name ++ ":" ++ Numeral.text (t.before.get i) ++ "->" ++
            Numeral.text (t.after.get i)) ∧
        ((∃ front, t.line = front ++ "(no change)") ↔ t.before = t.after) := by
  have hts := Step.written_lines_eq fun t ht => hwritable t (List.mem_append_left us ht)
  have hus := Step.written_lines_eq fun t ht => hwritable t (List.mem_append_right ts ht)
  refine ⟨hts, fun hsame => ?_, fun t _ => ⟨t.fields_line, t.line_unchanged_iff⟩⟩
  rw [hts, hus] at hsame
  have hlines := Step.map_line_eq_of_lines_eq (Except.ok.inj hsame)
  obtain ⟨p, rfl⟩ := exists_record_of_run hrun htrace
  obtain ⟨q, rfl⟩ := exists_record_of_run hrun' htrace'
  exact Program.map_states_eq_of_map_line_eq hlines

/-- A run that its limit cuts off is told as the run of the shorter program. -/
theorem Source.states_eq_of_writtenLines_eq_cut :
    let p : Program := [⟨.bet, .plain, 0⟩, ⟨.sovav, .immediate, 3⟩, ⟨.vav, .plain, 0⟩]
    let o := p.run State.zero 2 true
    let q : Program := p.take 2
    let o' := q.run State.zero 5 true
    ∃ ts us, o.trace = some ts ∧ o'.trace = some us ∧
      (items (p.map .instruction)).run State.zero (.whole 2) true = .ok o ∧
      (items (q.map .instruction)).run State.zero (.whole 5) true = .ok o' ∧
      (∀ t ∈ ts ++ us, ∀ n ∈ t.numbers, Numeral.Writable n) ∧
      o.status ≠ o'.status ∧ Step.writtenLines ts = Step.writtenLines us ∧
      ts.map Step.states = us.map Step.states := by
  intro p o q o'
  have hrun := run_instructions State.zero p 2 true
  have hrun' := run_instructions State.zero q 5 true
  have hwritable : ∀ t ∈ Program.record State.zero (p.take 2) ++
      Program.record State.zero (p.take 2), ∀ n ∈ t.numbers, Numeral.Writable n := by
    decide +kernel
  exact ⟨_, _, rfl, rfl, hrun, hrun', hwritable, by decide, rfl,
    (states_eq_of_writtenLines_eq hrun hrun' rfl rfl hwritable).2.1 rfl⟩

end LetterMachine
