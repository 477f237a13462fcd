import LetterMachine.Proofs.Run
import LetterMachine.Proofs.Seed
import LetterMachine.Workspace

/-!
# What calls leave behind

A call on a workspace is carried out as a whole or leaves the workspace as it was, although it goes
step by step.  So a workspace is what the calls that were carried out have made of it, and its
history holds the outcomes of the runs since the last reset, one for each.
-/

namespace LetterMachine

namespace Workspace

/-- What a call has done to a workspace. -/
inductive Deed where
  | executed (o : Outcome)
  | seeded (values : Seed)
  | reset

/-- The deed of a call that was answered.  Looking at a workspace does nothing to it. -/
def Call.deed? : Call → Reply → Option Deed
  | .execute _ _ _, .outcome o => some (.executed o)
  | .seed values, _ => some (.seeded values)
  | .reset, _ => some .reset
  | _, _ => none

def settle (w : Workspace) : Deed → Workspace
  | .executed o => { w with state := o.final, history := w.history.push o }
  | .seeded values => { w with state := values.laidOver w.state }
  | .reset => { w with state := State.zero, history := #[] }

/-- The workspace after calls in a row. -/
def afterCalls (w : Workspace) (calls : List Call) : Workspace :=
  calls.foldl (fun w call => (w.perform call).1) w

/-- The deeds of calls in a row.  A call that is refused has none. -/
def deeds (w : Workspace) : List Call → List Deed
  | [] => []
  | call :: calls =>
    match w.perform call with
    | (next, .ok reply) => (call.deed? reply).toList ++ next.deeds calls
    | (next, .error _) => next.deeds calls

def Deed.outcome? : Deed → Option Outcome
  | executed o => some o
  | seeded _ | reset => none

/-! ## One call -/

section

variable {w : Workspace} {source : Source} {traced : Bool} {limit : Option Datum}

theorem attempt_execute_of_ok {o : Outcome}
    (h : source.run w.state (limit.getD w.limit) traced = .ok o) :
    w.attempt (execute source traced limit) = (w.settle (.executed o), .ok o) := by
  unfold execute
  simp only [attempt_bind, attempt_get, attempt_need, h, attempt_modify, attempt_pure]
  rfl

/-- A source that is refused ends the work before its first assignment. -/
theorem attempt_execute_of_error {f : Fault}
    (h : source.run w.state (limit.getD w.limit) traced = .error f) :
    w.attempt (execute source traced limit) = (w, .error f) := by
  unfold execute
  simp only [attempt_bind, attempt_get, attempt_need, h]

theorem attempt_seed_of_ok {values : Seed} {s : State} (h : values.overlay w.state = .ok s) :
    w.attempt (seed values) = (w.settle (.seeded values), .ok ()) := by
  obtain rfl := Seed.eq_laidOver_of_overlay h
  unfold seed
  simp only [attempt_bind, attempt_get, attempt_need, h, attempt_modify]
  rfl

theorem attempt_seed_of_error {values : Seed} {f : Fault}
    (h : values.overlay w.state = .error f) : w.attempt (seed values) = (w, .error f) := by
  unfold seed
  simp only [attempt_bind, attempt_get, attempt_need, h]

theorem perform_execute_of_ok {o : Outcome}
    (h : source.run w.state (limit.getD w.limit) traced = .ok o) :
    w.perform (.execute source traced limit) = (w.settle (.executed o), .ok (.outcome o)) := by
  unfold perform Call.work
  rw [attempt_bind, attempt_execute_of_ok h]
  rfl

theorem perform_execute_of_error {f : Fault}
    (h : source.run w.state (limit.getD w.limit) traced = .error f) :
    w.perform (.execute source traced limit) = (w, .error f) := by
  unfold perform Call.work
  rw [attempt_bind, attempt_execute_of_error h]

theorem perform_seed_of_ok {values : Seed} {s : State} (h : values.overlay w.state = .ok s) :
    w.perform (.seed values) = (w.settle (.seeded values), .ok .nothing) := by
  unfold perform Call.work
  rw [attempt_bind, attempt_seed_of_ok h]
  rfl

theorem perform_seed_of_error {values : Seed} {f : Fault}
    (h : values.overlay w.state = .error f) : w.perform (.seed values) = (w, .error f) := by
  unfold perform Call.work
  rw [attempt_bind, attempt_seed_of_error h]

end

theorem attempt_reset (w : Workspace) : w.attempt reset = (w.settle .reset, .ok ()) := rfl

theorem perform_reset (w : Workspace) : w.perform .reset = (w.settle .reset, .ok .nothing) := rfl

theorem perform_register (w : Workspace) (name : Datum) :
    w.perform (.register name) = (w, (Slot.ofDatum name).map fun i => .number (w.state.get i)) := by
  unfold perform Call.work Workspace.register
  simp only [bind_assoc, attempt_bind, attempt_need]
  cases Slot.ofDatum name <;> rfl

theorem perform_table (w : Workspace) :
    w.perform .table = (w, (w.state.table none defaultColumns).map .text) := by
  unfold perform Call.work Workspace.table
  simp only [bind_assoc, attempt_bind, attempt_get, attempt_need]
  cases w.state.table none defaultColumns <;> rfl

/-- All that a call can do: it is refused and changes nothing, or it is answered and its deed is
settled. -/
theorem perform_cases (w : Workspace) (call : Call) :
    (∃ f, w.perform call = (w, .error f)) ∨
      ∃ reply, w.perform call = ((call.deed? reply).toList.foldl settle w, .ok reply) := by
  cases call with
  | execute source traced limit =>
    cases h : source.run w.state (limit.getD w.limit) traced with
    | ok o => exact .inr ⟨.outcome o, perform_execute_of_ok h⟩
    | error f => exact .inl ⟨f, perform_execute_of_error h⟩
  | seed values =>
    cases h : values.overlay w.state with
    | ok s => exact .inr ⟨.nothing, perform_seed_of_ok h⟩
    | error f => exact .inl ⟨f, perform_seed_of_error h⟩
  | reset => exact .inr ⟨.nothing, perform_reset w⟩
  | register name =>
    rw [perform_register]
    cases Slot.ofDatum name with
    | ok i => exact .inr ⟨.number (w.state.get i), rfl⟩
    | error f => exact .inl ⟨f, rfl⟩
  | table =>
    rw [perform_table]
    cases w.state.table none defaultColumns with
    | ok s => exact .inr ⟨.text s, rfl⟩
    | error f => exact .inl ⟨f, rfl⟩

theorem perform_of_refused {w : Workspace} {call : Call} {f : Fault}
    (h : (w.perform call).2 = .error f) : (w.perform call).1 = w := by
  rcases w.perform_cases call with ⟨g, hperform⟩ | ⟨reply, hperform⟩
  · rw [hperform]
  · rw [hperform] at h
    cases h

/-- A run of a text whose program is not cut off by the limit. -/
theorem perform_execute_text {w : Workspace} {t : String} {p : Program}
    {limit : Option Datum} {n : Nat} (h : Program.ofText t = .ok p)
    (hlimit : (limit.getD w.limit).limit = .ok n) (hlength : p.length ≤ n) (traced : Bool) :
    ∃ o, w.perform (.execute (.text t) traced limit) =
        (w.settle (.executed o), .ok (.outcome o)) ∧
      o.final = w.state.after p ∧ o.status = .completed ∧
      o.trace = if traced then some (Program.record w.state p) else none := by
  refine ⟨p.run w.state n traced, perform_execute_of_ok ?_, ?_, ?_, ?_⟩
  · unfold Source.run
    rw [hlimit]
    show (do return Program.run w.state (← Program.ofText t) n traced) = _
    rw [h]
    rfl
  · rw [Program.run_eq, List.take_of_length_le hlength]
  · rw [Program.run_eq, if_neg (Nat.not_lt.mpr hlength)]
  · rw [Program.run_eq, List.take_of_length_le hlength]

/-! ## Calls in a row -/

theorem deeds_cons_of_ok {w next : Workspace} {call : Call} {reply : Reply}
    (h : w.perform call = (next, .ok reply)) (calls : List Call) :
    w.deeds (call :: calls) = (call.deed? reply).toList ++ next.deeds calls := by
  rw [deeds, h]

theorem deeds_cons_of_error {w next : Workspace} {call : Call} {f : Fault}
    (h : w.perform call = (next, .error f)) (calls : List Call) :
    w.deeds (call :: calls) = next.deeds calls := by
  rw [deeds, h]

theorem afterCalls_cons (w : Workspace) (call : Call) (calls : List Call) :
    w.afterCalls (call :: calls) = (w.perform call).1.afterCalls calls := rfl

/-- A workspace is what the deeds have made of it. -/
theorem afterCalls_eq_foldl (w : Workspace) (calls : List Call) :
    w.afterCalls calls = (w.deeds calls).foldl settle w := by
  induction calls generalizing w with
  | nil => rfl
  | cons call calls ih =>
    rcases w.perform_cases call with ⟨f, hperform⟩ | ⟨reply, hperform⟩
    · rw [afterCalls_cons, deeds_cons_of_error hperform, hperform, ih]
    · rw [afterCalls_cons, deeds_cons_of_ok hperform, hperform, ih, List.foldl_append]

theorem history_settle (w : Workspace) {deed : Deed} (h : deed ≠ .reset) :
    (w.settle deed).history.toList = w.history.toList ++ deed.outcome?.toList := by
  cases deed with
  | executed o => exact Array.toList_push
  | seeded values => exact (List.append_nil _).symm
  | reset => exact absurd rfl h

/-- Deeds that are no reset add their outcomes to the history, in order. -/
theorem history_foldl_settle (w : Workspace) {row : List Deed} (h : ∀ deed ∈ row, deed ≠ .reset) :
    (row.foldl settle w).history.toList = w.history.toList ++ row.filterMap Deed.outcome? := by
  induction row generalizing w with
  | nil => exact (List.append_nil _).symm
  | cons deed row ih =>
    obtain ⟨hdeed, hrow⟩ := List.forall_mem_cons.mp h
    rw [List.foldl_cons, ih _ hrow, history_settle w hdeed, List.append_assoc,
      List.filterMap_cons]
    cases deed.outcome? <;> rfl

theorem ne_reset_of_deed? {call : Call} {reply : Reply} (h : call ≠ .reset) :
    ∀ deed ∈ (call.deed? reply).toList, deed ≠ .reset := by
  intro deed hdeed
  cases call with
  | execute source traced limit =>
    cases reply with
    | outcome o =>
      obtain rfl := List.mem_singleton.mp hdeed
      intro h
      cases h
    | nothing | number n | text s => cases hdeed
  | seed values =>
    obtain rfl := List.mem_singleton.mp hdeed
    intro h
    cases h
  | reset => exact absurd rfl h
  | register name => cases hdeed
  | table => cases hdeed

theorem ne_reset_of_mem_deeds {w : Workspace} {calls : List Call}
    (h : ∀ call ∈ calls, call ≠ .reset) : ∀ deed ∈ w.deeds calls, deed ≠ .reset := by
  induction calls generalizing w with
  | nil => exact fun deed hdeed => by cases hdeed
  | cons call calls ih =>
    obtain ⟨hcall, hcalls⟩ := List.forall_mem_cons.mp h
    intro deed hdeed
    rcases w.perform_cases call with ⟨f, hperform⟩ | ⟨reply, hperform⟩
    · rw [deeds_cons_of_error hperform] at hdeed
      exact ih hcalls deed hdeed
    · rw [deeds_cons_of_ok hperform] at hdeed
      rcases List.mem_append.mp hdeed with hdeed | hdeed
      · exact ne_reset_of_deed? hcall deed hdeed
      · exact ih hcalls deed hdeed

/-- Without a reset, the history grows by the outcomes of the runs that were carried out. -/
theorem history_afterCalls (w : Workspace) {calls : List Call}
    (h : ∀ call ∈ calls, call ≠ .reset) :
    (w.afterCalls calls).history.toList =
      w.history.toList ++ (w.deeds calls).filterMap Deed.outcome? := by
  rw [afterCalls_eq_foldl]
  exact history_foldl_settle w (ne_reset_of_mem_deeds h)

theorem afterCalls_append (w : Workspace) (calls calls' : List Call) :
    w.afterCalls (calls ++ calls') = (w.afterCalls calls).afterCalls calls' :=
  List.foldl_append

/-- After any calls, a call that is refused changes nothing, and a run that is answered moves the
workspace to its last state and adds its outcome, cut off or not; the workspace is what the deeds
have made of it; and the history holds the outcomes of the runs since the last reset, behind what it
held at first if there was none. -/
theorem afterCalls_settles (w : Workspace) (calls : List Call) :
    let v := w.afterCalls calls
    (∀ call f, (v.perform call).2 = .error f → (v.perform call).1 = v) ∧
      (∀ source traced limit reply, (v.perform (.execute source traced limit)).2 = .ok reply →
        ∃ o, reply = .outcome o ∧ source.run v.state (limit.getD v.limit) traced = .ok o ∧
          (v.perform (.execute source traced limit)).1 =
            { v with state := o.final, history := v.history.push o }) ∧
      v = (w.deeds calls).foldl settle w ∧
      ((∀ call ∈ calls, call ≠ .reset) →
        v.history.toList = w.history.toList ++ (w.deeds calls).filterMap Deed.outcome?) ∧
      ∀ before after, calls = before ++ .reset :: after → (∀ call ∈ after, call ≠ .reset) →
        v.history.toList =
          ((w.afterCalls (before ++ [.reset])).deeds after).filterMap Deed.outcome? := by
  intro v
  refine ⟨fun call f => perform_of_refused, ?_, w.afterCalls_eq_foldl calls,
    w.history_afterCalls, ?_⟩
  · intro source traced limit reply hreply
    cases hrun : source.run v.state (limit.getD v.limit) traced with
    | error f =>
      rw [perform_execute_of_error hrun] at hreply
      cases hreply
    | ok o =>
      rw [perform_execute_of_ok hrun] at hreply ⊢
      exact ⟨o, (Except.ok.inj hreply).symm, rfl, rfl⟩
  · intro before after hcalls hafter
    have hempty : (w.afterCalls (before ++ [.reset])).history.toList = [] := by
      rw [afterCalls_append]
      rfl
    have hv : v = (w.afterCalls (before ++ [.reset])).afterCalls after := by
      rw [← afterCalls_append, List.append_assoc, List.singleton_append, ← hcalls]
    rw [hv, history_afterCalls _ hafter, hempty, List.nil_append]

/-- A run that is cut off and a run that is refused, a new start, and behind it a seed of which the
second pair is refused and two more runs: the history holds the outcomes of these two. -/
theorem afterCalls_settles_reset :
    let p : Program := [⟨.zayin, .plain, 0⟩, ⟨.bet, .plain, 0⟩]
    let run : Call := .execute (.items (p.map .instruction)) false none
    let before : List Call := [run, .execute (.other (.whole 5) rfl) false none]
    let after : List Call := [.seed (.named [(.text "א", .whole 7), (.whole 1, .nothing)]), run, run]
    let w : Workspace := ⟨State.zero, .whole 1, #[]⟩
    let o := p.run State.zero 1 false
    (∀ call ∈ after, call ≠ .reset) ∧
      (w.afterCalls (before ++ .reset :: after)).history.toList = [o, p.run o.final 1 false] := by
  intro p run before after w o
  have hafter : ∀ call ∈ after, call ≠ .reset := by
    intro call hcall heq
    simp only [after, run, List.mem_cons, List.not_mem_nil, or_false] at hcall
    rcases hcall with rfl | rfl | rfl <;> cases heq
  refine ⟨hafter, ?_⟩
  obtain ⟨-, -, -, -, hhistory⟩ := w.afterCalls_settles (before ++ .reset :: after)
  rw [hhistory before after rfl hafter]
  -- a new start leaves the limit, and the seed is refused
  let v : Workspace := ⟨State.zero, .whole 1, #[]⟩
  have hv : w.afterCalls (before ++ [.reset]) = v := by
    have hfirst : w.perform run = (w.settle (.executed o), .ok (.outcome o)) :=
      perform_execute_of_ok (Source.run_instructions State.zero p 1 false)
    rw [afterCalls_append]
    show Workspace.mk State.zero (w.afterCalls before).limit #[] = v
    have hsecond : ((w.settle (.executed o)).perform (.execute (.other (.whole 5) rfl) false none)).1 =
        w.settle (.executed o) := perform_of_refused rfl
    show Workspace.mk State.zero (((w.perform run).1.perform _).1).limit #[] = v
    rw [hfirst, hsecond]
    rfl
  have hseed : v.perform (.seed (.named [(.text "א", .whole 7), (.whole 1, .nothing)])) =
      (v, .error (.seedValue (.whole 1) .nothing)) := perform_seed_of_error rfl
  have hrun : ∀ u : Workspace, u.limit = .whole 1 → u.perform run =
      (u.settle (.executed (p.run u.state 1 false)), .ok (.outcome (p.run u.state 1 false))) := by
    intro u hu
    refine perform_execute_of_ok ?_
    rw [show (none : Option Datum).getD u.limit = .whole 1 from hu]
    exact Source.run_instructions u.state p 1 false
  rw [hv, deeds_cons_of_error hseed, deeds_cons_of_ok (hrun v rfl), deeds_cons_of_ok (hrun _ rfl)]
  rfl

end Workspace

end LetterMachine
