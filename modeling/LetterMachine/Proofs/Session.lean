import LetterMachine.Proofs.Display
import LetterMachine.Proofs.Listing
import LetterMachine.Proofs.Workspace
import LetterMachine.Session
import Mathlib.Data.List.Basic

/-!
# What a refused line leaves behind

A line of a session makes a call on the workspace, or none.  Where it is refused, the session is as
it was, with one exception: a call that was carried out stands, also if the state that it left has a
number that is too long to be written.
-/

namespace LetterMachine

open LetterMachine.Text Workspace

/-- The call that a command makes. -/
def Command.call? : Command → Option Call
  | .seed pairs => (Seed.readPairs pairs).toOption.map fun table => .seed (Seed.ofNames table)
  | .reset => some .reset
  | _ => none

theorem Command.call?_seed (pairs : List String) :
    (seed pairs).call? =
      (Seed.readPairs pairs).toOption.map fun table => .seed (Seed.ofNames table) := rfl

namespace Session

/-- The call that a line makes. -/
def call? (s : Session) (line : String) : Option Call :=
  match trim line.toList with
  | [] => none
  | ':' :: rest => (Command.ofWords ((words rest).map String.ofList)).toOption.bind Command.call?
  | c :: rest =>
    if Token.opensComment c then none
    else some (.execute (.text (String.ofList (c :: rest))) s.traced none)

/-- Can a session show the reply to a call, and what the call leaves? -/
def CanShow (s : Session) (next : Workspace) : Reply → Prop
  | .outcome o => o.Showable s.traced
  | _ => next.state.Writable

/-- A session answers a call: what is refused changes nothing, and what is carried out stands,
whether it can be shown or not. -/
structure Answers (s : Session) (call : Call) (result : Session × Answer String) : Prop where
  refused : ∀ f, s.workspace.perform call = (s.workspace, .error f) → result = (s, .error f)
  carriedOut : ∀ next reply, s.workspace.perform call = (next, .ok reply) →
    result.1 = { s with workspace := next } ∧ ShownIf (s.CanShow next reply) result.2

section

variable (s : Session) {line : String} {c : Char} {rest : List Char}

theorem working_of_ok {α : Type} {work : Work α} {shown : Workspace → α → Answer String}
    {next : Workspace} {x : α} (h : s.workspace.attempt work = (next, .ok x)) :
    s.working work shown = ({ s with workspace := next }, shown next x) := by
  unfold working
  rw [h]
  rfl

theorem working_of_error {α : Type} {work : Work α} {shown : Workspace → α → Answer String}
    {f : Fault} (h : s.workspace.attempt work = (s.workspace, .error f)) :
    s.working work shown = (s, .error f) := by
  unfold working
  rw [h]
  rfl

theorem handle_command {command : Command} (h : trim line.toList = ':' :: rest)
    (hcommand : Command.ofWords ((words rest).map String.ofList) = .ok command) :
    s.handle line = s.obey command := by
  unfold handle
  rw [h]
  simp only [hcommand]

theorem handle_unknown {f : Fault} (h : trim line.toList = ':' :: rest)
    (hcommand : Command.ofWords ((words rest).map String.ofList) = .error f) :
    s.handle line = (s, .error f) := by
  unfold handle
  rw [h]
  simp only [hcommand]

theorem handle_text (h : trim line.toList = c :: rest) (hc : c ≠ ':') :
    s.handle line =
      if Token.opensComment c then (s, .ok "") else s.execute (String.ofList (c :: rest)) := by
  unfold handle
  rw [h]
  split
  · next heq => cases heq
  · next heq => exact absurd (List.cons.inj heq).1 hc
  · next heq =>
    obtain ⟨rfl, rfl⟩ := List.cons.inj heq
    rfl

theorem call?_command (h : trim line.toList = ':' :: rest) :
    s.call? line =
      (Command.ofWords ((words rest).map String.ofList)).toOption.bind Command.call? := by
  unfold call?
  rw [h]
  rfl

theorem call?_text (h : trim line.toList = c :: rest) (hc : c ≠ ':') :
    s.call? line =
      if Token.opensComment c then none
      else some (.execute (.text (String.ofList (c :: rest))) s.traced none) := by
  unfold call?
  rw [h]
  split
  · next heq => cases heq
  · next heq => exact absurd (List.cons.inj heq).1 hc
  · next heq =>
    obtain ⟨rfl, rfl⟩ := List.cons.inj heq
    rfl

end

/-! ## Commands and program text -/

namespace Answers

variable {s : Session} {call : Call} {result : Session × Answer String}

theorem of_refused {f : Fault} (h : s.workspace.perform call = (s.workspace, .error f))
    (hresult : result = (s, .error f)) : s.Answers call result where
  refused g hg := by
    rw [h] at hg
    obtain rfl := Except.error.inj (Prod.mk.inj hg).2
    exact hresult
  carriedOut next reply hok := by
    rw [h] at hok
    cases (Prod.mk.inj hok).2

theorem of_carriedOut {next : Workspace} {reply : Reply} {a : Answer String}
    (h : s.workspace.perform call = (next, .ok reply))
    (hresult : result = ({ s with workspace := next }, a))
    (ha : ShownIf (s.CanShow next reply) a) : s.Answers call result where
  refused f hf := by
    rw [h] at hf
    cases (Prod.mk.inj hf).2
  carriedOut next' reply' hok := by
    rw [h] at hok
    obtain ⟨rfl, hreply⟩ := Prod.mk.inj hok
    obtain rfl := Except.ok.inj hreply
    rw [hresult]
    exact ⟨rfl, ha⟩

end Answers

theorem answers_execute (s : Session) (text : String) :
    s.Answers (.execute (.text text) s.traced none) (s.execute text) := by
  let limit := (none : Option Datum).getD s.workspace.limit
  cases h : (Source.text text).run s.workspace.state limit s.traced with
  | error f =>
    exact .of_refused (perform_execute_of_error h) (s.working_of_error (attempt_execute_of_error h))
  | ok o =>
    exact .of_carriedOut (perform_execute_of_ok h) (s.working_of_ok (attempt_execute_of_ok h))
      (o.shownIf_coloured s.workspace.state s.traced)

theorem answers_reset (s : Session) : s.Answers .reset (s.obey .reset) := by
  have hobey : s.obey .reset =
      s.working Workspace.reset fun w _ => w.state.colouredTable none defaultColumns := rfl
  rw [hobey]
  exact .of_carriedOut (perform_reset s.workspace) (s.working_of_ok (attempt_reset s.workspace))
    (State.shownIf_colouredTable _ none (by decide))

theorem answers_seed (s : Session) {pairs : List String} {table : List (String × Int)}
    (h : Seed.readPairs pairs = .ok table) :
    s.Answers (.seed (Seed.ofNames table)) (s.obey (.seed pairs)) := by
  have hobey : s.obey (.seed pairs) = s.working (Workspace.seed (Seed.ofNames table))
      fun w _ => w.state.colouredTable (some s.workspace.state) defaultColumns := by
    unfold obey
    simp only [h]
  rw [hobey]
  cases hoverlay : (Seed.ofNames table).overlay s.workspace.state with
  | error f =>
    exact .of_refused (perform_seed_of_error hoverlay)
      (s.working_of_error (attempt_seed_of_error hoverlay))
  | ok t =>
    exact .of_carriedOut (perform_seed_of_ok hoverlay)
      (s.working_of_ok (attempt_seed_of_ok hoverlay))
      (State.shownIf_colouredTable _ (some s.workspace.state) (by decide))

theorem answers_obey (s : Session) {command : Command} {call : Call}
    (h : command.call? = some call) : s.Answers call (s.obey command) := by
  cases command with
  | seed pairs =>
    cases hpairs : Seed.readPairs pairs with
    | error f =>
      rw [Command.call?_seed, hpairs] at h
      cases h
    | ok table =>
      rw [Command.call?_seed, hpairs] at h
      obtain rfl := Option.some.inj h
      exact s.answers_seed hpairs
  | reset =>
    obtain rfl := Option.some.inj h
    exact s.answers_reset
  | help | state | trace setting | operators | quit => cases h

/-- A command that makes no call changes nothing if it is refused. -/
theorem obey_of_refused (s : Session) {command : Command} {f : Fault} (h : command.call? = none)
    (hf : (s.obey command).2 = .error f) : (s.obey command).1 = s := by
  cases command with
  | seed pairs =>
    cases hpairs : Seed.readPairs pairs with
    | error g =>
      unfold obey
      simp only [hpairs]
    | ok table =>
      rw [Command.call?_seed, hpairs] at h
      cases h
  | state => rfl
  | reset => cases h
  | help | trace setting | operators | quit => cases hf

/-! ## Lines -/

/-- All that a line can be: it is answered at once, it is a command, or it is program text. -/
theorem handle_cases (s : Session) (line : String) :
    (∃ a, s.call? line = none ∧ s.handle line = (s, a)) ∨
      (∃ command, s.call? line = Command.call? command ∧ s.handle line = s.obey command) ∨
      ∃ text, s.call? line = some (.execute (.text text) s.traced none) ∧
        s.handle line = s.execute text := by
  cases htrim : trim line.toList with
  | nil =>
    refine .inl ⟨.ok "", ?_, ?_⟩
    · unfold call?
      rw [htrim]
    · unfold handle
      rw [htrim]
  | cons c rest =>
    by_cases hc : c = ':'
    · subst hc
      have hcall := s.call?_command htrim
      cases hcommand : Command.ofWords ((words rest).map String.ofList) with
      | error f =>
        rw [hcommand] at hcall
        exact .inl ⟨.error f, hcall, s.handle_unknown htrim hcommand⟩
      | ok command =>
        rw [hcommand] at hcall
        exact .inr (.inl ⟨command, hcall, s.handle_command htrim hcommand⟩)
    · rw [s.call?_text htrim hc, s.handle_text htrim hc]
      by_cases hcomment : Token.opensComment c
      · rw [if_pos hcomment, if_pos hcomment]
        exact .inl ⟨.ok "", rfl, rfl⟩
      · rw [if_neg hcomment, if_neg hcomment]
        exact .inr (.inr ⟨_, rfl, rfl⟩)

theorem answers_handle (s : Session) {line : String} {call : Call}
    (h : s.call? line = some call) : s.Answers call (s.handle line) := by
  rcases s.handle_cases line with ⟨a, hnone, -⟩ | ⟨command, hcall, hhandle⟩ | ⟨text, hcall, hhandle⟩
  · rw [hnone] at h
    cases h
  · rw [hhandle]
    exact s.answers_obey (hcall.symm.trans h)
  · rw [hcall] at h
    obtain rfl := Option.some.inj h
    rw [hhandle]
    exact s.answers_execute text

/-- A line that makes no call changes nothing if it is refused. -/
theorem handle_of_refused (s : Session) {line : String} {f : Fault} (h : s.call? line = none)
    (hf : (s.handle line).2 = .error f) : (s.handle line).1 = s := by
  rcases s.handle_cases line with ⟨a, -, hhandle⟩ | ⟨command, hcall, hhandle⟩ | ⟨text, hcall, -⟩
  · rw [hhandle]
  · rw [hhandle] at hf ⊢
    exact s.obey_of_refused (hcall.symm.trans h) hf
  · rw [hcall] at h
    cases h

/-! ## A number that outgrows its text -/

theorem trim_eq_self {cs : List Char} (hfirst : ∀ c ∈ cs.head?, isBlank c = false)
    (hlast : ∀ c ∈ cs.getLast?, isBlank c = false) : trim cs = cs := by
  have hdrop : ∀ {ds : List Char}, (∀ c ∈ ds.head?, isBlank c = false) →
      ds.dropWhile isBlank = ds := by
    intro ds hds
    cases ds with
    | nil => rfl
    | cons c ds => exact List.dropWhile_cons_of_neg (by rw [hds c rfl]; decide)
  unfold trim
  rw [hdrop hfirst, hdrop (by rwa [List.head?_reverse]), List.reverse_reverse]

/-- A program that comes by twice its operand, and leaves small numbers. -/
def detour (n : Int) : Program := [⟨.sovav, .immediate, n⟩, ⟨.zayin, .plain, 0⟩]

theorem toList_detour (n : Int) :
    (detour n).text.toList =
      'ס' :: (['ב', 'ב', Mode.hiriq, ' '] ++ (Numeral.text n).toList ++ [' ']) ++ ['ז'] := by
  have hword : Instruction.word .sovav .immediate = ['ס', 'ב', 'ב', Mode.hiriq] := by decide
  have hlast : (Program.text [⟨.zayin, .plain, 0⟩]).toList = ['ז'] := by decide
  unfold detour
  rw [Program.toList_text_cons_cons, Instruction.toList_text, hlast]
  show Instruction.word .sovav .immediate ++ (' ' :: (Numeral.text n).toList ++ []) ++ _ = _
  rw [hword]
  simp

theorem trim_detour (n : Int) : trim (detour n).text.toList = (detour n).text.toList := by
  rw [toList_detour]
  refine trim_eq_self (fun c hc => ?_) (fun c hc => ?_)
  · obtain rfl : 'ס' = c := Option.some.inj hc
    decide
  · rw [List.getLast?_concat] at hc
    obtain rfl : 'ז' = c := Option.some.inj hc
    decide

section

variable {n : Int} (hwritable : Numeral.Writable n) (hlong : ¬ Numeral.Writable (2 * n))
include hwritable hlong

/-- A line that runs, and whose first step cannot be shown. -/
theorem handle_detour :
    let s := new ⟨State.zero, .whole 2, #[]⟩ true
    (s.handle (detour n).text).2 = .error (.numeral .tooLong) ∧
      (s.handle (detour n).text).1.workspace.state ≠ State.zero := by
  intro s
  have hcall : s.call? (detour n).text = some (.execute (.text (detour n).text) true none) := by
    obtain ⟨rest, hrest⟩ : ∃ rest, (detour n).text.toList = 'ס' :: rest := ⟨_, toList_detour n⟩
    have hline : String.ofList ('ס' :: rest) = (detour n).text := by
      rw [← hrest, String.ofList_toList]
    rw [s.call?_text ((trim_detour n).trans hrest) (by decide), if_neg (by decide), hline]
    rfl
  have hlistable : ∀ i ∈ detour n, i.IsListable :=
    List.forall_mem_cons.mpr ⟨⟨fun h => absurd rfl h, fun _ => hwritable⟩,
      List.forall_mem_singleton.mpr (Instruction.isListable_plain .zayin)⟩
  have hlimit : ((none : Option Datum).getD s.workspace.limit).limit = .ok 2 := Datum.limit_whole 2
  obtain ⟨o, hperform, hfinal, -, htrace⟩ := s.workspace.perform_execute_text
    (Program.ofText_text hlistable) hlimit (Nat.le_refl 2) true
  obtain ⟨hnext, hshown⟩ := (s.answers_handle hcall).carriedOut _ _ hperform
  refine ⟨hshown.refused fun hshow => hlong ?_, ?_⟩
  -- the round on zeros puts twice its operand into the first register
  · let first : Step := ⟨0, ⟨.sovav, .immediate, n⟩, State.zero, State.zero.round n⟩
    have hfirst : first ∈ o.shownSteps true := by
      unfold Outcome.shownSteps
      rw [htrace]
      exact List.mem_cons_self
    have hafter := (Outcome.Showable.steps hshow first hfirst).2 0
    rwa [show first.after.get 0 = 2 * n by simp [first, State.round, State.get, State.zero]; omega]
      at hafter
  · rw [hnext]
    show o.final ≠ State.zero
    rw [hfinal]
    intro hzero
    have hacc : (22 : Int) = 0 := congrArg State.acc hzero
    exact absurd hacc (by decide)

end

/-- The greatest number that can be written. -/
@[irreducible]
def longest : Int := (Nat.pow 10 Numeral.digitLimit : Nat) - 1

theorem writable_longest : Numeral.Writable longest := by decide +kernel

theorem not_writable_twice_longest : ¬ Numeral.Writable (2 * longest) := by decide +kernel

/-! ## Refused lines -/

/-- A refused line leaves the switches of a session alone.  It leaves the workspace as it was too,
unless the line runs or seeds, and only showing what came of it is refused: a number in that is too
long to be written.  The workspace is then what the call leaves. -/
theorem handle_refused (s : Session) {line : String} {f : Fault}
    (h : (s.handle line).2 = .error f) :
    let next := (s.handle line).1
    next.traced = s.traced ∧ next.running = s.running ∧
      (next.workspace = s.workspace ∨
        f = .numeral .tooLong ∧ ∃ call reply, s.call? line = some call ∧ call ≠ .reset ∧
          s.workspace.perform call = (next.workspace, .ok reply) ∧
          ¬ s.CanShow next.workspace reply) := by
  intro next
  cases hcall : s.call? line with
  | none =>
    have hnext : next = s := s.handle_of_refused hcall h
    rw [hnext]
    exact ⟨rfl, rfl, .inl rfl⟩
  | some call =>
    have hanswers := s.answers_handle hcall
    rcases s.workspace.perform_cases call with ⟨g, hperform⟩ | ⟨reply, hperform⟩
    · have hnext : next = s := congrArg Prod.fst (hanswers.refused g hperform)
      rw [hnext]
      exact ⟨rfl, rfl, .inl rfl⟩
    · obtain ⟨hnext, hshown⟩ := hanswers.carriedOut _ reply hperform
      obtain ⟨hf, hlong⟩ := hshown.eq_tooLong h
      -- a new start leaves zeros, and they can be shown
      have hreset : call ≠ .reset := by
        rintro rfl
        obtain ⟨-, hreply⟩ := Prod.mk.inj hperform
        obtain rfl := Except.ok.inj hreply
        exact hlong State.writable_zero
      rw [show next = _ from hnext]
      exact ⟨rfl, rfl, .inr ⟨hf, call, reply, rfl, hreset, hperform, hlong⟩⟩

/-- A detour by the greatest number that can be written is refused, and changes the state. -/
theorem handle_refused_detour :
    let s := new ⟨State.zero, .whole 2, #[]⟩ true
    let line := (detour longest).text
    (s.handle line).2 = .error (.numeral .tooLong) ∧
      (s.handle line).1.workspace.state ≠ State.zero ∧
      ∃ call reply, s.call? line = some call ∧
        s.workspace.perform call = ((s.handle line).1.workspace, .ok reply) := by
  intro s line
  obtain ⟨hrefused, hmoved⟩ := handle_detour writable_longest not_writable_twice_longest
  refine ⟨hrefused, hmoved, ?_⟩
  obtain ⟨-, -, hsame | ⟨-, call, reply, hcall, -, hperform, -⟩⟩ := s.handle_refused hrefused
  · exact absurd (congrArg Workspace.state hsame) hmoved
  · exact ⟨call, reply, hcall, hperform⟩

/-- A refused line may have changed the workspace. -/
theorem not_forall_handle_unchanged :
    ¬ ∀ (s : Session) (line : String) (f : Fault), (s.handle line).2 = .error f →
      let next := (s.handle line).1
      next.workspace.state = s.workspace.state ∧ next.workspace.history = s.workspace.history ∧
        next.traced = s.traced ∧ next.running = s.running := by
  intro h
  obtain ⟨hrefused, hmoved⟩ := handle_detour writable_longest not_writable_twice_longest
  obtain ⟨hstate, -⟩ := h _ _ _ hrefused
  exact hmoved hstate

end Session

end LetterMachine
