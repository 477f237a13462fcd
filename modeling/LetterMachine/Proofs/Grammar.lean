import LetterMachine.Assembly
import LetterMachine.Proofs.Scan

/-!
# The language of programs

A program is spelt by groups of tokens.  A group is a word whose opcodes take no operand, or a word
whose last opcode alone takes one, with the number behind it.  Assembly accepts the concatenations
of groups and nothing else.
-/

namespace LetterMachine

open LetterMachine.Text

namespace Word.Meaning

def instructions (m : Meaning) : Program := m.map fun (op, mode) => ⟨op, mode, 0⟩

def IsPlain (m : Meaning) : Prop := ∀ unit ∈ m, unit.2 ≠ .immediate

instance (m : Meaning) : Decidable m.IsPlain :=
  inferInstanceAs (Decidable (∀ unit ∈ m, unit.2 ≠ .immediate))

/-- A meaning takes no operand, or it has a first opcode that takes one. -/
theorem isPlain_or_exists (m : Meaning) :
    m.IsPlain ∨ ∃ front op rest, m = front ++ (op, .immediate) :: rest ∧ IsPlain front := by
  induction m with
  | nil => exact Or.inl fun unit h => by cases h
  | cons unit m ih =>
    obtain ⟨op, mode⟩ := unit
    -- the first unit decides, unless it takes no operand itself
    by_cases hmode : mode = .immediate
    · subst hmode
      exact Or.inr ⟨[], op, m, rfl, fun unit h => by cases h⟩
    · rcases ih with hplain | ⟨front, op', rest, rfl, hfront⟩
      · exact Or.inl (List.forall_mem_cons.mpr ⟨hmode, hplain⟩)
      · exact Or.inr ⟨(op, mode) :: front, op', rest, rfl,
          List.forall_mem_cons.mpr ⟨hmode, hfront⟩⟩

end Word.Meaning

open Word

/-- The groups of tokens, with the instructions that they spell. -/
inductive Group : List Token → Program → Prop where
  | word {t : Token} {m : Meaning} (kind : t.kind = .word)
      (meaning : Word.meaning? t.text.toList = some m) (plain : m.IsPlain) :
      Group [t] m.instructions
  | operand {t number : Token} {m : Meaning} {op : Opcode} {n : Int} (kind : t.kind = .word)
      (meaning : Word.meaning? t.text.toList = some (m ++ [(op, .immediate)])) (plain : m.IsPlain)
      (numberKind : number.kind = .number) (value : number.value = .ok n) :
      Group [t, number] (m.instructions ++ [⟨op, .immediate, n⟩])

/-- Tokens spell a program: they are groups in a row. -/
inductive Spells : List Token → Program → Prop where
  | nil : Spells [] []
  | cons {group rest : List Token} {p q : Program} (first : Group group p) (others : Spells rest q) :
      Spells (group ++ rest) (p ++ q)

theorem Spells.append {ts us : List Token} {p q : Program} (h : Spells ts p) (h' : Spells us q) :
    Spells (ts ++ us) (p ++ q) := by
  induction h with
  | nil => exact h'
  | cons first _ ih =>
    rw [List.append_assoc, List.append_assoc]
    exact .cons first ih

theorem Spells.snoc {ts group : List Token} {p q : Program} (h : Spells ts p)
    (h' : Group group q) : Spells (ts ++ group) (p ++ q) := by
  have hgroup := Spells.cons h' .nil
  rw [List.append_nil, List.append_nil] at hgroup
  exact h.append hgroup

/-! ## Linking -/

namespace Linker

def append (l : Linker) (p : Program) : Linker := { l with program := l.program ++ p.toArray }

@[simp] theorem append_nil (l : Linker) : l.append [] = l := by
  simp [append]

theorem append_append (l : Linker) (p q : Program) : (l.append p).append q = l.append (p ++ q) := by
  simp [append, Array.append_assoc]

theorem add_eq_append (l : Linker) (i : Instruction) : l.add i = l.append [i] := by
  simp [add, append]

/-- Opcodes without operands are added one by one, whatever follows them. -/
theorem addMeaning_append (l : Linker) (t : Token) {m : Meaning} (h : m.IsPlain)
    (rest : Meaning) :
    l.addMeaning t (m ++ rest) = (l.append m.instructions).addMeaning t rest := by
  induction m generalizing l with
  | nil => simp [Meaning.instructions]
  | cons unit m ih =>
    obtain ⟨op, mode⟩ := unit
    obtain ⟨hmode, hm⟩ := List.forall_mem_cons.mp h
    have hstep : l.addMeaning t ((op, mode) :: (m ++ rest)) =
        (l.add ⟨op, mode, 0⟩).addMeaning t (m ++ rest) := by
      cases mode with
      | immediate => exact absurd rfl hmode
      | plain | query => rw [addMeaning] <;> simp
    rw [List.cons_append, hstep, ih _ hm, add_eq_append, append_append]
    rfl

theorem addMeaning_of_isPlain (l : Linker) (t : Token) {m : Meaning} (h : m.IsPlain) :
    l.addMeaning t m = .ok (l.append m.instructions) := by
  have happend := l.addMeaning_append t h []
  rw [List.append_nil] at happend
  rw [happend, addMeaning]

theorem addMeaning_last (l : Linker) (t : Token) {m : Meaning} (h : m.IsPlain) (op : Opcode) :
    l.addMeaning t (m ++ [(op, .immediate)]) =
      .ok { l.append m.instructions with waiting := some (op, t) } := by
  rw [l.addMeaning_append t h, addMeaning]

theorem addMeaning_inner (l : Linker) (t : Token) {m : Meaning} (h : m.IsPlain) (op : Opcode)
    {rest : Meaning} (hrest : rest ≠ []) :
    l.addMeaning t (m ++ (op, .immediate) :: rest) =
      (l.append m.instructions).blame .missingOperand t := by
  obtain ⟨unit, rest, rfl⟩ := List.exists_cons_of_ne_nil hrest
  rw [l.addMeaning_append t h, addMeaning]
  intro h
  cases h

theorem feedAll_cons (l : Linker) (piece : Piece) (pieces : List Piece) :
    l.feedAll (piece :: pieces) = (l.feed piece).bind fun l => l.feedAll pieces := rfl

theorem feedAll_append (l : Linker) (pieces pieces' : List Piece) :
    l.feedAll (pieces ++ pieces') = (l.feedAll pieces).bind fun l => l.feedAll pieces' :=
  List.foldlM_append

/-- What a linker has read: groups, and behind them perhaps a word that waits for its operand. -/
inductive Reads : List Token → Linker → Prop where
  | ready {ts : List Token} {p : Program} (spelt : Spells ts p) : Reads ts ⟨p.toArray, none⟩
  | waiting {ts : List Token} {p : Program} {t : Token} {m : Meaning} {op : Opcode}
      (spelt : Spells ts p) (kind : t.kind = .word)
      (meaning : Word.meaning? t.text.toList = some (m ++ [(op, .immediate)]))
      (plain : m.IsPlain) : Reads (ts ++ [t]) ⟨(p ++ m.instructions).toArray, some (op, t)⟩

section

variable {l : Linker} {t opened : Token} {op : Opcode}

theorem feed_number_of_none (ht : t.kind = .number) (hl : l.waiting = none) :
    l.feed (.token t) = l.blame .unexpectedOperand t := by
  simp only [feed, ht, hl]

theorem feed_number_of_some (ht : t.kind = .number) (hl : l.waiting = some (op, opened)) :
    l.feed (.token t) =
      t.value.bind fun n => .ok { l.append [⟨op, .immediate, n⟩] with waiting := none } := by
  simp only [feed, ht, hl, add_eq_append]
  rfl

theorem feed_word_of_some (ht : t.kind = .word) (hl : l.waiting = some (op, opened)) :
    l.feed (.token t) = l.blame .missingOperand opened := by
  simp only [feed, ht, hl]

theorem feed_word_of_none (ht : t.kind = .word) (hl : l.waiting = none) :
    l.feed (.token t) =
      match Word.meaning? t.text.toList with
      | none => l.blame .unknownOpcode t
      | some m => l.addMeaning t m := by
  cases hmeaning : Word.meaning? t.text.toList with
  | none => simp only [feed, ht, hl, hmeaning]
  | some m => simp only [feed, ht, hl, hmeaning]

end

theorem Reads.feed {ts : List Token} {l l' : Linker} {t : Token} (h : Reads ts l)
    (hfeed : l.feed (.token t) = .ok l') : Reads (ts ++ [t]) l' := by
  -- a number needs a word that waits for it, and a word needs that none does
  cases hkind : t.kind with
  | number =>
    cases h with
    | ready =>
      rw [feed_number_of_none hkind rfl] at hfeed
      cases hfeed
    | @waiting ts p word m op spelt kind meaning plain =>
      rw [feed_number_of_some hkind rfl] at hfeed
      cases hvalue : t.value with
      | error f =>
        rw [hvalue] at hfeed
        cases hfeed
      | ok n =>
        rw [hvalue] at hfeed
        obtain rfl := Except.ok.inj hfeed
        have hready := Reads.ready (spelt.snoc (.operand kind meaning plain hkind hvalue))
        simpa [append] using hready
  | word =>
    cases h with
    | waiting =>
      rw [feed_word_of_some hkind rfl] at hfeed
      cases hfeed
    | ready spelt =>
      rw [feed_word_of_none hkind rfl] at hfeed
      cases hmeaning : Word.meaning? t.text.toList with
      | none =>
        rw [hmeaning] at hfeed
        cases hfeed
      | some meaning =>
        rw [hmeaning] at hfeed
        dsimp only at hfeed
        rcases meaning.isPlain_or_exists with hplain | ⟨front, op, rest, rfl, hfront⟩
        · rw [addMeaning_of_isPlain _ t hplain] at hfeed
          obtain rfl := Except.ok.inj hfeed
          have hready := Reads.ready (spelt.snoc (.word hkind hmeaning hplain))
          simpa [append] using hready
        -- an opcode that takes an operand waits for it as the last of its word, and is refused before
        · by_cases hrest : rest = []
          · subst hrest
            rw [addMeaning_last _ t hfront] at hfeed
            obtain rfl := Except.ok.inj hfeed
            have hwaiting := Reads.waiting spelt hkind hmeaning hfront
            simpa [append] using hwaiting
          · rw [addMeaning_inner _ t hfront op hrest] at hfeed
            cases hfeed

theorem Reads.feedAll {ts us : List Token} {l l' : Linker} (h : Reads ts l)
    (hfeed : l.feedAll (us.map .token) = .ok l') : Reads (ts ++ us) l' := by
  -- over the tokens still to come: what was read grows by one token in each step
  induction us generalizing ts l with
  | nil =>
    obtain rfl := Except.ok.inj hfeed
    rwa [List.append_nil]
  | cons t us ih =>
    rw [List.map_cons, feedAll_cons] at hfeed
    cases hstep : l.feed (.token t) with
    | error f =>
      rw [hstep] at hfeed
      cases hfeed
    | ok next =>
      rw [hstep] at hfeed
      have hnext := ih (h.feed hstep) hfeed
      rwa [List.append_assoc] at hnext

theorem Reads.finish {ts : List Token} {l : Linker} {p : Program} (h : Reads ts l)
    (hfinish : l.finish = .ok p) : Spells ts p := by
  cases h with
  | ready spelt =>
    -- no word waits, so all tokens lie in groups
    obtain rfl := Except.ok.inj hfinish
    exact spelt
  | waiting => cases hfinish

theorem feedAll_group {ts : List Token} {p : Program} (h : Group ts p) {l : Linker}
    (hl : l.waiting = none) : l.feedAll (ts.map .token) = .ok (l.append p) := by
  cases h with
  | word kind meaning plain =>
    rw [List.map_singleton, feedAll_cons, feed_word_of_none kind hl, meaning]
    dsimp only
    rw [addMeaning_of_isPlain l _ plain]
    rfl
  | @operand t number m op n kind meaning plain numberKind value =>
    have hfirst : l.feed (.token t) =
        .ok { l.append m.instructions with waiting := some (op, t) } := by
      rw [feed_word_of_none kind hl, meaning]
      exact addMeaning_last l t plain op
    have hsecond : Linker.feed { l.append m.instructions with waiting := some (op, t) }
        (.token number) = .ok (l.append (m.instructions ++ [⟨op, .immediate, n⟩])) := by
      rw [feed_number_of_some numberKind rfl, value]
      obtain ⟨program, waiting⟩ := l
      obtain rfl : waiting = none := hl
      simp [append, Except.bind]
    rw [List.map_cons, List.map_singleton, feedAll_cons, hfirst]
    show (Linker.feed _ (.token number)).bind _ = _
    rw [hsecond]
    rfl

theorem feedAll_of_spells {ts : List Token} {p : Program} (h : Spells ts p) {l : Linker}
    (hl : l.waiting = none) : l.feedAll (ts.map .token) = .ok (l.append p) := by
  -- over the groups: each starts with no word waiting, and leaves none
  induction h generalizing l with
  | nil => rw [append_nil]; rfl
  | cons first _ ih =>
    rw [List.map_append, feedAll_append, feedAll_group first hl]
    show (l.append _).feedAll _ = _
    rw [ih (l := l.append _) hl, append_append]

/-! ## Refusals -/

theorem exists_assembly_of_blame {l : Linker} {cause : AssemblyCause} {t : Token} {f : Fault}
    (h : (l.blame cause t : Answer Linker) = .error f) : ∃ a, f = .assembly a := by
  obtain rfl := Except.error.inj h
  exact ⟨_, rfl⟩

/-- A token that has a value if it is a number is refused by an assembly fault only. -/
theorem exists_assembly_of_feed {l : Linker} {t : Token} {f : Fault}
    (hvalue : t.kind = .number → ∃ n, t.value = .ok n) (h : l.feed (.token t) = .error f) :
    ∃ a, f = .assembly a := by
  cases hkind : t.kind with
  | number =>
    cases hl : l.waiting with
    | none =>
      rw [feed_number_of_none hkind hl] at h
      exact exists_assembly_of_blame h
    | some opened =>
      obtain ⟨op, opened⟩ := opened
      obtain ⟨n, hn⟩ := hvalue hkind
      rw [feed_number_of_some hkind hl, hn] at h
      cases h
  | word =>
    cases hl : l.waiting with
    | some opened =>
      obtain ⟨op, opened⟩ := opened
      rw [feed_word_of_some hkind hl] at h
      exact exists_assembly_of_blame h
    | none =>
      rw [feed_word_of_none hkind hl] at h
      cases hmeaning : Word.meaning? t.text.toList with
      | none =>
        rw [hmeaning] at h
        exact exists_assembly_of_blame h
      | some meaning =>
        rw [hmeaning] at h
        dsimp only at h
        rcases meaning.isPlain_or_exists with hplain | ⟨front, op, rest, rfl, hfront⟩
        · rw [addMeaning_of_isPlain l t hplain] at h
          cases h
        · by_cases hrest : rest = []
          · subst hrest
            rw [addMeaning_last l t hfront] at h
            cases h
          · rw [addMeaning_inner l t hfront op hrest] at h
            exact exists_assembly_of_blame h

theorem exists_assembly_of_feedAll {ts : List Token} {l : Linker} {f : Fault}
    (hvalues : ∀ t ∈ ts, t.kind = .number → ∃ n, t.value = .ok n)
    (h : l.feedAll (ts.map .token) = .error f) : ∃ a, f = .assembly a := by
  induction ts generalizing l with
  | nil => cases h
  | cons t ts ih =>
    obtain ⟨ht, hts⟩ := List.forall_mem_cons.mp hvalues
    rw [List.map_cons, feedAll_cons] at h
    cases hstep : l.feed (.token t) with
    | error g =>
      rw [hstep] at h
      obtain rfl := Except.error.inj h
      exact exists_assembly_of_feed ht hstep
    | ok next =>
      rw [hstep] at h
      exact ih hts h

theorem exists_assembly_of_finish {l : Linker} {f : Fault} (h : l.finish = .error f) :
    ∃ a, f = .assembly a := by
  unfold finish at h
  split at h
  · obtain rfl := Except.error.inj h
    exact ⟨_, rfl⟩
  · cases h

end Linker

/-! ## Programs -/

namespace Program

theorem ofTokens_eq_bind (ts : List Token) :
    ofTokens ts = (Linker.start.feedAll (ts.map .token)).bind Linker.finish := rfl

theorem ofTokens_eq_ok_iff {ts : List Token} {p : Program} : ofTokens ts = .ok p ↔ Spells ts p := by
  rw [ofTokens_eq_bind]
  constructor
  -- from the linker to the language: a run that succeeds has kept its invariant
  · intro h
    cases hread : Linker.start.feedAll (ts.map .token) with
    | error f =>
      rw [hread] at h
      cases h
    | ok l =>
      rw [hread] at h
      exact ((Linker.Reads.ready .nil).feedAll hread).finish h
  -- from the language to the linker: the groups are fed one by one
  · intro h
    rw [Linker.feedAll_of_spells h rfl]
    show (Linker.start.append p).finish = .ok p
    simp [Linker.finish, Linker.append, Linker.start]

theorem exists_assembly_of_ofTokens {ts : List Token} {f : Fault}
    (hvalues : ∀ t ∈ ts, t.kind = .number → ∃ n, t.value = .ok n) (h : ofTokens ts = .error f) :
    ∃ a, f = .assembly a := by
  rw [ofTokens_eq_bind] at h
  cases hread : Linker.start.feedAll (ts.map .token) with
  | error g =>
    rw [hread] at h
    obtain rfl := Except.error.inj h
    exact Linker.exists_assembly_of_feedAll hvalues hread
  | ok l =>
    rw [hread] at h
    exact Linker.exists_assembly_of_finish h

theorem ofText_of_tokens {s : String} {ts : List Token} (hts : Token.ofText s = .ok ts) :
    ofText s = ofTokens ts := by
  unfold ofText
  rw [hts]
  rfl

/-- A text whose numbers have no more digits than are read is a program iff its tokens are groups in
a row, and is then the program that the groups spell.  Any other text is refused as a program. -/
theorem ofText_eq_ok_iff_spells {s : String} {ts : List Token} (hts : Token.ofText s = .ok ts)
    (hdigits : ∀ t ∈ ts, t.kind = .number →
      t.text.toList.countP isDecimal ≤ Numeral.digitLimit) :
    (∀ p, ofText s = .ok p ↔ Spells ts p) ∧
      ((¬ ∃ p, Spells ts p) → ∃ a, ofText s = .error (.assembly a)) := by
  rw [ofText_of_tokens hts]
  refine ⟨fun p => ofTokens_eq_ok_iff, ?_⟩
  intro hno
  have hvalues : ∀ t ∈ ts, t.kind = .number → ∃ n, t.value = .ok n := fun t ht hkind =>
    Token.exists_value hts ht hkind (hdigits t ht hkind)
  cases hresult : ofTokens ts with
  | ok p => exact absurd ⟨p, ofTokens_eq_ok_iff.mp hresult⟩ hno
  | error f =>
    obtain ⟨a, rfl⟩ := exists_assembly_of_ofTokens hvalues hresult
    exact ⟨a, rfl⟩

/-- A word of two letters, the second of which takes the number behind it. -/
theorem ofText_eq_ok_iff_spells_operand :
    let s := "אב! -5"
    let ts : List Token := [⟨.word, "אב!", some ⟨1, 1⟩⟩, ⟨.number, "-5", some ⟨1, 5⟩⟩]
    let p : Program := [⟨.alef, .plain, 0⟩, ⟨.bet, .immediate, -5⟩]
    (Token.ofText s = .ok ts ∧
        ∀ t ∈ ts, t.kind = .number → t.text.toList.countP isDecimal ≤ Numeral.digitLimit) ∧
      Spells ts p ∧ ofText s = .ok p := by
  intro s ts p
  have hts : Token.ofText s = .ok ts := by
    have hchars : s.toList = 'א' :: ['ב', '!'] ++ ' ' :: (['-', '5'] ++ []) := by decide
    unfold Token.ofText
    rw [hchars, Token.scan_word _ (List.all_eq_true.mp (by decide)) (by decide) rfl,
      Token.scan_gap _ (by decide), Token.scan_number _ (by decide) rfl, Token.scan_nil]
    rfl
  have hdigits : ∀ t ∈ ts, t.kind = .number →
      t.text.toList.countP isDecimal ≤ Numeral.digitLimit := by decide
  have hspells : Spells ts p :=
    .cons (.operand (m := [(.alef, .plain)]) rfl (by decide) (by decide) rfl rfl) .nil
  exact ⟨⟨hts, hdigits⟩, hspells, ((ofText_eq_ok_iff_spells hts hdigits).1 p).mpr hspells⟩

end Program

end LetterMachine
