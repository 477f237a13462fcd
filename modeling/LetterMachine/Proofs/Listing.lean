import LetterMachine.Proofs.Grammar

/-!
# Listings read back

A program that is written out and assembled again is the program itself: every instruction is
spelt by a group of its own, and blanks keep the groups apart.
-/

namespace LetterMachine

open LetterMachine.Text

namespace Instruction

/-- The word that an instruction is written with: its symbol and the mark of its mode. -/
def word (op : Opcode) : Mode → List Char
  | .plain => op.symbol.toList
  | .query => op.symbol.toList ++ [Mode.sheva]
  | .immediate => op.symbol.toList ++ [Mode.hiriq]

theorem meaning?_word (op : Opcode) (mode : Mode) :
    Word.meaning? (word op mode) = some [(op, mode)] := by
  cases op <;> cases mode <;> decide

theorem isInside_of_mem_word (op : Opcode) (mode : Mode) :
    ∀ c ∈ word op mode, Token.isInside c := by
  have hall : (word op mode).all Token.isInside = true := by
    cases op <;> cases mode <;> decide
  exact List.all_eq_true.mp hall

theorem exists_word_eq_cons (op : Opcode) (mode : Mode) :
    ∃ c rest, word op mode = c :: rest ∧ Token.opensNumber c = false := by
  cases op <;> cases mode <;> exact ⟨_, _, rfl, by decide⟩

theorem toList_text (i : Instruction) :
    i.text.toList =
      word i.op i.mode ++ i.numbers.flatMap fun n => ' ' :: (Numeral.text n).toList := by
  obtain ⟨op, mode, n⟩ := i
  cases mode with
  | plain => simp [text, word, numbers]
  | query => simp [text, word, numbers]
  | immediate => simp [text, word, numbers, String.toList_append]

/-- The operand is the one that the written form shows: none outside immediate mode, and one that
can be written there. -/
structure IsListable (i : Instruction) : Prop where
  operand_eq_zero : i.mode ≠ .immediate → i.operand = 0
  writable : i.mode = .immediate → Numeral.Writable i.operand

theorem isListable_plain (op : Opcode) : IsListable ⟨op, .plain, 0⟩ :=
  ⟨fun _ => rfl, fun h => by cases h⟩

/-- An instruction in front of a text is scanned as a group that spells it. -/
theorem exists_scan_text (i : Instruction) (h : i.IsListable) (p : Place) (rest : List Char)
    (hrest : rest.takeWhile Token.isInside = []) :
    ∃ group q, Group group [i] ∧
      Token.scan p (i.text.toList ++ rest) =
        { Token.scan q rest with tokens := group ++ (Token.scan q rest).tokens } := by
  obtain ⟨op, mode, n⟩ := i
  obtain ⟨c, run, hword, hc⟩ := exists_word_eq_cons op mode
  have hinside := isInside_of_mem_word op mode
  have hmeaning := meaning?_word op mode
  rw [hword] at hinside hmeaning
  rw [toList_text, hword]
  -- an immediate instruction gives a word and a number, any other a word alone
  by_cases hmode : mode = .immediate
  · subst hmode
    -- the blank in front of the operand ends the word
    have hblank : (' ' :: ((Numeral.text n).toList ++ rest)).takeWhile Token.isInside = [] := rfl
    have hnumber := Numeral.isNumber_text n
    have hvalue : (Token.mk .number (String.ofList (Numeral.text n).toList)
        (some ((p.after (c :: run)).next ' '))).value = .ok n := by
      unfold Token.value
      rw [String.ofList_toList, Numeral.read_text (h.writable rfl)]
      rfl
    refine ⟨[⟨.word, String.ofList (c :: run), some p⟩, ⟨.number,
      String.ofList (Numeral.text n).toList, some ((p.after (c :: run)).next ' ')⟩],
      ((p.after (c :: run)).next ' ').after (Numeral.text n).toList, ?_, ?_⟩
    · exact .operand (m := []) rfl (by rw [String.toList_ofList]; exact hmeaning)
        (fun unit hunit => by cases hunit) rfl hvalue
    · simp only [numbers, List.flatMap_cons, List.flatMap_nil, List.append_nil, List.append_assoc,
        List.cons_append]
      rw [← List.cons_append, Token.scan_word p hinside hc hblank,
        Token.scan_gap _ (by decide), Token.scan_number _ hnumber hrest]
      rfl
  · have hnumbers : numbers ⟨op, mode, n⟩ = [] := by
      cases mode with
      | immediate => exact absurd rfl hmode
      | plain | query => rfl
    obtain rfl : n = 0 := h.operand_eq_zero hmode
    refine ⟨[⟨.word, String.ofList (c :: run), some p⟩], p.after (c :: run), ?_, ?_⟩
    · exact .word (m := [(op, mode)]) rfl (by rw [String.toList_ofList]; exact hmeaning)
        (List.forall_mem_singleton.mpr hmode)
    · rw [hnumbers, List.flatMap_nil, List.append_nil, Token.scan_word p hinside hc hrest]
      rfl

end Instruction

namespace Program

theorem toList_text_cons_cons (i j : Instruction) (p : Program) :
    (text (i :: j :: p)).toList = i.text.toList ++ ' ' :: (text (j :: p)).toList := by
  simp [text, String.intercalate_cons_cons, String.toList_append]

theorem exists_scan_text {p : Program} (h : ∀ i ∈ p, i.IsListable) (q : Place) :
    ∃ ts, Token.scan q (text p).toList = ⟨ts, none⟩ ∧ Spells ts p := by
  -- over the program, with the place free: it moves on with every token
  induction p generalizing q with
  | nil => exact ⟨[], Token.scan_nil q, .nil⟩
  | cons i p ih =>
    obtain ⟨hi, hp⟩ := List.forall_mem_cons.mp h
    cases p with
    | nil =>
      obtain ⟨group, r, hgroup, hscan⟩ := i.exists_scan_text hi q [] rfl
      refine ⟨group, ?_, ?_⟩
      · have htext : text [i] = i.text := String.intercalate_singleton
        rw [List.append_nil] at hscan
        rw [htext, hscan, Token.scan_nil, List.append_nil]
      · have hspells := Spells.cons hgroup .nil
        rwa [List.append_nil] at hspells
    | cons j p =>
      obtain ⟨group, r, hgroup, hscan⟩ :=
        i.exists_scan_text hi q (' ' :: (text (j :: p)).toList) rfl
      -- the blank between two instructions is a gap, so words cannot run together
      obtain ⟨ts, hrest, hspells⟩ := ih hp (r.next ' ')
      refine ⟨group ++ ts, ?_, .cons hgroup hspells⟩
      rw [toList_text_cons_cons, hscan, Token.scan_gap r (by decide), hrest]

theorem ofText_text {p : Program} (h : ∀ i ∈ p, i.IsListable) : ofText p.text = .ok p := by
  obtain ⟨ts, hscan, hspells⟩ := exists_scan_text h Place.start
  have htokens : Token.ofText p.text = .ok ts := by
    unfold Token.ofText
    rw [hscan]
  rw [ofText_of_tokens htokens]
  exact ofTokens_eq_ok_iff.mpr hspells

theorem listing_eq_ok {p : Program} (h : ∀ i ∈ p, i.IsListable) : p.listing = .ok p.text := by
  have hwritable : ∀ n ∈ p.flatMap Instruction.numbers, Numeral.Writable n := by
    intro n hn
    obtain ⟨i, hi, hn⟩ := List.mem_flatMap.mp hn
    unfold Instruction.numbers at hn
    split at hn
    · next hmode =>
      obtain rfl := List.mem_singleton.mp hn
      exact (h i hi).writable hmode
    · cases hn
  unfold listing shownWith Numeral.guarded
  rw [if_pos hwritable]
  rfl

theorem isListable_of_group {ts : List Token} {p : Program} (h : Group ts p) :
    ∀ i ∈ p, i.IsListable := by
  have hplain : ∀ {m : Word.Meaning}, m.IsPlain → ∀ i ∈ m.instructions, i.IsListable := by
    intro m hm i hi
    obtain ⟨unit, hunit, rfl⟩ := List.mem_map.mp hi
    exact ⟨fun _ => rfl, fun hmode => absurd hmode (hm unit hunit)⟩
  cases h with
  | word kind meaning plain => exact hplain plain
  | operand kind meaning plain numberKind value =>
    intro i hi
    rcases List.mem_append.mp hi with hi | hi
    · exact hplain plain i hi
    -- the operand was read from a token, so it has no more digits than can be written
    · obtain rfl := List.mem_singleton.mp hi
      refine ⟨fun hmode => absurd rfl hmode, fun _ => ?_⟩
      unfold Token.value at value
      cases hread : Numeral.read _ with
      | error f =>
        rw [hread] at value
        cases value
      | ok n =>
        rw [hread] at value
        obtain rfl := Except.ok.inj value
        exact Numeral.writable_of_read hread

theorem isListable_of_spells {ts : List Token} {p : Program} (h : Spells ts p) :
    ∀ i ∈ p, i.IsListable := by
  induction h with
  | nil => exact fun i hi => by cases hi
  | cons first _ ih =>
    intro i hi
    rcases List.mem_append.mp hi with hi | hi
    · exact isListable_of_group first i hi
    · exact ih i hi

theorem isListable_of_ofText {s : String} {p : Program} (h : ofText s = .ok p) :
    ∀ i ∈ p, i.IsListable := by
  cases htokens : Token.ofText s with
  | error f =>
    unfold ofText at h
    rw [htokens] at h
    cases h
  | ok ts =>
    rw [ofText_of_tokens htokens] at h
    exact isListable_of_spells (ofTokens_eq_ok_iff.mp h)

/-- A program whose operands can be written, and stand in immediate instructions only, is listed,
and its listing is assembled to the program again.  So is the listing of every assembled program. -/
theorem ofText_listing :
    (∀ p : Program, (∀ i ∈ p, i.mode ≠ .immediate → i.operand = 0) →
        (∀ i ∈ p, i.mode = .immediate → Numeral.Writable i.operand) →
        p.listing.bind ofText = .ok p) ∧
      ∀ s p, ofText s = .ok p → p.listing.bind ofText = .ok p := by
  have hround : ∀ p : Program, (∀ i ∈ p, i.IsListable) → p.listing.bind ofText = .ok p := by
    intro p h
    rw [listing_eq_ok h]
    exact ofText_text h
  refine ⟨?_, ?_⟩
  · intro p hzero hwritable
    exact hround p fun i hi => ⟨hzero i hi, hwritable i hi⟩
  · intro s p h
    exact hround p (isListable_of_ofText h)

/-- Three letters that would spell the round if nothing stood between them, the round with a negative
operand, and a text that names the round in Latin. -/
theorem ofText_listing_samekh_bet_bet :
    let p : Program := [⟨.samekh, .plain, 0⟩, ⟨.bet, .plain, 0⟩, ⟨.bet, .plain, 0⟩,
      ⟨.sovav, .immediate, -7⟩, ⟨.sovav, .query, 0⟩]
    let q : Program := [⟨.sovav, .immediate, 5⟩]
    ((∀ i ∈ p, i.mode ≠ .immediate → i.operand = 0) ∧
        (∀ i ∈ p, i.mode = .immediate → Numeral.Writable i.operand) ∧
        ofText "sovev! +5" = .ok q) ∧
      p.listing.bind ofText = .ok p ∧ q.listing.bind ofText = .ok q := by
  intro p q
  have hzero : ∀ i ∈ p, i.mode ≠ .immediate → i.operand = 0 := by decide
  have hwritable : ∀ i ∈ p, i.mode = .immediate → Numeral.Writable i.operand := by decide +kernel
  have htokens : Token.ofText "sovev! +5" =
      .ok [⟨.word, "sovev!", some ⟨1, 1⟩⟩, ⟨.number, "+5", some ⟨1, 8⟩⟩] := by
    have hchars : "sovev! +5".toList =
        's' :: ['o', 'v', 'e', 'v', '!'] ++ ' ' :: (['+', '5'] ++ []) := by decide
    unfold Token.ofText
    rw [hchars, Token.scan_word _ (List.all_eq_true.mp (by decide)) (by decide) rfl,
      Token.scan_gap _ (by decide), Token.scan_number _ (by decide) rfl, Token.scan_nil]
    rfl
  have hq : ofText "sovev! +5" = .ok q := by
    rw [ofText_of_tokens htokens]
    exact ofTokens_eq_ok_iff.mpr
      (.cons (.operand (m := []) rfl (by decide) (by decide) rfl rfl) .nil)
  exact ⟨⟨hzero, hwritable, hq⟩, ofText_listing.1 p hzero hwritable, ofText_listing.2 _ q hq⟩

end Program

end LetterMachine
