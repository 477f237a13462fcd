import LetterMachine.Proofs.Cuts

/-!
# What a program is refused for

A row of tokens is refused at the first token that does not fit behind a program that the tokens
before it spell, or at an operand with too many digits.  A misfit is told with its place, and the part
of the text in front of it is a program by itself, whose length is the position that is told, up to
the opcodes in front of the one that lacks its operand.
-/

namespace LetterMachine

open LetterMachine.Text

/-- Why a token does not fit behind a program of so many instructions, and the position that it is
given there. -/
inductive Token.Misfit (t : Token) (after : List Token) (count : Nat) :
    AssemblyCause → Nat → Prop where
  | unknown (kind : t.kind = .word) (meaning : Word.meaning? t.text.toList = none) :
      Misfit t after count .unknownOpcode count
  | stray (kind : t.kind = .number) : Misfit t after count .unexpectedOperand count
  /-- The first opcode with an operand is not the last of its word, or no number follows the word. -/
  | missing {front rest : Word.Meaning} {op : Opcode} (kind : t.kind = .word)
      (meaning : Word.meaning? t.text.toList = some (front ++ (op, .immediate) :: rest))
      (plain : front.IsPlain) (lacking : rest ≠ [] ∨ ∀ u ∈ after.head?, u.kind ≠ .number) :
      Misfit t after count .missingOperand (count + front.length)

/-- Behind a program stands a word that takes an operand, and its operand has so many digits, too
many to be read. -/
inductive Overlong : List Token → Nat → Prop where
  | operand {before after : List Token} {t number : Token} {p : Program} {m : Word.Meaning}
      {op : Opcode} (spelt : Spells before p) (kind : t.kind = .word)
      (meaning : Word.meaning? t.text.toList = some (m ++ [(op, .immediate)])) (plain : m.IsPlain)
      (numberKind : number.kind = .number)
      (long : Numeral.digitLimit < number.text.toList.countP isDecimal) :
      Overlong (before ++ t :: number :: after) (number.text.toList.countP isDecimal)

/-- What a row of tokens is refused for. -/
inductive Refused : List Token → Fault → Prop where
  | misfit {before after : List Token} {t : Token} {p : Program} {cause : AssemblyCause}
      {position : Nat} (spelt : Spells before p) (reason : t.Misfit after p.length cause position) :
      Refused (before ++ t :: after) (.assembly ⟨cause, t.text, position, t.place⟩)
  | overlong {ts : List Token} {n : Nat} (long : Overlong ts n) :
      Refused ts (.numeral (.tooManyDigits n))

/-! ## From the linker to the reason -/

@[simp] theorem Word.Meaning.length_instructions (m : Word.Meaning) :
    m.instructions.length = m.length :=
  List.length_map _

namespace Linker

theorem Reads.refused_of_feed {ts : List Token} {l : Linker} {t : Token} {f : Fault} (h : Reads ts l)
    (hnumber : t.kind = .number → Token.isNumber t.text.toList)
    (hfeed : l.feed (.token t) = .error f) (us : List Token) : Refused (ts ++ t :: us) f := by
  cases hkind : t.kind with
  | number =>
    cases h with
    | @ready ts p spelt =>
      -- no word waits, so the number is nobody's operand
      rw [feed_number_of_none hkind rfl] at hfeed
      obtain rfl := Except.error.inj hfeed
      exact .misfit spelt (.stray hkind)
    | @waiting ts p word m op spelt kind meaning plain =>
      rw [feed_number_of_some hkind rfl] at hfeed
      rcases Token.value_cases (hnumber hkind) with ⟨n, hn⟩ | hlong
      · rw [hn] at hfeed
        cases hfeed
      · rw [Token.value_of_long (hnumber hkind) hlong] at hfeed
        obtain rfl := Except.error.inj hfeed
        rw [List.append_assoc]
        exact .overlong (.operand spelt kind meaning plain hkind hlong)
  | word =>
    cases h with
    | @waiting ts p word m op spelt kind meaning plain =>
      -- the word that waits is to blame, not the one that stands in the place of its operand
      rw [feed_word_of_some hkind rfl] at hfeed
      obtain rfl := Except.error.inj hfeed
      rw [List.append_assoc]
      have hlacking : ∀ u ∈ (t :: us).head?, u.kind ≠ .number := by simp [hkind]
      have hmisfit : word.Misfit (t :: us) p.length .missingOperand (p.length + m.length) :=
        .missing kind meaning plain (.inr hlacking)
      simpa using Refused.misfit spelt hmisfit
    | @ready ts p spelt =>
      rw [feed_word_of_none hkind rfl] at hfeed
      cases hmeaning : Word.meaning? t.text.toList with
      | none =>
        rw [hmeaning] at hfeed
        obtain rfl := Except.error.inj hfeed
        exact .misfit spelt (.unknown hkind hmeaning)
      | some meaning =>
        rw [hmeaning] at hfeed
        dsimp only at hfeed
        rcases meaning.isPlain_or_exists with hplain | ⟨front, op, rest, rfl, hfront⟩
        · rw [addMeaning_of_isPlain _ t hplain] at hfeed
          cases hfeed
        · by_cases hrest : rest = []
          · subst hrest
            rw [addMeaning_last _ t hfront] at hfeed
            cases hfeed
          · rw [addMeaning_inner _ t hfront op hrest] at hfeed
            obtain rfl := Except.error.inj hfeed
            have hmisfit : t.Misfit us p.length .missingOperand (p.length + front.length) :=
              .missing hkind hmeaning hfront (.inl hrest)
            simpa [append] using Refused.misfit spelt hmisfit

theorem Reads.refused_of_feedAll {ts us : List Token} {l : Linker} {f : Fault} (h : Reads ts l)
    (hnumbers : ∀ t ∈ us, t.kind = .number → Token.isNumber t.text.toList)
    (hfeed : l.feedAll (us.map .token) = .error f) : Refused (ts ++ us) f := by
  -- over the tokens still to come: one that is taken lies in front, one that is not is the reason
  induction us generalizing ts l with
  | nil => cases hfeed
  | cons t us ih =>
    obtain ⟨ht, hus⟩ := List.forall_mem_cons.mp hnumbers
    rw [List.map_cons, feedAll_cons] at hfeed
    cases hstep : l.feed (.token t) with
    | error g =>
      rw [hstep] at hfeed
      obtain rfl := Except.error.inj hfeed
      exact h.refused_of_feed ht hstep us
    | ok next =>
      rw [hstep] at hfeed
      have hrest := ih (h.feed hstep) hus hfeed
      rwa [List.append_assoc] at hrest

theorem Reads.refused_of_finish {ts : List Token} {l : Linker} {f : Fault} (h : Reads ts l)
    (hfinish : l.finish = .error f) : Refused ts f := by
  cases h with
  | ready => cases hfinish
  | @waiting ts p word m op spelt kind meaning plain =>
    obtain rfl := Except.error.inj hfinish
    have hmisfit : word.Misfit [] p.length .missingOperand (p.length + m.length) :=
      .missing kind meaning plain (.inr (by simp))
    simpa using Refused.misfit spelt hmisfit

end Linker

/-! ## From the reason to the linker -/

namespace Program

/-- Tokens that spell a program are linked, and the rest is linked behind it. -/
theorem ofTokens_append {ts us : List Token} {p : Program} (h : Spells ts p) :
    ofTokens (ts ++ us) = ((⟨p.toArray, none⟩ : Linker).feedAll (us.map .token)).bind Linker.finish := by
  have hstart : Linker.start.append p = ⟨p.toArray, none⟩ := by
    simp [Linker.append, Linker.start]
  rw [ofTokens_eq_bind, List.map_append, Linker.feedAll_append, Linker.feedAll_of_spells h rfl,
    hstart]
  rfl

/-- A word that takes an operand waits for it with the opcodes in front linked. -/
theorem ofTokens_waiting {before rest : List Token} {t : Token} {p : Program} {m : Word.Meaning}
    {op : Opcode} (spelt : Spells before p) (kind : t.kind = .word)
    (meaning : Word.meaning? t.text.toList = some (m ++ [(op, .immediate)])) (plain : m.IsPlain) :
    ofTokens (before ++ t :: rest) =
      ((⟨(p ++ m.instructions).toArray, some (op, t)⟩ : Linker).feedAll (rest.map .token)).bind
        Linker.finish := by
  rw [ofTokens_append spelt, List.map_cons, Linker.feedAll_cons, Linker.feed_word_of_none kind rfl,
    meaning]
  dsimp only
  rw [Linker.addMeaning_last _ t plain]
  simp [Linker.append, Except.bind]

theorem ofTokens_of_misfit {before after : List Token} {t : Token} {p : Program}
    {cause : AssemblyCause} {position : Nat} (spelt : Spells before p)
    (reason : t.Misfit after p.length cause position) :
    ofTokens (before ++ t :: after) = .error (.assembly ⟨cause, t.text, position, t.place⟩) := by
  cases reason with
  | unknown kind meaning =>
    rw [ofTokens_append spelt, List.map_cons, Linker.feedAll_cons,
      Linker.feed_word_of_none kind rfl, meaning]
    rfl
  | stray kind =>
    rw [ofTokens_append spelt, List.map_cons, Linker.feedAll_cons,
      Linker.feed_number_of_none kind rfl]
    rfl
  | @missing front rest op kind meaning plain lacking =>
    by_cases hrest : rest = []
    · subst hrest
      rw [ofTokens_waiting spelt kind meaning plain]
      have hafter := lacking.resolve_left (not_not_intro rfl)
      cases after with
      | nil =>
        show Linker.finish ⟨(p ++ front.instructions).toArray, some (op, t)⟩ = _
        simp [Linker.finish, Linker.blame]
      | cons u us =>
        -- what stands in the place of the operand is a word
        have hu : u.kind = .word := by
          cases hkind : u.kind with
          | word => rfl
          | number => exact absurd hkind (hafter u rfl)
        rw [List.map_cons, Linker.feedAll_cons, Linker.feed_word_of_some hu rfl]
        simp [Linker.blame, Except.bind]
    · rw [ofTokens_append spelt, List.map_cons, Linker.feedAll_cons,
        Linker.feed_word_of_none kind rfl, meaning]
      dsimp only
      rw [Linker.addMeaning_inner _ t plain op hrest]
      simp [Linker.blame, Linker.append, Except.bind]

theorem ofTokens_of_overlong {ts : List Token} {n : Nat}
    (hnumbers : ∀ t ∈ ts, t.kind = .number → Token.isNumber t.text.toList) (h : Overlong ts n) :
    ofTokens ts = .error (.numeral (.tooManyDigits n)) := by
  obtain @⟨before, after, t, number, p, m, op, spelt, kind, meaning, plain, numberKind, long⟩ := h
  rw [ofTokens_waiting spelt kind meaning plain, List.map_cons, Linker.feedAll_cons,
    Linker.feed_number_of_some numberKind rfl,
    Token.value_of_long (hnumbers number (by simp) numberKind) long]
  rfl

/-- Tokens whose numbers are numbers are refused for just these reasons. -/
theorem ofTokens_eq_error_iff {ts : List Token} {f : Fault}
    (hnumbers : ∀ t ∈ ts, t.kind = .number → Token.isNumber t.text.toList) :
    ofTokens ts = .error f ↔ Refused ts f := by
  constructor
  · intro h
    rw [ofTokens_eq_bind] at h
    cases hread : Linker.start.feedAll (ts.map .token) with
    | error g =>
      rw [hread] at h
      obtain rfl := Except.error.inj h
      exact (Linker.Reads.ready .nil).refused_of_feedAll hnumbers hread
    | ok l =>
      rw [hread] at h
      exact ((Linker.Reads.ready .nil).feedAll hread).refused_of_finish h
  · intro h
    cases h with
    | misfit spelt reason => exact ofTokens_of_misfit spelt reason
    | overlong long => exact ofTokens_of_overlong hnumbers long

/-! ## Texts -/

theorem ofText_of_error {s : String} {f : Fault} (h : Token.ofText s = .error f) :
    ofText s = .error f := by
  unfold ofText
  rw [h]
  rfl

theorem ofText_eq_error_iff {s : String} {ts : List Token} (hts : Token.ofText s = .ok ts)
    {f : Fault} : ofText s = .error f ↔ Refused ts f := by
  rw [ofText_of_tokens hts]
  exact ofTokens_eq_error_iff fun t ht hkind => Token.isNumber_of_mem_ofText hts ht hkind

/-- A text of tokens is refused as a program exactly for its first token that does not fit behind the
program of the text in front of it. -/
theorem ofText_eq_error_iff_misfit {s : String} {ts : List Token} (hts : Token.ofText s = .ok ts)
    (a : AssemblyFault) :
    ofText s = .error (.assembly a) ↔
      ∃ before t after front place p, ts = before ++ t :: after ∧ t.place = some place ∧
        Token.StandsBehind s t.text place front before ∧ ofText front = .ok p ∧
        a.token = t.text ∧ a.place = some place ∧
        t.Misfit after p.length a.cause a.position := by
  rw [ofText_eq_error_iff hts]
  constructor
  · intro h
    cases h with
    | @misfit before after t p cause position spelt reason =>
      obtain ⟨front, place, hplace, hstands⟩ := Token.exists_standsBehind hts
      exact ⟨before, t, after, front, place, p, rfl, hplace, hstands,
        ofText_eq_ok_iff.mpr ⟨before, hstands.tokens, spelt⟩, rfl, hplace, reason⟩
  · rintro ⟨before, t, after, front, place, p, rfl, hplace, hstands, hp, htoken, haplace, hreason⟩
    obtain ⟨ts, hfront, hspelt⟩ := ofText_eq_ok_iff.mp hp
    obtain rfl := Except.ok.inj (hfront.symm.trans hstands.tokens)
    obtain ⟨cause, token, position, aplace⟩ := a
    obtain rfl : token = t.text := htoken
    obtain rfl : aplace = t.place := haplace.trans hplace.symm
    exact .misfit hspelt hreason

/-- The word whose second letter takes an operand is to blame, not the word on the next line, which
stands in the place of the operand. -/
theorem ofText_eq_error_iff_misfit_bet :
    let s := "א אב!;7\nת"
    let front := "א "
    let alef : Token := ⟨.word, "א", some ⟨1, 1⟩⟩
    let bet : Token := ⟨.word, "אב!", some ⟨1, 3⟩⟩
    let tav : Token := ⟨.word, "ת", some ⟨2, 1⟩⟩
    Token.ofText s = .ok [alef, bet, tav] ∧ ofText front = .ok [⟨.alef, .plain, 0⟩] ∧
      ofText s = .error (.assembly ⟨.missingOperand, "אב!", 2, some ⟨1, 3⟩⟩) := by
  intro s front alef bet tav
  have hfront : Token.ofText front = .ok [alef] := by
    have hchars : front.toList = 'א' :: [] ++ ' ' :: [] := by decide
    rw [Token.ofText_eq_ok_iff, hchars, Token.scan_word _ (List.all_eq_true.mp (by decide))
      (by decide) rfl, Token.scan_gap _ (by decide), Token.scan_nil]
    rfl
  have hts : Token.ofText s = .ok [alef, bet, tav] := by
    have hchars : s.toList =
        'א' :: [] ++ ' ' :: ('א' :: ['ב', '!'] ++ ';' :: ['7', '\n', 'ת']) := by decide
    rw [Token.ofText_eq_ok_iff, hchars, Token.scan_word _ (List.all_eq_true.mp (by decide))
      (by decide) rfl, Token.scan_gap _ (by decide),
      Token.scan_word _ (List.all_eq_true.mp (by decide)) (by decide) rfl,
      Token.scan_comment _ (by decide)]
    show ((Token.scan _ ('\n' :: ('ת' :: [] ++ []))).behind _).behind _ = _
    rw [Token.scan_gap _ (by decide), Token.scan_word _ (List.all_eq_true.mp (by decide))
      (by decide) rfl, Token.scan_nil]
    rfl
  have hp : ofText front = .ok [⟨.alef, .plain, 0⟩] :=
    ofText_eq_ok_iff.mpr ⟨[alef], hfront,
      .cons (.word (m := [(.alef, .plain)]) rfl (by decide) (by decide)) .nil⟩
  have hstands : Token.StandsBehind s "אב!" ⟨1, 3⟩ front [alef] :=
    ⟨⟨";7\nת", by decide⟩, hfront, by decide⟩
  have hmeaning : Word.meaning? bet.text.toList = some ([(.alef, .plain)] ++ [(.bet, .immediate)]) := by
    decide
  have hmisfit : bet.Misfit [tav] 1 .missingOperand 2 :=
    .missing rfl hmeaning (by decide) (.inr (by simp [tav]))
  exact ⟨hts, hp, (ofText_eq_error_iff_misfit hts _).mpr
    ⟨[alef], bet, [tav], front, _, _, rfl, rfl, hstands, hp, rfl, rfl, hmisfit⟩⟩

/-! ## Texts that are not refused as programs -/

/-- The text is a program, or it is refused as one and told where. -/
def Settles (s : String) : Prop :=
  (∃ p, ofText s = .ok p) ∨ ∃ a place, ofText s = .error (.assembly a) ∧ a.place = some place

theorem settles_of_malformed {s : String} {f : Fault} (h : Token.ofText s = .error f) :
    Settles s := by
  obtain ⟨stretch, place, front, tokens, -, rfl⟩ := Token.exists_standsBehind_of_error h
  exact .inr ⟨_, place, ofText_of_error h, rfl⟩

/-- A text is a program or refused as one with its place, unless behind a program stands a word whose
operand has too many digits: then the operand is refused as a numeral, and told without a place. -/
theorem settles_iff (s : String) :
    (Settles s ↔ ∀ ts, Token.ofText s = .ok ts → ∀ n, ¬ Overlong ts n) ∧
      ∀ ts, Token.ofText s = .ok ts → ∀ n, Overlong ts n →
        ofText s = .error (.numeral (.tooManyDigits n)) := by
  have hlong : ∀ ts, Token.ofText s = .ok ts → ∀ n, Overlong ts n →
      ofText s = .error (.numeral (.tooManyDigits n)) := fun ts hts n h =>
    (ofText_eq_error_iff hts).mpr (.overlong h)
  refine ⟨⟨?_, ?_⟩, hlong⟩
  · intro hsettles ts hts n h
    have herror := hlong ts hts n h
    rcases hsettles with ⟨p, hp⟩ | ⟨a, place, ha, -⟩
    · rw [hp] at herror
      cases herror
    · rw [ha] at herror
      cases herror
  · intro hshort
    cases hts : Token.ofText s with
    | error f => exact settles_of_malformed hts
    | ok ts =>
      cases hresult : ofText s with
      | ok p => exact .inl ⟨p, hresult⟩
      | error f =>
        -- of the two reasons to refuse tokens, only the first is left
        cases hreason : (ofText_eq_error_iff hts).mp hresult with
        | @misfit before after t p cause position spelt reason =>
          obtain ⟨front, place, hplace, -⟩ := Token.exists_standsBehind hts
          exact .inr ⟨_, place, hresult, hplace⟩
        | overlong long => exact absurd long (hshort ts hts _)

/-- An operand of one digit more than are read. -/
theorem not_forall_settles : ¬ ∀ s : String, Settles s := by
  intro h
  let digits := List.replicate (Numeral.digitLimit + 1) '1'
  let bet : Token := ⟨.word, "ב!", some ⟨1, 1⟩⟩
  let number : Token := ⟨.number, String.ofList digits, some ⟨1, 4⟩⟩
  let s := "ב! " ++ String.ofList digits
  have hdecimal : ∀ c ∈ digits, isDecimal c := fun c hc => by
    rw [List.eq_of_mem_replicate hc]
    decide
  have hcount : number.text.toList.countP isDecimal = Numeral.digitLimit + 1 := by
    rw [String.toList_ofList, List.countP_eq_length.mpr hdecimal, List.length_replicate]
  have hnumber : Token.isNumber digits := by
    show Token.isNumber ('1' :: List.replicate Numeral.digitLimit '1')
    rw [Token.isNumber_cons, if_neg (by decide)]
    exact List.all_eq_true.mpr hdecimal
  have hts : Token.ofText s = .ok [bet, number] := by
    have hchars : s.toList = 'ב' :: ['!'] ++ ' ' :: (digits ++ []) := by
      simp only [s, String.toList_append, String.toList_ofList, List.append_nil]
      rfl
    rw [Token.ofText_eq_ok_iff, hchars, Token.scan_word _ (List.all_eq_true.mp (by decide))
      (by decide) rfl, Token.scan_gap _ (by decide), Token.scan_number _ hnumber rfl,
      Token.scan_nil]
    rfl
  have hmeaning : Word.meaning? bet.text.toList = some ([] ++ [(.bet, .immediate)]) := by decide
  have hlong : Overlong ([] ++ bet :: number :: []) (number.text.toList.countP isDecimal) :=
    .operand .nil rfl hmeaning (by decide) rfl (by rw [hcount]; exact Nat.lt_succ_self _)
  rcases h s with ⟨p, hp⟩ | ⟨a, place, ha, -⟩
  · rw [(ofText_eq_error_iff hts).mpr (.overlong hlong)] at hp
    cases hp
  · rw [(ofText_eq_error_iff hts).mpr (.overlong hlong)] at ha
    cases ha

end Program

end LetterMachine
