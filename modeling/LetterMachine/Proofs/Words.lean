import LetterMachine.Word

/-!
# The language of words

A word is a Latin name of an opcode, perhaps closed by a suffix, or a row of Hebrew letters, each
perhaps with a vowel mark, of which a last one without a mark may be closed by a suffix.  The
language is given letter by letter, and decoding a word finds exactly what it means there.
-/

namespace LetterMachine

namespace Opcode

/-- A letter stands for an opcode: the letter of the alphabet that the opcode numbers, or the final
form of that letter. -/
def WrittenBy (op : Opcode) (c : Char) : Prop :=
  alphabet[op.number]? = some c ∨
    ∃ form ∈ finalForms, form.1 = c ∧ alphabet[op.number]? = some form.2

instance (op : Opcode) (c : Char) : Decidable (op.WrittenBy c) :=
  inferInstanceAs (Decidable (_ ∨ _))

/-- The Latin names, in capitals. -/
inductive Named : Opcode → String → Prop
  | own (op : Opcode) : Named op op.name
  | aleph : Named .alef "ALEPH"
  | he : Named .hei "HE"
  | sovev : Named .sovav "SOVEV"

theorem mem_letters_of_ofLetter? {c : Char} {op : Opcode} (h : ofLetter? c = some op) :
    (c, op) ∈ ofLetter?.letters := by
  obtain ⟨before, behind, hsplit, -⟩ := List.lookup_eq_some_iff.mp h
  rw [hsplit]
  exact List.mem_append_right before List.mem_cons_self

theorem ofLetter?_eq_some_iff {c : Char} {op : Opcode} :
    ofLetter? c = some op ↔ op.WrittenBy c := by
  constructor
  · intro h
    have hall : ofLetter?.letters.all fun unit => unit.2.WrittenBy unit.1 := by decide
    exact of_decide_eq_true (List.all_eq_true.mp hall _ (mem_letters_of_ofLetter? h))
  · have hplain : alphabet[op.number]?.all fun letter => ofLetter? letter = some op := by
      cases op <;> decide
    have hfinal : ∀ form ∈ finalForms, alphabet[op.number]? = some form.2 →
        ofLetter? form.1 = some op := by
      cases op <;> decide
    rintro (h | ⟨form, hform, rfl, hletter⟩)
    · rw [h] at hplain
      exact of_decide_eq_true hplain
    · exact hfinal form hform hletter

/-- What a check over the letters confirms holds of every letter that stands for an opcode. -/
theorem WrittenBy.of_letters {P : Char → Bool} (hP : ofLetter?.letters.all fun unit => P unit.1)
    {op : Opcode} {c : Char} (h : op.WrittenBy c) : P c :=
  List.all_eq_true.mp hP _ (mem_letters_of_ofLetter? (ofLetter?_eq_some_iff.mpr h))

theorem mem_names_of_ofName? {name : String} {op : Opcode} (h : ofName? name = some op) :
    (name, op) ∈ names := by
  obtain ⟨before, behind, hsplit, -⟩ := List.lookup_eq_some_iff.mp h
  rw [hsplit]
  exact List.mem_append_right before List.mem_cons_self

theorem ofName?_eq_some_iff {name : String} {op : Opcode} :
    ofName? name = some op ↔ op.Named name := by
  constructor
  · intro h
    rcases List.mem_append.mp (mem_names_of_ofName? h) with hown | hfurther
    · obtain ⟨op', -, heq⟩ := List.mem_map.mp hown
      obtain ⟨rfl, rfl⟩ := Prod.mk.inj heq
      exact .own op'
    · simp only [List.mem_cons, List.not_mem_nil, or_false, Prod.mk.injEq] at hfurther
      rcases hfurther with ⟨rfl, rfl⟩ | ⟨rfl, rfl⟩ | ⟨rfl, rfl⟩
      · exact .aleph
      · exact .he
      · exact .sovev
  · rintro (op | _ | _ | _)
    · cases op <;> decide
    · decide
    · decide
    · decide

/-- What a check over the names confirms holds of every name of an opcode. -/
theorem Named.of_names {P : String → Bool} (hP : names.all fun entry => P entry.1) {op : Opcode}
    {name : String} (h : op.Named name) : P name :=
  List.all_eq_true.mp hP _ (mem_names_of_ofName? (ofName?_eq_some_iff.mpr h))

end Opcode

namespace Mode

/-- The vowel marks. -/
inductive Marked : Char → Mode → Prop
  | sheva : Marked '\u05b0' .query
  | hiriq : Marked '\u05b4' .immediate

/-- The suffixes. -/
inductive Closes : Char → Mode → Prop
  | query : Closes '?' .query
  | immediate : Closes '!' .immediate

theorem ofMark?_eq_some_iff {c : Char} {mode : Mode} : ofMark? c = some mode ↔ Marked c mode := by
  constructor
  · intro h
    unfold ofMark? at h
    split at h
    · next hc =>
      obtain rfl := Option.some.inj h
      exact hc ▸ .sheva
    · split at h
      · next hc =>
        obtain rfl := Option.some.inj h
        exact hc ▸ .hiriq
      · cases h
  · rintro (_ | _) <;> rfl

theorem ofSuffix?_eq_some_iff {c : Char} {mode : Mode} :
    ofSuffix? c = some mode ↔ Closes c mode := by
  constructor
  · intro h
    unfold ofSuffix? at h
    split at h
    · next hc =>
      obtain rfl := Option.some.inj h
      exact hc ▸ .query
    · split at h
      · next hc =>
        obtain rfl := Option.some.inj h
        exact hc ▸ .immediate
      · cases h
  · rintro (_ | _) <;> rfl

end Mode

namespace Word

/-! ## The language -/

/-- Letters in a row, each with its mark if it has one, and what they mean. -/
inductive Row : List Char → Meaning → Prop
  | nil : Row [] []
  | bare {c : Char} {op : Opcode} {rest : List Char} {m : Meaning} (letter : op.WrittenBy c)
      (others : Row rest m) : Row (c :: rest) ((op, .plain) :: m)
  | marked {c mark : Char} {op : Opcode} {mode : Mode} {rest : List Char} {m : Meaning}
      (letter : op.WrittenBy c) (marked : Mode.Marked mark mode) (others : Row rest m) :
      Row (c :: mark :: rest) ((op, mode) :: m)

/-- A row of letters, at least one, of which a last one without a mark may be closed by a suffix. -/
inductive Letters : List Char → Meaning → Prop
  | bare {cs : List Char} {m : Meaning} (row : Row cs m) (ne_nil : m ≠ []) : Letters cs m
  | closed {cs : List Char} {suffix : Char} {m : Meaning} {op : Opcode} {mode : Mode}
      (row : Row cs (m ++ [(op, .plain)])) (closes : Mode.Closes suffix mode) :
      Letters (cs ++ [suffix]) (m ++ [(op, mode)])

/-- A Latin name in small or capital letters. -/
structure IsLatin (name : List Char) (op : Opcode) : Prop where
  ascii : ∀ c ∈ name, c.toNat < 128
  named : op.Named (String.ofList (name.map Char.toUpper))

/-- The letters of the composite round, of which only the last may have a mode. -/
def roundLetters (mode : Mode) : Meaning :=
  [(.samekh, .plain), (.bet, .plain), (.bet, mode)]

/-- The words, with what they mean. -/
inductive Means : List Char → Meaning → Prop
  | latin {name : List Char} {op : Opcode} (latin : IsLatin name op) : Means name [(op, .plain)]
  | latinClosed {name : List Char} {op : Opcode} {suffix : Char} {mode : Mode}
      (latin : IsLatin name op) (closes : Mode.Closes suffix mode) :
      Means (name ++ [suffix]) [(op, mode)]
  | letters {cs : List Char} {m : Meaning} (letters : Letters cs m)
      (other : ∀ mode, m ≠ roundLetters mode) : Means cs m
  | round {cs : List Char} {mode : Mode} (letters : Letters cs (roundLetters mode)) :
      Means cs [(.sovav, mode)]

/-! ## Suffixes -/

theorem splitSuffix_concat {cs : List Char} {suffix : Char} {mode : Mode}
    (h : Mode.Closes suffix mode) (hne : cs ≠ []) :
    splitSuffix (cs ++ [suffix]) = (cs, mode) := by
  have hlength : (cs ++ [suffix]).length > 1 := by
    have := List.length_pos_iff.mpr hne
    rw [List.length_append, List.length_singleton]
    omega
  have hlast : (cs ++ [suffix]).getLast?.bind Mode.ofSuffix? = some mode := by
    rw [List.getLast?_concat]
    exact Mode.ofSuffix?_eq_some_iff.mpr h
  unfold splitSuffix
  simp only [hlast, if_pos hlength, List.dropLast_concat]

theorem splitSuffix_of_not_closes {cs : List Char} (h : ∀ c ∈ cs, ∀ mode, ¬ Mode.Closes c mode) :
    splitSuffix cs = (cs, .plain) := by
  have hlast : cs.getLast?.bind Mode.ofSuffix? = none := by
    refine Option.bind_eq_none_iff.mpr fun c hc => Option.eq_none_iff_forall_ne_some.mpr ?_
    exact fun mode hmode =>
      h c (List.mem_of_getLast? hc) mode (Mode.ofSuffix?_eq_some_iff.mp hmode)
  unfold splitSuffix
  simp only [hlast]

/-- A word is cut in front of its suffix, or is left whole. -/
theorem splitSuffix_cases (cs : List Char) :
    splitSuffix cs = (cs, .plain) ∨
      ∃ body suffix mode, cs = body ++ [suffix] ∧ Mode.Closes suffix mode ∧
        splitSuffix cs = (body, mode) := by
  rcases List.eq_nil_or_concat cs with rfl | ⟨body, c, rfl⟩
  · exact .inl rfl
  · rw [List.concat_eq_append]
    cases hmode : Mode.ofSuffix? c with
    | none =>
      refine .inl ?_
      unfold splitSuffix
      simp only [List.getLast?_concat, Option.bind_some, hmode]
    | some mode =>
      have hcloses := Mode.ofSuffix?_eq_some_iff.mp hmode
      by_cases hbody : body = []
      · subst hbody
        refine .inl ?_
        unfold splitSuffix
        simp [hmode]
      · exact .inr ⟨body, c, mode, rfl, hcloses, splitSuffix_concat hcloses hbody⟩

/-! ## Latin names -/

theorem latin?_eq_some_iff {cs : List Char} {op : Opcode} :
    latin? cs = some op ↔ IsLatin cs op := by
  unfold latin?
  constructor
  · intro h
    split at h
    · next hascii =>
      exact ⟨fun c hc => of_decide_eq_true (List.all_eq_true.mp hascii c hc),
        Opcode.ofName?_eq_some_iff.mp h⟩
    · cases h
  · rintro ⟨hascii, hnamed⟩
    rw [if_pos (List.all_eq_true.mpr fun c hc => decide_eq_true (hascii c hc))]
    exact Opcode.ofName?_eq_some_iff.mpr hnamed

theorem IsLatin.ne_nil {name : List Char} {op : Opcode} (h : IsLatin name op) : name ≠ [] := by
  rintro rfl
  have hname := h.named.of_names (P := fun name => name != "") (by decide)
  exact absurd hname (by decide)

/-- No letter of a Latin name is a suffix: its capital is in the name. -/
theorem IsLatin.not_closes {name : List Char} {op : Opcode} (h : IsLatin name op) :
    ∀ c ∈ name, ∀ mode, ¬ Mode.Closes c mode := by
  intro c hc mode hcloses
  have hall := h.named.of_names (P := fun name => name.toList.all fun c => c != '?' && c != '!')
    (by decide)
  rw [String.toList_ofList, List.all_map] at hall
  have hcapital := List.all_eq_true.mp hall c hc
  cases hcloses <;> exact absurd hcapital (by decide)

/-! ## Letters -/

theorem not_marked_of_writtenBy {op : Opcode} {c : Char} (h : op.WrittenBy c) :
    Mode.ofMark? c = none :=
  Option.isNone_iff_eq_none.mp (h.of_letters (P := fun c => (Mode.ofMark? c).isNone) (by decide))

theorem Row.not_closes {cs : List Char} {m : Meaning} (h : Row cs m) :
    ∀ c ∈ cs, ∀ mode, ¬ Mode.Closes c mode := by
  have hletter : ∀ {op : Opcode} {c : Char}, op.WrittenBy c → ∀ mode, ¬ Mode.Closes c mode := by
    intro op c hc mode hcloses
    have hnone := hc.of_letters (P := fun c => (Mode.ofSuffix? c).isNone) (by decide)
    rw [Mode.ofSuffix?_eq_some_iff.mpr hcloses] at hnone
    cases hnone
  induction h with
  | nil => exact fun c hc => by cases hc
  | bare letter _ ih => exact List.forall_mem_cons.mpr ⟨hletter letter, ih⟩
  | marked letter marked _ ih =>
    refine List.forall_mem_cons.mpr ⟨hletter letter, List.forall_mem_cons.mpr ⟨?_, ih⟩⟩
    intro mode hcloses
    cases marked <;> cases hcloses

theorem letters?_eq_some_iff {cs : List Char} {m : Meaning} : letters? cs = some m ↔ Row cs m := by
  constructor
  · intro h
    fun_induction letters? cs generalizing m with
    | case1 =>
      obtain rfl := Option.some.inj h
      exact .nil
    | case2 c =>
      obtain ⟨op, hop, rfl⟩ := Option.map_eq_some_iff.mp h
      exact .bare (Opcode.ofLetter?_eq_some_iff.mp hop) .nil
    | case3 => cases h
    | case4 c mark rest op mode hmode hop ih =>
      obtain ⟨m', hm', rfl⟩ := Option.map_eq_some_iff.mp h
      exact .marked (Opcode.ofLetter?_eq_some_iff.mp hop) (Mode.ofMark?_eq_some_iff.mp hmode)
        (ih hm')
    | case5 c mark rest op hmode hop ih =>
      obtain ⟨m', hm', rfl⟩ := Option.map_eq_some_iff.mp h
      exact .bare (Opcode.ofLetter?_eq_some_iff.mp hop) (ih hm')
  · intro h
    induction h with
    | nil => rfl
    | @bare c op rest m letter others ih =>
      have hop := Opcode.ofLetter?_eq_some_iff.mpr letter
      -- what follows a letter without a mark is nothing or another letter
      cases others with
      | nil =>
        rw [letters?, hop]
        rfl
      | bare next | marked next =>
        rw [letters?, hop, not_marked_of_writtenBy next]
        dsimp only
        rw [ih]
        rfl
    | marked letter marked _ ih =>
      rw [letters?, Opcode.ofLetter?_eq_some_iff.mpr letter, Mode.ofMark?_eq_some_iff.mpr marked]
      dsimp only
      rw [ih]
      rfl

theorem Row.exists_cons {cs : List Char} {m : Meaning} (h : Row cs m) (hm : m ≠ []) :
    ∃ c rest op, cs = c :: rest ∧ Opcode.WrittenBy op c := by
  cases h with
  | nil => exact absurd rfl hm
  | bare letter => exact ⟨_, _, _, rfl, letter⟩
  | marked letter => exact ⟨_, _, _, rfl, letter⟩

/-- Letters are no Latin letters. -/
theorem latin?_of_row {cs : List Char} {m : Meaning} (h : Row cs m) : latin? cs = none := by
  have hfirst : ∀ {op : Opcode} {c : Char} (rest : List Char), op.WrittenBy c →
      latin? (c :: rest) = none := by
    intro op c rest hc
    have hforeign := hc.of_letters (P := fun c => !decide (c.toNat < 128)) (by decide)
    unfold latin?
    rw [List.all_cons, if_neg (by simpa using fun hascii => absurd hascii (by simpa using hforeign))]
  cases h with
  | nil => decide
  | bare letter => exact hfirst _ letter
  | marked letter => exact hfirst _ letter

/-! ## The mode of the last letter -/

theorem close?_concat (suffix : Mode) (m : Meaning) (op : Opcode) (mode : Mode) :
    close? suffix (m ++ [(op, mode)]) = (close? suffix [(op, mode)]).map (m ++ ·) := by
  induction m with
  | nil => simp
  | cons unit m ih =>
    have hstep : close? suffix (unit :: (m ++ [(op, mode)])) =
        (close? suffix (m ++ [(op, mode)])).map (unit :: ·) := by
      obtain ⟨next, rest, hrest⟩ := List.exists_cons_of_ne_nil (List.concat_ne_nil (op, mode) m)
      rw [hrest]
      rfl
    rw [List.cons_append, hstep, ih, Option.map_map]
    rfl

theorem close?_plain {m : Meaning} (h : m ≠ []) : close? .plain m = some m := by
  rcases List.eq_nil_or_concat m with rfl | ⟨front, ⟨op, mode⟩, rfl⟩
  · exact absurd rfl h
  · rw [List.concat_eq_append, close?_concat]
    rfl

theorem close?_closes {suffix : Char} {mode : Mode} (h : Mode.Closes suffix mode) (m : Meaning)
    (op : Opcode) : close? mode (m ++ [(op, .plain)]) = some (m ++ [(op, mode)]) := by
  rw [close?_concat]
  cases h <;> rfl

/-- A suffix closes only a last letter that has no mark. -/
theorem exists_of_close? {suffix : Char} {mode : Mode} (h : Mode.Closes suffix mode)
    {m m' : Meaning} (hclose : close? mode m = some m') :
    ∃ front op, m = front ++ [(op, .plain)] ∧ m' = front ++ [(op, mode)] := by
  rcases List.eq_nil_or_concat m with rfl | ⟨front, ⟨op, own⟩, rfl⟩
  · cases hclose
  · rw [List.concat_eq_append, close?_concat] at hclose
    obtain ⟨last, hlast, rfl⟩ := Option.map_eq_some_iff.mp hclose
    rw [List.concat_eq_append]
    unfold close? at hlast
    cases h <;> cases own <;> cases hlast <;> exact ⟨front, op, rfl, rfl⟩

/-! ## The composite round -/

theorem contract_of_ne {m : Meaning} (h : ∀ mode, m ≠ roundLetters mode) : contract m = m := by
  unfold contract
  split
  · next mode => exact absurd rfl (h mode)
  · rfl

/-- Letters with what they mean are a word with the meaning that is left when the round is read. -/
theorem Letters.means {cs : List Char} {m : Meaning} (h : Letters cs m) : Means cs (contract m) := by
  by_cases hround : ∃ mode, m = roundLetters mode
  · obtain ⟨mode, rfl⟩ := hround
    exact .round h
  · have hother : ∀ mode, m ≠ roundLetters mode := fun mode hm => hround ⟨mode, hm⟩
    rw [contract_of_ne hother]
    exact .letters h hother

/-! ## Words -/

theorem Letters.meaning? {cs : List Char} {m : Meaning} (h : Letters cs m) :
    meaning? cs = some (contract m) := by
  cases h with
  | bare row ne_nil =>
    unfold Word.meaning?
    rw [splitSuffix_of_not_closes row.not_closes]
    dsimp only
    rw [latin?_of_row row, letters?_eq_some_iff.mpr row]
    dsimp only
    rw [Option.bind_some, close?_plain ne_nil]
    rfl
  | @closed cs suffix m op mode row closes =>
    have hne : cs ≠ [] := by
      obtain ⟨c, rest, -, rfl, -⟩ := row.exists_cons (List.concat_ne_nil _ _)
      exact List.cons_ne_nil c rest
    unfold Word.meaning?
    rw [splitSuffix_concat closes hne]
    dsimp only
    rw [latin?_of_row row, letters?_eq_some_iff.mpr row]
    dsimp only
    rw [Option.bind_some, close?_closes closes]
    rfl

theorem meaning?_of_means {cs : List Char} {m : Meaning} (h : Means cs m) :
    meaning? cs = some m := by
  cases h with
  | latin latin =>
    unfold meaning?
    rw [splitSuffix_of_not_closes latin.not_closes]
    dsimp only
    rw [latin?_eq_some_iff.mpr latin]
  | latinClosed latin closes =>
    unfold meaning?
    rw [splitSuffix_concat closes latin.ne_nil]
    dsimp only
    rw [latin?_eq_some_iff.mpr latin]
  | letters letters other => rw [letters.meaning?, contract_of_ne other]
  | round letters => exact letters.meaning?

theorem means_of_meaning? {cs : List Char} {m : Meaning} (h : meaning? cs = some m) :
    Means cs m := by
  unfold meaning? at h
  rcases splitSuffix_cases cs with hsplit | ⟨body, suffix, mode, rfl, hcloses, hsplit⟩
  · rw [hsplit] at h
    dsimp only at h
    cases hlatin : latin? cs with
    | some op =>
      rw [hlatin] at h
      obtain rfl := Option.some.inj h
      exact .latin (latin?_eq_some_iff.mp hlatin)
    | none =>
      rw [hlatin] at h
      obtain ⟨m', hm', rfl⟩ := Option.map_eq_some_iff.mp h
      obtain ⟨letters, hletters, hclose⟩ := Option.bind_eq_some_iff.mp hm'
      have hne : letters ≠ [] := by
        rintro rfl
        cases hclose
      rw [close?_plain hne] at hclose
      obtain rfl := Option.some.inj hclose
      exact (Letters.bare (letters?_eq_some_iff.mp hletters) hne).means
  · rw [hsplit] at h
    dsimp only at h
    cases hlatin : latin? body with
    | some op =>
      rw [hlatin] at h
      obtain rfl := Option.some.inj h
      exact .latinClosed (latin?_eq_some_iff.mp hlatin) hcloses
    | none =>
      rw [hlatin] at h
      obtain ⟨m', hm', rfl⟩ := Option.map_eq_some_iff.mp h
      obtain ⟨letters, hletters, hclose⟩ := Option.bind_eq_some_iff.mp hm'
      obtain ⟨front, op, rfl, rfl⟩ := exists_of_close? hcloses hclose
      exact (Letters.closed (letters?_eq_some_iff.mp hletters) hcloses).means

theorem IsLatin.exists_cons {name : List Char} {op : Opcode} (h : IsLatin name op) :
    ∃ c rest, name = c :: rest ∧ c.isAlpha := by
  obtain ⟨c, rest, rfl⟩ := List.exists_cons_of_ne_nil h.ne_nil
  refine ⟨c, rest, rfl, ?_⟩
  have hall := h.named.of_names (P := fun name => name.toList.all Char.isUpper) (by decide)
  rw [String.toList_ofList, List.all_map] at hall
  have hcapital : c.toUpper.isUpper := List.all_eq_true.mp hall c List.mem_cons_self
  -- a check over the ASCII letters
  have hascii : ∀ n < 128, (Char.ofNat n).toUpper.isUpper → (Char.ofNat n).isAlpha := by decide
  have hc := hascii c.toNat (h.ascii c List.mem_cons_self)
  rw [Char.ofNat_toNat] at hc
  exact hc hcapital

/-- A word begins with a letter, Hebrew or Latin. -/
theorem Means.exists_cons {cs : List Char} {m : Meaning} (h : Means cs m) :
    ∃ c rest, cs = c :: rest ∧ ((∃ op, Opcode.WrittenBy op c) ∨ c.isAlpha) := by
  have hletters : ∀ {m : Meaning}, Letters cs m →
      ∃ c rest, cs = c :: rest ∧ ((∃ op, Opcode.WrittenBy op c) ∨ c.isAlpha) := by
    rintro m (⟨row, ne_nil⟩ | ⟨row, -⟩)
    · obtain ⟨c, rest, op, rfl, letter⟩ := row.exists_cons ne_nil
      exact ⟨c, rest, rfl, .inl ⟨op, letter⟩⟩
    · obtain ⟨c, rest, op, rfl, letter⟩ := row.exists_cons (List.concat_ne_nil _ _)
      exact ⟨c, _, rfl, .inl ⟨op, letter⟩⟩
  cases h with
  | latin latin =>
    obtain ⟨c, rest, rfl, hc⟩ := latin.exists_cons
    exact ⟨c, rest, rfl, .inr hc⟩
  | latinClosed latin =>
    obtain ⟨c, rest, rfl, hc⟩ := latin.exists_cons
    exact ⟨c, _, rfl, .inr hc⟩
  | letters letters => exact hletters letters
  | round letters => exact hletters letters

/-- Every text is decoded to what it means in the language of words, and a text that is no word of
the language is decoded to nothing. -/
theorem meaning?_eq_some_iff_means (s : String) :
    (∀ m, meaning? s.toList = some m ↔ Means s.toList m) ∧
      (meaning? s.toList = none ↔ ∀ m, ¬ Means s.toList m) := by
  have hsome : ∀ m, meaning? s.toList = some m ↔ Means s.toList m := fun m =>
    ⟨means_of_meaning?, meaning?_of_means⟩
  refine ⟨hsome, ?_⟩
  rw [Option.eq_none_iff_forall_ne_some]
  exact forall_congr' fun m => not_congr (hsome m)

example : meaning? "סבְב".toList = some [(.samekh, .plain), (.bet, .query), (.bet, .plain)] := by
  decide

end Word

end LetterMachine
