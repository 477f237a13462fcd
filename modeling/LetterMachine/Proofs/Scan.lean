import LetterMachine.Proofs.Numeral

/-!
# Scanning token by token

How a scan goes on at a gap, at a comment and at a run of characters that is a word or a number.
Every token that a scan yields is a run of the kind that it is said to be.
-/

namespace LetterMachine.Token

open LetterMachine.Text

theorem isBlank_of_isGap {c : Char} (h : isGap c) : isBlank c := by
  unfold isGap at h
  simp only [Bool.or_eq_true, beq_iff_eq] at h
  rcases h with (((rfl | rfl) | rfl) | rfl) | rfl <;> decide

theorem isInside_iff {c : Char} :
    isInside c ↔ isBlank c = false ∧ isGap c = false ∧ opensComment c = false := by
  unfold isInside
  simp only [Bool.and_eq_true, Bool.not_eq_true']
  constructor
  -- every gap is a blank, so what is no blank is no gap
  · rintro ⟨hblank, hcomment⟩
    refine ⟨hblank, ?_, hcomment⟩
    by_contra hgap
    rw [isBlank_of_isGap (by simpa using hgap)] at hblank
    exact absurd hblank (by decide)
  · exact fun h => ⟨h.1, h.2.2⟩

theorem not_isBlank_of_opensComment {c : Char} (h : opensComment c) : isBlank c = false := by
  unfold opensComment at h
  rcases Bool.or_eq_true_iff.mp h with h | h <;> rw [beq_iff_eq.mp h] <;> decide

theorem not_isGap_of_opensComment {c : Char} (h : opensComment c) : isGap c = false := by
  by_contra hgap
  have hblank : isBlank c := isBlank_of_isGap (by simpa using hgap)
  rw [not_isBlank_of_opensComment h] at hblank
  cases hblank

theorem isInside_of_isDecimal {c : Char} (h : isDecimal c) : isInside c := by
  unfold isInside
  rw [not_isBlank_of_isDecimal h, not_opensComment_of_isDecimal h]
  rfl

theorem isInside_of_isSign {c : Char} (h : isSign c) : isInside c := by
  unfold isSign at h
  rcases Bool.or_eq_true_iff.mp h with h | h <;> rw [beq_iff_eq.mp h] <;> decide

theorem isNumber_cons (c : Char) (rest : List Char) :
    isNumber (c :: rest) =
      if isSign c then !rest.isEmpty && rest.all isDecimal else (c :: rest).all isDecimal := rfl

/-- The characters of a number, of which the first opens it. -/
theorem of_isNumber {cs : List Char} (h : isNumber cs) :
    ∃ c rest, cs = c :: rest ∧ opensNumber c ∧ ∀ d ∈ cs, isInside d := by
  cases cs with
  | nil => exact absurd h (by decide)
  | cons c rest =>
    rw [isNumber_cons] at h
    refine ⟨c, rest, rfl, ?_, ?_⟩
    · unfold opensNumber
      by_cases hc : isSign c
      · rw [hc, Bool.true_or]
      · rw [if_neg hc, List.all_eq_true] at h
        rw [h c List.mem_cons_self, Bool.or_true]
    · intro d hd
      by_cases hc : isSign c
      · rw [if_pos hc, Bool.and_eq_true, List.all_eq_true] at h
        rcases List.mem_cons.mp hd with rfl | hd
        · exact isInside_of_isSign hc
        · exact isInside_of_isDecimal (h.2 d hd)
      · rw [if_neg hc, List.all_eq_true] at h
        exact isInside_of_isDecimal (h d hd)

/-! ## One piece of text -/

theorem scan_nil (p : Place) : scan p [] = ⟨[], none⟩ := by rw [scan]

theorem scan_gap (p : Place) {c : Char} (h : isGap c) (rest : List Char) :
    scan p (c :: rest) = scan (p.next c) rest := by
  rw [scan, if_pos h]

theorem scan_gaps (p : Place) {gaps : List Char} (h : ∀ c ∈ gaps, isGap c) (rest : List Char) :
    scan p (gaps ++ rest) = scan (p.after gaps) rest := by
  induction gaps generalizing p with
  | nil => rfl
  | cons c gaps ih =>
    obtain ⟨hc, hgaps⟩ := List.forall_mem_cons.mp h
    rw [List.cons_append, scan_gap p hc, ih _ hgaps]
    rfl

theorem scan_comment (p : Place) {c : Char} (h : opensComment c) (rest : List Char) :
    scan p (c :: rest) =
      scan (p.after (c :: rest.takeWhile (· != '\n'))) (rest.dropWhile (· != '\n')) := by
  rw [scan, if_neg (by rw [not_isGap_of_opensComment h]; decide), if_pos h]
  rfl

section

variable {set : Char → Bool} {run rest : List Char} (hrun : ∀ c ∈ run, set c)
  (hrest : rest.takeWhile set = [])
include hrun hrest

/-- A run ends where the text ends or a character follows that is not in the set. -/
theorem takeWhile_run : (run ++ rest).takeWhile set = run := by
  rw [List.takeWhile_append_of_pos hrun, hrest, List.append_nil]

theorem dropWhile_run : (run ++ rest).dropWhile set = rest := by
  rw [List.dropWhile_append_of_pos hrun]
  have hsplit := List.takeWhile_append_dropWhile (p := set) (l := rest)
  rwa [hrest, List.nil_append] at hsplit

end

theorem takeWhile_dropWhile (set : Char → Bool) (cs : List Char) :
    (cs.dropWhile set).takeWhile set = [] := by
  induction cs with
  | nil => rfl
  | cons c cs ih =>
    by_cases hc : set c
    · rw [List.dropWhile_cons_of_pos hc, ih]
    · rw [List.dropWhile_cons_of_neg hc, List.takeWhile_cons_of_neg hc]

theorem forall_mem_cons_takeWhile {set : Char → Bool} {c : Char} (hc : set c) (cs : List Char) :
    ∀ d ∈ c :: cs.takeWhile set, set d :=
  List.forall_mem_cons.mpr ⟨hc, fun _ hd => List.mem_takeWhile_imp hd⟩

theorem scan_run (p : Place) {c : Char} {run rest : List Char}
    (hrun : ∀ d ∈ c :: run, isInside d) (hrest : rest.takeWhile isInside = []) :
    scan p (c :: run ++ rest) =
      if !opensNumber c then
        (scan (p.after (c :: run)) rest).behind ⟨.word, String.ofList (c :: run), some p⟩
      else if isNumber (c :: run) then
        (scan (p.after (c :: run)) rest).behind ⟨.number, String.ofList (c :: run), some p⟩
      else ⟨[], some (c :: run, p)⟩ := by
  obtain ⟨hblank, hgap, hcomment⟩ := isInside_iff.mp (hrun c List.mem_cons_self)
  have htail : ∀ d ∈ run, isInside d := fun d hd => hrun d (List.mem_cons_of_mem c hd)
  rw [List.cons_append, scan]
  simp only [hgap, hcomment, hblank, Bool.false_eq_true, if_false, takeWhile_run htail hrest,
    dropWhile_run htail hrest]

theorem scan_word (p : Place) {c : Char} {run rest : List Char}
    (hrun : ∀ d ∈ c :: run, isInside d) (hc : opensNumber c = false)
    (hrest : rest.takeWhile isInside = []) :
    scan p (c :: run ++ rest) =
      (scan (p.after (c :: run)) rest).behind ⟨.word, String.ofList (c :: run), some p⟩ := by
  rw [scan_run p hrun hrest, hc]
  rfl

theorem scan_number (p : Place) {cs rest : List Char} (hcs : isNumber cs)
    (hrest : rest.takeWhile isInside = []) :
    scan p (cs ++ rest) =
      (scan (p.after cs) rest).behind ⟨.number, String.ofList cs, some p⟩ := by
  obtain ⟨c, run, rfl, hc, hrun⟩ := of_isNumber hcs
  rw [scan_run p hrun hrest, hc, if_neg (by decide), if_pos hcs]

/-! ## The tokens of a scan -/

theorem isNumber_of_mem_scan {p : Place} {cs : List Char} {t : Token}
    (h : t ∈ (scan p cs).tokens) (ht : t.kind = .number) : isNumber t.text.toList := by
  -- along the scan: only the case of a number adds a token of that kind
  fun_induction scan p cs with
  | case1 => cases h
  | case2 p c rest hgap ih => exact ih h
  | case3 p c rest hgap hcomment ih => exact ih h
  | case4 => cases h
  | case5 p c rest hgap hcomment hblank run hword ih =>
    rcases List.mem_cons.mp h with rfl | h
    · cases ht
    · exact ih h
  | case6 p c rest hgap hcomment hblank run hword hnumber ih =>
    rcases List.mem_cons.mp h with rfl | h
    · rw [String.toList_ofList]
      exact hnumber
    · exact ih h
  | case7 => cases h

theorem isNumber_of_mem_ofText {s : String} {ts : List Token} (hts : ofText s = .ok ts) {t : Token}
    (h : t ∈ ts) (ht : t.kind = .number) : isNumber t.text.toList := by
  unfold ofText at hts
  split at hts
  · next tokens heq =>
    obtain rfl := Except.ok.inj hts
    have hmem : t ∈ (scan Place.start s.toList).tokens := by
      rw [heq]
      exact h
    exact isNumber_of_mem_scan hmem ht
  · cases hts

/-- A number of a text has a value unless it has too many digits. -/
theorem exists_value {s : String} {ts : List Token} (hts : ofText s = .ok ts) {t : Token}
    (h : t ∈ ts) (ht : t.kind = .number)
    (hdigits : t.text.toList.countP isDecimal ≤ Numeral.digitLimit) : ∃ n, t.value = .ok n := by
  obtain ⟨n, hn⟩ := Numeral.exists_read_of_isNumber (isNumber_of_mem_ofText hts h ht) hdigits
  refine ⟨n, ?_⟩
  unfold value
  rw [hn]
  rfl

theorem value_of_long {t : Token} (h : isNumber t.text.toList)
    (hlong : Numeral.digitLimit < t.text.toList.countP isDecimal) :
    t.value = .error (.numeral (.tooManyDigits (t.text.toList.countP isDecimal))) := by
  unfold value
  rw [Numeral.read_of_isNumber_of_long h hlong]
  rfl

/-- A number has a value, or more digits than are read. -/
theorem value_cases {t : Token} (h : isNumber t.text.toList) :
    (∃ n, t.value = .ok n) ∨ Numeral.digitLimit < t.text.toList.countP isDecimal := by
  by_cases hlong : Numeral.digitLimit < t.text.toList.countP isDecimal
  · exact .inr hlong
  · obtain ⟨n, hn⟩ := Numeral.exists_read_of_isNumber h (Nat.le_of_not_lt hlong)
    unfold value
    rw [hn]
    exact .inl ⟨n, rfl⟩

end LetterMachine.Token
