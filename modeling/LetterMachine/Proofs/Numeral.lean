import LetterMachine.Token
import Mathlib.Data.List.TakeWhile
import Mathlib.Tactic.Ring

/-!
# Numerals read back

A run of decimal digits behind a sign is a numeral: it is read unless it has too many digits, and
what is read can be written.  A number that is written is read back.
-/

namespace LetterMachine

open LetterMachine.Text

/-! ## Decimal digits -/

theorem exists_zero_of_isDecimal {c : Char} (h : isDecimal c) :
    ∃ z ∈ zeros, ∃ i < 10, c = Char.ofNat (z + i) := by
  unfold isDecimal digitValue? at h
  rw [Option.isSome_map, List.find?_isSome] at h
  obtain ⟨z, hz, hc⟩ := h
  simp only [Bool.and_eq_true, decide_eq_true_eq] at hc
  refine ⟨z, hz, c.toNat - z, by omega, ?_⟩
  rw [Nat.add_sub_cancel' hc.1, Char.ofNat_toNat]

/-- A property that a check over the digits of all scripts confirms holds of every decimal digit. -/
theorem of_isDecimal {P : Char → Prop} (hP : ∀ z ∈ zeros, ∀ i < 10, P (Char.ofNat (z + i)))
    {c : Char} (h : isDecimal c) : P c := by
  obtain ⟨z, hz, i, hi, rfl⟩ := exists_zero_of_isDecimal h
  exact hP z hz i hi

theorem not_isBlank_of_isDecimal {c : Char} (h : isDecimal c) : isBlank c = false :=
  of_isDecimal (P := fun c => isBlank c = false) (by decide) h

theorem ne_underscore_of_isDecimal {c : Char} (h : isDecimal c) : c ≠ '_' :=
  of_isDecimal (P := fun c => c ≠ '_') (by decide) h

theorem not_isSign_of_isDecimal {c : Char} (h : isDecimal c) : Token.isSign c = false :=
  of_isDecimal (P := fun c => Token.isSign c = false) (by decide) h

theorem not_opensComment_of_isDecimal {c : Char} (h : isDecimal c) :
    Token.opensComment c = false :=
  of_isDecimal (P := fun c => Token.opensComment c = false) (by decide) h

theorem digitValue?_lt {c : Char} {d : Nat} (h : digitValue? c = some d) : d < 10 := by
  unfold digitValue? at h
  obtain ⟨z, hz, rfl⟩ := Option.map_eq_some_iff.mp h
  have hc := List.find?_some hz
  simp only [Bool.and_eq_true, decide_eq_true_eq] at hc
  omega

namespace Numeral

/-! ## Reading -/

theorem wellGrouped_of_ne_underscore {cs : List Char} (h : ∀ c ∈ cs, c ≠ '_') :
    wellGrouped cs := by
  fun_induction wellGrouped cs with
  | case1 => rfl
  | case2 => exact absurd rfl (h '_' List.mem_cons_self)
  | case3 => exact absurd rfl (h '_' List.mem_cons_self)
  | case4 c rest _ _ ih => exact ih fun d hd => h d (List.mem_cons_of_mem c hd)

/-- Digits behind a sign, at least one, are read as their value unless they are too many. -/
theorem readChars_of_splitSign (literal : String) {cs ds : List Char} {negative : Bool}
    (hsplit : splitSign (cs.dropWhile isMargin) = (negative, ds)) (hne : ds ≠ [])
    (hds : ∀ d ∈ ds, isDecimal d) :
    readChars literal cs =
      if digitLimit < ds.length then .error (.tooManyDigits ds.length)
      else .ok (if negative then -(value ds : Int) else value ds) := by
  -- nothing but digits: the whole of `ds` is taken, and nothing stands behind it
  have htake : ds.takeWhile (fun c => isDecimal c || c == '_') = ds :=
    List.takeWhile_eq_self_iff.mpr fun d hd => by rw [hds d hd, Bool.true_or]
  have hdrop : ds.dropWhile (fun c => isDecimal c || c == '_') = [] :=
    List.dropWhile_eq_nil_iff.mpr fun d hd => by rw [hds d hd, Bool.true_or]
  have hcount : ds.countP isDecimal = ds.length := List.countP_eq_length.mpr hds
  have hgrouped : wellGrouped ds :=
    wellGrouped_of_ne_underscore fun d hd => ne_underscore_of_isDecimal (hds d hd)
  have hhead : (ds.head? == some '_') = false := by
    obtain ⟨d, rest, rfl⟩ := List.exists_cons_of_ne_nil hne
    have hd := ne_underscore_of_isDecimal (hds d List.mem_cons_self)
    simp [hd]
  have hpos : (ds.length == 0) = false := by simp [hne]
  unfold readChars
  rw [hsplit]
  simp only [htake, hdrop, hcount, hgrouped, hhead, hpos, Bool.not_true, Bool.or_false,
    Bool.false_eq_true, if_false, List.all_nil, gt_iff_lt]

theorem isMargin_eq_false {c : Char} (h : isBlank c = false) : isMargin c = false := by
  unfold isMargin
  rw [h, Bool.false_and]

theorem not_isBlank_of_isSign {c : Char} (h : Token.isSign c) : isBlank c = false := by
  unfold Token.isSign at h
  rcases Bool.or_eq_true_iff.mp h with h | h <;> rw [beq_iff_eq.mp h] <;> decide

theorem splitSign_of_isDecimal {c : Char} (h : isDecimal c) (cs : List Char) :
    splitSign (c :: cs) = (false, c :: cs) := by
  have hsign := not_isSign_of_isDecimal h
  unfold splitSign
  split
  · next heq =>
    obtain ⟨rfl, -⟩ := List.cons.inj heq
    exact absurd hsign (by decide)
  · next heq =>
    obtain ⟨rfl, -⟩ := List.cons.inj heq
    exact absurd hsign (by decide)
  · rfl

/-- A number token is made of a sign, which may be missing, and its digits. -/
theorem exists_splitSign_of_isNumber {cs : List Char} (h : Token.isNumber cs) :
    ∃ negative ds, splitSign (cs.dropWhile isMargin) = (negative, ds) ∧ ds ≠ [] ∧
      (∀ d ∈ ds, isDecimal d) ∧ ds.length = cs.countP isDecimal := by
  cases cs with
  | nil => exact absurd h (by decide)
  | cons c rest =>
    unfold Token.isNumber at h
    dsimp only at h
    by_cases hc : Token.isSign c
    · rw [if_pos hc, Bool.and_eq_true, List.all_eq_true] at h
      obtain ⟨hne, hrest⟩ := h
      have hmargin := isMargin_eq_false (not_isBlank_of_isSign hc)
      -- a sign is no digit, so the digits are those of the rest
      have hdigit : isDecimal c = false := by
        by_contra hd
        rw [not_isSign_of_isDecimal (by simpa using hd)] at hc
        exact absurd hc (by decide)
      have hcount : rest.length = (c :: rest).countP isDecimal := by
        rw [List.countP_cons_of_neg (by rw [hdigit]; decide), List.countP_eq_length.mpr hrest]
      rw [List.dropWhile_cons_of_neg (by rw [hmargin]; decide)]
      unfold Token.isSign at hc
      rcases Bool.or_eq_true_iff.mp hc with hc | hc
      · obtain rfl := beq_iff_eq.mp hc
        exact ⟨false, rest, rfl, by simpa using hne, hrest, hcount⟩
      · obtain rfl := beq_iff_eq.mp hc
        exact ⟨true, rest, rfl, by simpa using hne, hrest, hcount⟩
    · rw [if_neg hc, List.all_eq_true] at h
      have hd := h c List.mem_cons_self
      have hmargin := isMargin_eq_false (not_isBlank_of_isDecimal hd)
      rw [List.dropWhile_cons_of_neg (by rw [hmargin]; decide)]
      exact ⟨false, c :: rest, splitSign_of_isDecimal hd rest, by simp, h,
        (List.countP_eq_length.mpr h).symm⟩

theorem exists_read_of_isNumber {s : String} (h : Token.isNumber s.toList)
    (hdigits : s.toList.countP isDecimal ≤ digitLimit) : ∃ n, read s = .ok n := by
  obtain ⟨negative, ds, hsplit, hne, hds, hlength⟩ := exists_splitSign_of_isNumber h
  refine ⟨if negative then -(value ds : Int) else value ds, ?_⟩
  unfold read
  rw [readChars_of_splitSign s hsplit hne hds, if_neg (by omega)]

theorem read_of_isNumber_of_long {s : String} (h : Token.isNumber s.toList)
    (hlong : digitLimit < s.toList.countP isDecimal) :
    read s = .error (.tooManyDigits (s.toList.countP isDecimal)) := by
  obtain ⟨negative, ds, hsplit, hne, hds, hlength⟩ := exists_splitSign_of_isNumber h
  unfold read
  rw [readChars_of_splitSign s hsplit hne hds, hlength, if_pos hlong]

/-! ## What is read can be written -/

theorem foldl_digits_lt {ds : List Nat} (h : ∀ d ∈ ds, d < 10) (n : Nat) :
    ds.foldl (fun n d => 10 * n + d) n < (n + 1) * 10 ^ ds.length := by
  -- over the digits, with the number before them free: each multiplies the bound by ten
  induction ds generalizing n with
  | nil => simp
  | cons d ds ih =>
    have hd := h d List.mem_cons_self
    calc (d :: ds).foldl (fun n d => 10 * n + d) n
        = ds.foldl (fun n d => 10 * n + d) (10 * n + d) := rfl
      _ < (10 * n + d + 1) * 10 ^ ds.length := ih (fun e he => h e (List.mem_cons_of_mem d he)) _
      _ ≤ (10 * n + 10) * 10 ^ ds.length := Nat.mul_le_mul_right _ (by omega)
      _ = (n + 1) * 10 ^ (d :: ds).length := by rw [List.length_cons, Nat.pow_succ]; ring

theorem value_lt (cs : List Char) : value cs < 10 ^ cs.countP isDecimal := by
  have hdigits : ∀ d ∈ cs.filterMap digitValue?, d < 10 := by
    intro d hd
    obtain ⟨c, -, hc⟩ := List.mem_filterMap.mp hd
    exact digitValue?_lt hc
  have hlt := foldl_digits_lt hdigits 0
  have hlength : (cs.filterMap digitValue?).length = cs.countP isDecimal :=
    List.length_filterMap_eq_countP
  rw [hlength, Nat.zero_add, Nat.one_mul] at hlt
  exact hlt

theorem writable_iff {n : Int} : Writable n ↔ n.natAbs < 10 ^ digitLimit := by
  unfold Writable
  rw [Nat.pow_eq]

theorem writable_of_read {s : String} {n : Int} (h : read s = .ok n) : Writable n := by
  unfold read readChars at h
  dsimp only at h
  split at h
  · cases h
  · split at h
    · cases h
    · next hcount =>
      split at h
      · cases h
      · -- the number is the value of at most `digitLimit` digits, up to its sign
        have hlt := value_lt ((splitSign (s.toList.dropWhile isMargin)).2.takeWhile
          fun c => isDecimal c || c == '_')
        have hpow := Nat.pow_le_pow_right (n := 10) (by decide) (Nat.le_of_not_lt hcount)
        rw [writable_iff]
        split at h <;> cases h <;> omega

/-! ## What is written is read back -/

theorem digitValue?_of_isDigit {c : Char} (h : c.isDigit) :
    digitValue? c = some (c.toNat - '0'.toNat) := by
  unfold Char.isDigit at h
  simp only [Bool.and_eq_true, decide_eq_true_eq] at h
  have hlo : 48 ≤ c.toNat := h.1
  have hhi : c.toNat ≤ 57 := h.2
  have hzeros : zeros = '0'.toNat :: zeros.tail := rfl
  unfold digitValue?
  rw [hzeros, List.find?_cons_of_pos]
  · rfl
  · simp only [Bool.and_eq_true, decide_eq_true_eq]
    exact ⟨hlo, Nat.lt_succ_of_le hhi⟩

theorem isDecimal_of_isDigit {c : Char} (h : c.isDigit) : isDecimal c := by
  unfold isDecimal
  rw [digitValue?_of_isDigit h]
  rfl

theorem value_eq_ofDigitChars {cs : List Char} (h : ∀ c ∈ cs, c.isDigit) :
    value cs = Nat.ofDigitChars 10 cs 0 := by
  have hmap : cs.filterMap digitValue? = cs.map fun c => c.toNat - '0'.toNat := by
    induction cs with
    | nil => rfl
    | cons c cs ih =>
      have hc := digitValue?_of_isDigit (h c List.mem_cons_self)
      rw [List.filterMap_cons_some hc, ih fun d hd => h d (List.mem_cons_of_mem c hd)]
      rfl
  unfold value
  rw [hmap, List.foldl_map, Nat.ofDigitChars_eq_foldl]

theorem isDigit_of_mem_repr {n : Nat} : ∀ c ∈ n.repr.toList, c.isDigit := by
  rw [Nat.toList_repr]
  exact fun c hc => Nat.isDigit_of_mem_toDigits (by decide) (by decide) hc

theorem isDecimal_of_mem_repr {n : Nat} : ∀ c ∈ n.repr.toList, isDecimal c := fun c hc =>
  isDecimal_of_isDigit (isDigit_of_mem_repr c hc)

theorem exists_repr_eq_cons (n : Nat) : ∃ c rest, n.repr.toList = c :: rest := by
  apply List.exists_cons_of_ne_nil
  rw [Nat.toList_repr]
  exact Nat.toDigits_ne_nil

theorem value_repr (n : Nat) : value n.repr.toList = n := by
  rw [value_eq_ofDigitChars isDigit_of_mem_repr, Nat.toList_repr, Nat.ofDigitChars_ten_toDigits]

theorem length_repr_le {n : Nat} (h : n < 10 ^ digitLimit) : n.repr.toList.length ≤ digitLimit := by
  rw [Nat.toList_repr, Nat.length_toDigits_le_iff (by decide) (by decide)]
  exact h

theorem toList_text (n : Int) :
    (text n).toList = if n < 0 then '-' :: n.natAbs.repr.toList else n.natAbs.repr.toList := by
  unfold text
  split
  · rw [String.toList_append]
    rfl
  · rfl

theorem sign_not_mem_repr (n : Nat) : '-' ∉ n.repr.toList :=
  fun hmem => absurd (isDigit_of_mem_repr '-' hmem) (by decide)

theorem eq_of_toList_repr_eq {m n : Nat} (h : m.repr.toList = n.repr.toList) : m = n := by
  rw [← value_repr m, h, value_repr]

/-- A number is told by its written form, which begins with a sign iff the number is negative. -/
theorem text_injective : Function.Injective text := by
  intro m n h
  have hchars := congrArg String.toList h
  rw [toList_text, toList_text] at hchars
  by_cases hm : m < 0 <;> by_cases hn : n < 0
  · rw [if_pos hm, if_pos hn] at hchars
    have habs := eq_of_toList_repr_eq (List.cons.inj hchars).2
    omega
  · rw [if_pos hm, if_neg hn] at hchars
    exact absurd (hchars ▸ List.mem_cons_self) (sign_not_mem_repr n.natAbs)
  · rw [if_neg hm, if_pos hn] at hchars
    exact absurd (hchars ▸ List.mem_cons_self) (sign_not_mem_repr m.natAbs)
  · rw [if_neg hm, if_neg hn] at hchars
    have habs := eq_of_toList_repr_eq hchars
    omega

theorem isNumber_text (n : Int) : Token.isNumber (text n).toList := by
  have hall := isDecimal_of_mem_repr (n := n.natAbs)
  obtain ⟨c, rest, hcs⟩ := exists_repr_eq_cons n.natAbs
  rw [hcs] at hall
  rw [toList_text, hcs]
  split
  · unfold Token.isNumber
    simpa [Token.isSign] using hall
  · unfold Token.isNumber
    dsimp only
    rw [not_isSign_of_isDecimal (hall c List.mem_cons_self)]
    exact List.all_eq_true.mpr hall

theorem text_ne_empty (n : Int) : text n ≠ "" := by
  intro h
  have hnumber := isNumber_text n
  rw [h] at hnumber
  exact absurd hnumber (by decide)

theorem read_text {n : Int} (h : Writable n) : read (text n) = .ok n := by
  have hdecimal := isDecimal_of_mem_repr (n := n.natAbs)
  have hlength := length_repr_le (writable_iff.mp h)
  obtain ⟨c, rest, hcs⟩ := exists_repr_eq_cons n.natAbs
  have hne : n.natAbs.repr.toList ≠ [] := by
    rw [hcs]
    exact List.cons_ne_nil c rest
  -- the written form opens with its sign or with a digit, and neither is a blank
  have hsplit : splitSign ((text n).toList.dropWhile isMargin) =
      (decide (n < 0), n.natAbs.repr.toList) := by
    rw [toList_text]
    by_cases hn : n < 0
    · rw [if_pos hn, decide_eq_true hn, List.dropWhile_cons_of_neg (by decide)]
      rfl
    · have hc : isDecimal c := hdecimal c (by rw [hcs]; exact List.mem_cons_self)
      have hmargin := isMargin_eq_false (not_isBlank_of_isDecimal hc)
      rw [if_neg hn, decide_eq_false hn, hcs, List.dropWhile_cons_of_neg (by rw [hmargin]; decide)]
      exact splitSign_of_isDecimal hc rest
  unfold read
  rw [readChars_of_splitSign (text n) hsplit hne hdecimal, if_neg (Nat.not_lt.mpr hlength),
    value_repr]
  by_cases hn : n < 0
  · rw [if_pos (decide_eq_true hn)]
    congr 1
    omega
  · rw [if_neg (by simpa using hn)]
    congr 1
    omega

end Numeral

end LetterMachine
