import LetterMachine.Proofs.Scan

/-!
# Terminals as patterns

The four terminals of program text are patterns, and a pattern may take the front of a text in
several ways, which are tried in turn.  Text is lexed by taking, again and again, what the first
terminal takes that matches at the place.  Whatever the order of the terminals, this is the scan by
maximal runs.
-/

namespace LetterMachine

/-- A pattern for the front of a text. -/
inductive Pattern where
  /-- One character of a set. -/
  | one (set : Char → Bool)
  /-- One character of a set, or none. -/
  | optional (set : Char → Bool)
  /-- Any number of characters of a set, as many as possible first. -/
  | many (set : Char → Bool)
  /-- No character, where none of the set follows. -/
  | notBefore (set : Char → Bool)
  | both (first second : Pattern)

/-- A text split into what a pattern takes and what it leaves. -/
structure Split where
  taken : List Char
  rest : List Char

/-- A split of what follows a front, as a split of the whole. -/
def Split.behind (front : List Char) (s : Split) : Split := ⟨front ++ s.taken, s.rest⟩

@[simp] theorem Split.map_behind_nil (ss : List Split) : ss.map (behind []) = ss :=
  List.map_id ss

namespace Pattern

def front (set : Char → Bool) : List Char → List Split
  | [] => []
  | c :: cs => if set c then [⟨[c], cs⟩] else []

def run (set : Char → Bool) : List Char → List Split
  | [] => [⟨[], []⟩]
  | c :: cs => if set c then (run set cs).map (.behind [c]) ++ [⟨[], c :: cs⟩] else [⟨[], c :: cs⟩]

/-- The ways in which a pattern takes the front of a text, in the order in which they are tried. -/
def splits : Pattern → List Char → List Split
  | one set, cs => front set cs
  | optional set, cs => front set cs ++ [⟨[], cs⟩]
  | many set, cs => run set cs
  | notBefore set, cs => if cs.head?.any set then [] else [⟨[], cs⟩]
  | both first second, cs =>
    (first.splits cs).flatMap fun s => (second.splits s.rest).map (.behind s.taken)

def match? (p : Pattern) (cs : List Char) : Option Split := (p.splits cs).head?

theorem exists_run_eq_cons (set : Char → Bool) (cs : List Char) :
    ∃ shorter, run set cs = ⟨cs.takeWhile set, cs.dropWhile set⟩ :: shorter := by
  induction cs with
  | nil => exact ⟨[], rfl⟩
  | cons c cs ih =>
    obtain ⟨shorter, ih⟩ := ih
    unfold run
    by_cases hc : set c
    · rw [if_pos hc, ih, List.takeWhile_cons_of_pos hc, List.dropWhile_cons_of_pos hc]
      exact ⟨_, rfl⟩
    · rw [if_neg hc, List.takeWhile_cons_of_neg hc, List.dropWhile_cons_of_neg hc]
      exact ⟨[], rfl⟩

theorem splits_both_one_cons (set : Char → Bool) (p : Pattern) (c : Char) (cs : List Char) :
    ((one set).both p).splits (c :: cs) =
      if set c then (p.splits cs).map (.behind [c]) else [] := by
  by_cases hc : set c
  · simp [splits, front, hc]
  · simp [splits, front, hc]

theorem match?_both_one_many (set more : Char → Bool) (c : Char) (cs : List Char) :
    ((one set).both (many more)).match? (c :: cs) =
      if set c then some ⟨c :: cs.takeWhile more, cs.dropWhile more⟩ else none := by
  obtain ⟨shorter, hrun⟩ := exists_run_eq_cons more cs
  unfold match?
  rw [splits_both_one_cons]
  by_cases hc : set c
  · rw [if_pos hc, if_pos hc, splits, hrun]
    rfl
  · rw [if_neg hc, if_neg hc]
    rfl

theorem of_match?_both_one_many {set more : Char → Bool} {cs : List Char} {s : Split}
    (h : ((one set).both (many more)).match? cs = some s) :
    ∃ c rest, cs = c :: rest ∧ set c ∧ s = ⟨c :: rest.takeWhile more, rest.dropWhile more⟩ := by
  cases cs with
  | nil => cases h
  | cons c rest =>
    rw [match?_both_one_many] at h
    split at h
    · next hc => exact ⟨c, rest, rfl, hc, (Option.some.inj h).symm⟩
    · cases h

/-- A character of the set is taken as long as what follows can be matched behind it, and given back
otherwise. -/
theorem splits_both_many_cons (set : Char → Bool) (p : Pattern) (c : Char) (cs : List Char) :
    ((many set).both p).splits (c :: cs) =
      if set c then (((many set).both p).splits cs).map (.behind [c]) ++ p.splits (c :: cs)
      else p.splits (c :: cs) := by
  by_cases hc : set c
  · have htake : ((run set cs).map (Split.behind [c])).flatMap
        (fun s : Split => (p.splits s.rest).map (Split.behind s.taken)) =
        ((run set cs).flatMap fun s => (p.splits s.rest).map (Split.behind s.taken)).map
          (Split.behind [c]) := by
      rw [List.flatMap_map, List.map_flatMap]
      congr 1
      funext s
      rw [List.map_map]
      rfl
    rw [if_pos hc]
    simp only [splits, run, if_pos hc, List.flatMap_append, htake, List.flatMap_singleton,
      Split.map_behind_nil]
  · simp [splits, run, hc]

theorem splits_both_optional_cons (set : Char → Bool) (p : Pattern) (c : Char) (cs : List Char) :
    ((optional set).both p).splits (c :: cs) =
      if set c then (p.splits cs).map (.behind [c]) ++ p.splits (c :: cs)
      else p.splits (c :: cs) := by
  by_cases hc : set c
  · simp [splits, front, hc]
  · simp [splits, front, hc]

section

variable {digit inside : Char → Bool} (hdigit : ∀ c, digit c → inside c)
include hdigit

/-- Digits with no character of a token behind them: to give digits back never helps, as a digit is
itself a character of a token. -/
theorem splits_many_notBefore (cs : List Char) :
    ((many digit).both (notBefore inside)).splits cs =
      if (cs.takeWhile inside).all digit then [⟨cs.takeWhile inside, cs.dropWhile inside⟩]
      else [] := by
  induction cs with
  | nil => rfl
  | cons c cs ih =>
    rw [splits_both_many_cons, ih]
    by_cases hin : inside c
    · -- no number ends in front of this character
      have hback : (notBefore inside).splits (c :: cs) = [] := by simp [splits, hin]
      rw [hback, List.takeWhile_cons_of_pos hin, List.dropWhile_cons_of_pos hin, List.all_cons]
      by_cases hc : digit c
      · rw [if_pos hc, hc, Bool.true_and, List.append_nil]
        split <;> rfl
      · rw [if_neg hc, Bool.eq_false_of_not_eq_true hc]
        rfl
    · have hc : ¬ digit c := fun h => hin (hdigit c h)
      have hend : (notBefore inside).splits (c :: cs) = [⟨[], c :: cs⟩] := by simp [splits, hin]
      rw [if_neg hc, hend, List.takeWhile_cons_of_neg hin, List.dropWhile_cons_of_neg hin]
      rfl

end

end Pattern

namespace Token

open LetterMachine.Text

/-! ## Terminals -/

inductive Terminal where
  | number
  | word
  | comment
  | gap
  deriving DecidableEq, Repr

namespace Terminal

/-- The unsigned part of a number. -/
def digits : Pattern :=
  (Pattern.one isDecimal).both ((Pattern.many isDecimal).both (.notBefore isInside))

def pattern : Terminal → Pattern
  | number => (Pattern.optional isSign).both digits
  | word => (Pattern.one fun c => isInside c && !opensNumber c).both (.many isInside)
  | comment => (Pattern.one opensComment).both (.many (· != '\n'))
  | gap => (Pattern.one isGap).both (.many isGap)

/-- The kind of token that a terminal yields.  Comments and gaps are passed over. -/
def kind? : Terminal → Option TokenKind
  | number => some .number
  | word => some .word
  | comment | gap => none

/-- What the first terminal takes, in some order, that matches the front of a text. -/
def first? (order : List Terminal) (cs : List Char) : Option (Terminal × Split) :=
  order.findSome? fun t => (t.pattern.match? cs).map (t, ·)

theorem splits_digits (cs : List Char) :
    digits.splits cs =
      if !(cs.takeWhile isInside).isEmpty && (cs.takeWhile isInside).all isDecimal then
        [⟨cs.takeWhile isInside, cs.dropWhile isInside⟩]
      else [] := by
  cases cs with
  | nil => rfl
  | cons c cs =>
    unfold digits
    rw [Pattern.splits_both_one_cons, Pattern.splits_many_notBefore fun _ => isInside_of_isDecimal]
    by_cases hin : isInside c
    · rw [List.takeWhile_cons_of_pos hin, List.dropWhile_cons_of_pos hin, List.all_cons]
      by_cases hc : isDecimal c
      · rw [if_pos hc, hc, List.isEmpty_cons, Bool.true_and, Bool.not_false, Bool.true_and]
        split <;> rfl
      · rw [if_neg hc, Bool.eq_false_of_not_eq_true hc]
        rfl
    · have hc : ¬ isDecimal c := fun h => hin (isInside_of_isDecimal h)
      rw [if_neg hc, List.takeWhile_cons_of_neg hin]
      rfl

/-- A number takes the whole run of characters of a token, or it does not match. -/
theorem match?_number (cs : List Char) :
    number.pattern.match? cs =
      if isNumber (cs.takeWhile isInside) then
        some ⟨cs.takeWhile isInside, cs.dropWhile isInside⟩
      else none := by
  show (((Pattern.optional isSign).both digits).splits cs).head? = _
  cases cs with
  | nil => rfl
  | cons c cs =>
    rw [Pattern.splits_both_optional_cons]
    by_cases hsign : isSign c
    · have hin : isInside c := isInside_of_isSign hsign
      have hc : isDecimal c = false := by
        by_contra h
        rw [not_isSign_of_isDecimal (by simpa using h)] at hsign
        exact absurd hsign (by decide)
      -- a sign that is left to the digits is no digit
      have hleft : digits.splits (c :: cs) = [] := by
        rw [splits_digits, List.takeWhile_cons_of_pos hin, List.all_cons, hc]
        rfl
      rw [if_pos hsign, hleft, List.append_nil, splits_digits, List.takeWhile_cons_of_pos hin,
        List.dropWhile_cons_of_pos hin]
      rw [isNumber_cons, if_pos hsign]
      split <;> rfl
    · rw [if_neg hsign, splits_digits]
      by_cases hin : isInside c
      · rw [List.takeWhile_cons_of_pos hin, List.isEmpty_cons, Bool.not_false, Bool.true_and]
        rw [isNumber_cons, if_neg hsign]
        split <;> rfl
      · rw [List.takeWhile_cons_of_neg hin]
        rfl

end Terminal

/-- What is refused where no terminal matches: a run of characters of a token, or else the character
that stands there. -/
def refused (cs : List Char) : List Char :=
  match ((Pattern.one isInside).both (.many isInside)).match? cs with
  | some s => s.taken
  | none => cs.take 1

/-- Lexing a text that stands at a place, with the terminals tried in some order: what the first
terminal takes that matches is a token or is passed over, and lexing goes on behind it. -/
inductive Lexes (order : List Terminal) : Place → List Char → Scan → Prop where
  | done {p : Place} : Lexes order p [] ⟨[], none⟩
  | stuck {p : Place} {c : Char} {cs : List Char}
      (unmatched : Terminal.first? order (c :: cs) = none) :
      Lexes order p (c :: cs) ⟨[], some (refused (c :: cs), p)⟩
  | passed {p : Place} {cs : List Char} {t : Terminal} {split : Split} {s : Scan}
      (matched : Terminal.first? order cs = some (t, split)) (kind : t.kind? = none)
      (others : Lexes order (p.after split.taken) split.rest s) : Lexes order p cs s
  | token {p : Place} {cs : List Char} {t : Terminal} {split : Split} {s : Scan} {k : TokenKind}
      (matched : Terminal.first? order cs = some (t, split)) (kind : t.kind? = some k)
      (others : Lexes order (p.after split.taken) split.rest s) :
      Lexes order p cs (s.behind ⟨k, String.ofList split.taken, some p⟩)

/-! ## Lexing is scanning -/

theorem scan_of_match? {t : Terminal} {cs : List Char} {split : Split}
    (h : t.pattern.match? cs = some split) (p : Place) :
    scan p cs =
      match t.kind? with
      | some k =>
        (scan (p.after split.taken) split.rest).behind ⟨k, String.ofList split.taken, some p⟩
      | none => scan (p.after split.taken) split.rest := by
  cases t with
  | number =>
    rw [Terminal.match?_number] at h
    split at h
    · next hnumber =>
      obtain rfl := Option.some.inj h
      conv_lhs => rw [← List.takeWhile_append_dropWhile (p := isInside) (l := cs)]
      exact scan_number p hnumber (takeWhile_dropWhile isInside cs)
    · cases h
  | word =>
    obtain ⟨c, rest, rfl, hc, rfl⟩ := Pattern.of_match?_both_one_many h
    obtain ⟨hin, hopens⟩ := Bool.and_eq_true_iff.mp hc
    conv_lhs => rw [← List.takeWhile_append_dropWhile (p := isInside) (l := rest)]
    exact scan_word p (forall_mem_cons_takeWhile hin rest) (by simpa using hopens)
      (takeWhile_dropWhile isInside rest)
  | comment =>
    obtain ⟨c, rest, rfl, hc, rfl⟩ := Pattern.of_match?_both_one_many h
    exact scan_comment p hc rest
  | gap =>
    obtain ⟨c, rest, rfl, hc, rfl⟩ := Pattern.of_match?_both_one_many h
    conv_lhs => rw [← List.takeWhile_append_dropWhile (p := isGap) (l := rest)]
    exact scan_gaps p (forall_mem_cons_takeWhile hc rest) (rest.dropWhile isGap)

/-- Every character belongs to a terminal, unless it is a blank that is no gap or begins a run that
is no number though it begins like one. -/
theorem scan_of_unmatched {order : List Terminal} (complete : ∀ t, t ∈ order) {c : Char}
    {cs : List Char} (h : Terminal.first? order (c :: cs) = none) (p : Place) :
    scan p (c :: cs) = ⟨[], some (refused (c :: cs), p)⟩ := by
  have hnone : ∀ t : Terminal, t.pattern.match? (c :: cs) = none := by
    intro t
    have ht := List.findSome?_eq_none_iff.mp h t (complete t)
    exact Option.map_eq_none_iff.mp ht
  have hgap : isGap c = false := by
    have hgap := hnone .gap
    unfold Terminal.pattern at hgap
    rw [Pattern.match?_both_one_many] at hgap
    simpa using hgap
  have hcomment : opensComment c = false := by
    have hcomment := hnone .comment
    unfold Terminal.pattern at hcomment
    rw [Pattern.match?_both_one_many] at hcomment
    simpa using hcomment
  unfold refused
  rw [Pattern.match?_both_one_many]
  by_cases hin : isInside c
  · have hword := hnone .word
    have hnumber := hnone .number
    unfold Terminal.pattern at hword
    rw [Pattern.match?_both_one_many, hin, Bool.true_and] at hword
    have hopens : opensNumber c = true := by simpa using hword
    rw [Terminal.match?_number, List.takeWhile_cons_of_pos hin] at hnumber
    have hmalformed : isNumber (c :: cs.takeWhile isInside) = false := by simpa using hnumber
    rw [if_pos hin]
    conv_lhs => rw [← List.takeWhile_append_dropWhile (p := isInside) (l := cs)]
    rw [← List.cons_append, scan_run p (forall_mem_cons_takeWhile hin cs)
      (takeWhile_dropWhile isInside cs), hopens, hmalformed]
    rfl
  · have hblank : isBlank c = true := by
      by_contra hblank
      exact hin (isInside_iff.mpr ⟨by simpa using hblank, hgap, hcomment⟩)
    rw [scan, hgap, hcomment, hblank, if_neg hin]
    rfl

/-- Nothing is lost where a terminal matches, and it takes something. -/
theorem length_rest_lt {t : Terminal} {cs : List Char} {split : Split}
    (h : t.pattern.match? cs = some split) : split.rest.length < cs.length := by
  cases t with
  | number =>
    rw [Terminal.match?_number] at h
    split at h
    · next hnumber =>
      obtain rfl := Option.some.inj h
      obtain ⟨c, run, hrun, -⟩ := of_isNumber hnumber
      have hlength :=
        congrArg List.length (List.takeWhile_append_dropWhile (p := isInside) (l := cs))
      rw [hrun, List.length_append, List.length_cons] at hlength
      show (cs.dropWhile isInside).length < cs.length
      omega
    · cases h
  | word | comment | gap =>
    obtain ⟨c, rest, rfl, -, rfl⟩ := Pattern.of_match?_both_one_many h
    exact Nat.lt_succ_of_le (List.dropWhile_suffix _).length_le

theorem match?_of_first? {order : List Terminal} {cs : List Char} {t : Terminal} {split : Split}
    (h : Terminal.first? order cs = some (t, split)) : t.pattern.match? cs = some split := by
  obtain ⟨t', -, ht'⟩ := List.exists_of_findSome?_eq_some h
  obtain ⟨split', hmatch, heq⟩ := Option.map_eq_some_iff.mp ht'
  obtain ⟨rfl, rfl⟩ := Prod.mk.inj heq
  exact hmatch

section

variable {order : List Terminal} (complete : ∀ t, t ∈ order)
include complete

theorem lexes_scan (p : Place) (cs : List Char) : Lexes order p cs (scan p cs) := by
  -- on the length, as a terminal may take any number of characters
  induction hlength : cs.length using Nat.strong_induction_on generalizing p cs with
  | h n ih =>
    cases cs with
    | nil =>
      rw [scan_nil]
      exact .done
    | cons c cs =>
      cases hfirst : Terminal.first? order (c :: cs) with
      | none =>
        rw [scan_of_unmatched complete hfirst p]
        exact .stuck hfirst
      | some m =>
        obtain ⟨t, split⟩ := m
        have hmatch := match?_of_first? hfirst
        have hrest := ih _ (hlength ▸ length_rest_lt hmatch) (p.after split.taken) split.rest rfl
        have hscan := scan_of_match? hmatch p
        cases hkind : t.kind? with
        | some k =>
          rw [hkind] at hscan
          rw [hscan]
          exact .token hfirst hkind hrest
        | none =>
          rw [hkind] at hscan
          rw [hscan]
          exact .passed hfirst hkind hrest

theorem eq_scan_of_lexes {p : Place} {cs : List Char} {s : Scan} (h : Lexes order p cs s) :
    s = scan p cs := by
  induction h with
  | done => rw [scan_nil]
  | stuck unmatched => rw [scan_of_unmatched complete unmatched]
  | @passed p cs t split s matched kind _ ih =>
    have hscan := scan_of_match? (match?_of_first? matched) p
    rw [kind] at hscan
    rw [ih, hscan]
  | @token p cs t split s k matched kind _ ih =>
    have hscan := scan_of_match? (match?_of_first? matched) p
    rw [kind] at hscan
    rw [ih, hscan]

/-- Lexing by terminals is scanning by runs, in whatever order the terminals are tried. -/
theorem lexes_iff_eq_scan {p : Place} {cs : List Char} {s : Scan} :
    Lexes order p cs s ↔ s = scan p cs :=
  ⟨eq_scan_of_lexes complete, fun h => h ▸ lexes_scan complete p cs⟩

end

end Token

end LetterMachine
