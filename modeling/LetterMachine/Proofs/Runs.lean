import LetterMachine.Proofs.Pattern
import Mathlib.Data.List.Induction

/-!
# Maximal runs

The tokens of a text are its maximal runs of characters that are neither blank nor open a comment,
outside comments, in order and each with its place.  A text has tokens iff every blank outside
comments is a gap and every run that begins like a number is one.
-/

namespace LetterMachine.Token

open LetterMachine.Text

/-! ## Comments and places -/

/-- The characters since the last line feed, the last one first. -/
def sinceLineFeed (cs : List Char) : List Char := cs.reverse.takeWhile (· != '\n')

/-- Does a comment stand open behind these characters?  It begins at the first character that opens
one and goes on to the end of the line. -/
def CommentOpen (cs : List Char) : Prop := ∃ c ∈ sinceLineFeed cs, opensComment c

/-- The place behind these characters, counted out. -/
def placeBehind (cs : List Char) : Place := ⟨1 + cs.count '\n', 1 + (sinceLineFeed cs).length⟩

theorem sinceLineFeed_concat (cs : List Char) (c : Char) :
    sinceLineFeed (cs ++ [c]) = if c = '\n' then [] else c :: sinceLineFeed cs := by
  unfold sinceLineFeed
  rw [List.reverse_append, List.reverse_singleton, List.singleton_append, List.takeWhile_cons]
  by_cases hc : c = '\n'
  · rw [if_pos hc, if_neg (by simpa using hc)]
  · rw [if_neg hc, if_pos (by simpa using hc)]

theorem after_start (cs : List Char) : Place.start.after cs = placeBehind cs := by
  induction cs using List.reverseRecOn with
  | nil => rfl
  | append_singleton cs c ih =>
    rw [Place.after_append, ih, Place.after_cons, Place.after_nil]
    unfold Place.next placeBehind
    rw [sinceLineFeed_concat, List.count_append, List.count_singleton]
    by_cases hc : c = '\n'
    · simp [hc, Nat.add_assoc]
    · simp [hc, Nat.add_comm]

theorem sinceLineFeed_append (cs ds : List Char) :
    sinceLineFeed (cs ++ ds) =
      if '\n' ∈ ds then sinceLineFeed ds else sinceLineFeed ds ++ sinceLineFeed cs := by
  induction ds using List.reverseRecOn with
  | nil => simp [sinceLineFeed]
  | append_singleton ds d ih =>
    rw [← List.append_assoc, sinceLineFeed_concat, sinceLineFeed_concat, ih]
    simp only [List.mem_append, List.mem_singleton]
    by_cases hd : d = '\n'
    · simp [hd]
    · by_cases hmem : '\n' ∈ ds
      · simp [hd, hmem]
      · simp [hd, hmem, Ne.symm hd]

theorem commentOpen_append {cs ds : List Char} :
    CommentOpen (cs ++ ds) ↔ CommentOpen ds ∨ '\n' ∉ ds ∧ CommentOpen cs := by
  unfold CommentOpen
  rw [sinceLineFeed_append]
  by_cases hmem : '\n' ∈ ds
  · rw [if_pos hmem]
    exact ⟨.inl, fun h => h.resolve_right fun h => h.1 hmem⟩
  · rw [if_neg hmem]
    constructor
    · rintro ⟨c, hc, hopen⟩
      rcases List.mem_append.mp hc with hc | hc
      · exact .inl ⟨c, hc, hopen⟩
      · exact .inr ⟨hmem, c, hc, hopen⟩
    · rintro (⟨c, hc, hopen⟩ | ⟨-, c, hc, hopen⟩)
      · exact ⟨c, List.mem_append_left _ hc, hopen⟩
      · exact ⟨c, List.mem_append_right _ hc, hopen⟩

theorem not_commentOpen_nil : ¬ CommentOpen [] := by
  rintro ⟨c, hc, -⟩
  cases hc

theorem mem_of_mem_sinceLineFeed {cs : List Char} {c : Char} (h : c ∈ sinceLineFeed cs) : c ∈ cs :=
  List.mem_reverse.mp ((List.takeWhile_sublist _).subset h)

theorem not_commentOpen_of_forall {cs : List Char} (h : ∀ c ∈ cs, opensComment c = false) :
    ¬ CommentOpen cs := by
  rintro ⟨c, hc, hopen⟩
  rw [h c (mem_of_mem_sinceLineFeed hc)] at hopen
  cases hopen

/-! ## Runs -/

/-- A run stands behind `before`: characters of a token, outside comments, and no fewer than there
are in a row. -/
def IsRun (cs before run : List Char) : Prop :=
  ∃ behind, cs = before ++ run ++ behind ∧ run ≠ [] ∧ (∀ c ∈ run, isInside c) ∧
    ¬ CommentOpen before ∧ (∀ c ∈ before.getLast?, isInside c = false) ∧
    ∀ c ∈ behind.head?, isInside c = false

/-- A text can be cut between two pieces: no run goes across the cut, and a comment that is open
there ends there. -/
structure Boundary (piece rest : List Char) : Prop where
  comment : CommentOpen piece → ∀ c ∈ rest.head?, c = '\n'
  run : (∃ c ∈ piece.getLast?, isInside c) → ∀ c ∈ rest.head?, isInside c = false

section

variable {piece rest before more : List Char} {c : Char} (h : Boundary piece rest)
  (hrest : rest = before ++ c :: more)
include h hrest

/-- A comment that is open in front of a character other than a line feed began behind the cut. -/
theorem Boundary.commentOpen_append (hc : c ≠ '\n') :
    CommentOpen (piece ++ before) ↔ CommentOpen before := by
  rw [Token.commentOpen_append]
  refine or_iff_left ?_
  rintro ⟨hline, hpiece⟩
  cases before with
  | nil => exact hc (h.comment hpiece c (by rw [hrest]; rfl))
  | cons d before =>
    have hd : d = '\n' := h.comment hpiece d (by rw [hrest]; rfl)
    exact hline (hd ▸ List.mem_cons_self)

/-- What a run stands behind is decided behind the cut, as no run goes across it. -/
theorem Boundary.outside_append (hc : isInside c) :
    (∀ d ∈ (piece ++ before).getLast?, isInside d = false) ↔
      ∀ d ∈ before.getLast?, isInside d = false := by
  rcases List.eq_nil_or_concat before with rfl | ⟨init, last, rfl⟩
  · refine iff_of_true (fun d hd => ?_) (fun d hd => (by cases hd))
    rw [List.append_nil] at hd
    by_contra hinside
    have hoff := h.run ⟨d, hd, by simpa using hinside⟩ c (by rw [hrest]; rfl)
    rw [hc] at hoff
    cases hoff
  · rw [List.concat_eq_append, ← List.append_assoc, List.getLast?_concat, List.getLast?_concat]

end

/-- The runs behind a cut are those of the rest alone. -/
theorem isRun_append {piece rest before run : List Char} (h : Boundary piece rest) :
    IsRun (piece ++ rest) (piece ++ before) run ↔ IsRun rest before run := by
  unfold IsRun
  refine exists_congr fun behind => ?_
  simp only [List.append_assoc, List.append_cancel_left_eq]
  refine and_congr_right fun hrest => and_congr_right fun hne => and_congr_right fun hin => ?_
  obtain ⟨c, run, rfl⟩ := List.exists_cons_of_ne_nil hne
  have hc : isInside c := hin c List.mem_cons_self
  have hline : c ≠ '\n' := by
    rintro rfl
    exact absurd hc (by decide)
  rw [h.commentOpen_append hrest hline, h.outside_append hrest hc]

/-- A run of a text in two pieces begins in the first piece or lies behind the cut. -/
theorem IsRun.cases_append {piece rest before run : List Char}
    (h : IsRun (piece ++ rest) before run) :
    (∃ c more, piece = before ++ c :: more ∧ isInside c) ∨
      ∃ before', before = piece ++ before' := by
  obtain ⟨behind, heq, hne, hin, -⟩ := h
  rw [List.append_assoc] at heq
  rcases List.append_eq_append_iff.mp heq with ⟨before', rfl, -⟩ | ⟨more, rfl, hmore⟩
  · exact .inr ⟨before', rfl⟩
  · cases more with
    | nil => exact .inr ⟨[], by simp⟩
    | cons c more =>
      obtain ⟨d, run, rfl⟩ := List.exists_cons_of_ne_nil hne
      have hd : d = c := (List.cons.inj hmore).1
      exact .inl ⟨c, more, rfl, hd ▸ hin d List.mem_cons_self⟩

/-- A piece in which no run begins. -/
def IsSpacer (piece : List Char) : Prop :=
  ∀ before c more, piece = before ++ c :: more → isInside c → CommentOpen before

theorem isRun_spacer_append {piece rest : List Char} (hpiece : IsSpacer piece)
    (h : Boundary piece rest) {before run : List Char} :
    IsRun (piece ++ rest) before run ↔
      ∃ before', before = piece ++ before' ∧ IsRun rest before' run := by
  constructor
  · intro hrun
    rcases hrun.cases_append with ⟨c, more, hsplit, hc⟩ | ⟨before', rfl⟩
    · obtain ⟨behind, -, -, -, hopen, -⟩ := hrun
      exact absurd (hpiece before c more hsplit hc) hopen
    · exact ⟨before', rfl, (isRun_append h).mp hrun⟩
  · rintro ⟨before', rfl, hrun⟩
    exact (isRun_append h).mpr hrun

theorem takeWhile_eq_nil_iff_head? {set : Char → Bool} {cs : List Char} :
    cs.takeWhile set = [] ↔ ∀ c ∈ cs.head?, set c = false := by
  cases cs with
  | nil => simp
  | cons c cs => by_cases hc : set c <;> simp [hc]

theorem Boundary.of_run {r rest : List Char} (hr : ∀ c ∈ r, isInside c)
    (hrest : rest.takeWhile isInside = []) : Boundary r rest where
  comment hopen :=
    absurd hopen (not_commentOpen_of_forall fun c hc => (isInside_iff.mp (hr c hc)).2.2)
  run _ := takeWhile_eq_nil_iff_head?.mp hrest

theorem isRun_run_append {r rest : List Char} (hr : ∀ c ∈ r, isInside c) (hne : r ≠ [])
    (hrest : rest.takeWhile isInside = []) {before run : List Char} :
    IsRun (r ++ rest) before run ↔
      before = [] ∧ run = r ∨ ∃ before', before = r ++ before' ∧ IsRun rest before' run := by
  have hboundary := Boundary.of_run hr hrest
  constructor
  · intro hrun
    rcases hrun.cases_append with ⟨c, more, rfl, -⟩ | ⟨before', rfl⟩
    · obtain ⟨behind, heq, -, hin, -, hleft, hright⟩ := hrun
      -- a run that begins in the middle of `r` would have a character of `r` in front of it
      have hbefore : before = [] := by
        by_contra hne
        obtain ⟨d, hd⟩ : ∃ d, before.getLast? = some d := ⟨_, List.getLast?_eq_some_getLast hne⟩
        have hinside := hr d (List.mem_append_left _ (List.mem_of_getLast? hd))
        rw [hleft d hd] at hinside
        cases hinside
      subst hbefore
      refine .inl ⟨rfl, ?_⟩
      rw [← takeWhile_run hin (takeWhile_eq_nil_iff_head?.mpr hright), ← takeWhile_run hr hrest]
      exact congrArg (List.takeWhile isInside) heq.symm
    · exact .inr ⟨before', rfl, (isRun_append hboundary).mp hrun⟩
  · rintro (⟨rfl, rfl⟩ | ⟨before', rfl, hrun⟩)
    · refine ⟨rest, rfl, hne, hr, not_commentOpen_nil, ?_, takeWhile_eq_nil_iff_head?.mp hrest⟩
      intro c hc
      cases hc
    · exact (isRun_append hboundary).mpr hrun

/-! ## What a text is made of -/

/-- Every blank outside comments is a gap. -/
def Spaced (cs : List Char) : Prop :=
  ∀ before c behind, cs = before ++ c :: behind → ¬ CommentOpen before → isBlank c → isGap c

/-- A sign or none, and behind it decimal digits, at least one. -/
def IsSignedDigits (run : List Char) : Prop :=
  ∃ sign digits, run = sign ++ digits ∧ (sign = [] ∨ ∃ c, sign = [c] ∧ isSign c) ∧
    digits ≠ [] ∧ ∀ d ∈ digits, isDecimal d

/-- Every run that begins with a sign or a digit is a number. -/
def NumbersWhole (cs : List Char) : Prop :=
  ∀ before run, IsRun cs before run → (∃ c ∈ run.head?, opensNumber c) → IsSignedDigits run

/-- The runs of a text in order, each with what stands before it. -/
structure Lists (cs : List Char) (runs : List (List Char × List Char)) : Prop where
  ordered : runs.Pairwise fun r r' => r.1.length < r'.1.length
  mem : ∀ before run, (before, run) ∈ runs ↔ IsRun cs before run

def runKind (run : List Char) : TokenKind := if run.head?.any opensNumber then .number else .word

/-- The token that a run makes. -/
def ofRun (place : Place) (run : List Char) : Token :=
  ⟨runKind run, String.ofList run, some place⟩

theorem isNumber_iff {run : List Char} : isNumber run ↔ IsSignedDigits run := by
  constructor
  · intro h
    cases run with
    | nil => exact absurd h (by decide)
    | cons c rest =>
      rw [isNumber_cons] at h
      by_cases hc : isSign c
      · rw [if_pos hc, Bool.and_eq_true, List.all_eq_true] at h
        exact ⟨[c], rest, rfl, .inr ⟨c, rfl, hc⟩, by simpa using h.1, h.2⟩
      · rw [if_neg hc, List.all_eq_true] at h
        exact ⟨[], c :: rest, rfl, .inl rfl, List.cons_ne_nil c rest, h⟩
  · rintro ⟨sign, digits, rfl, rfl | ⟨c, rfl, hc⟩, hne, hdigits⟩
    · obtain ⟨d, digits, rfl⟩ := List.exists_cons_of_ne_nil hne
      have hd : isSign d = false := not_isSign_of_isDecimal (hdigits d List.mem_cons_self)
      rw [List.nil_append, isNumber_cons, hd, if_neg (by decide), List.all_eq_true]
      exact hdigits
    · rw [List.singleton_append, isNumber_cons, hc, if_pos rfl, Bool.and_eq_true, List.all_eq_true]
      exact ⟨by simpa using hne, hdigits⟩

/-! ## Piece by piece -/

theorem spaced_append {piece rest : List Char} (h : Boundary piece rest) :
    Spaced (piece ++ rest) ↔ Spaced piece ∧ Spaced rest := by
  constructor
  · intro hall
    refine ⟨?_, ?_⟩
    · rintro before c more rfl
      exact hall before c (more ++ rest) (by simp)
    · intro before c behind hrest hopen hblank
      by_cases hc : c = '\n'
      · rw [hc]
        decide
      · refine hall (piece ++ before) c behind (by rw [hrest, List.append_assoc]) ?_ hblank
        rwa [h.commentOpen_append hrest hc]
  · rintro ⟨hpiece, hrest⟩ before c behind heq hopen hblank
    rcases List.append_eq_append_iff.mp heq with ⟨before', rfl, hbehind⟩ | ⟨more, rfl, hmore⟩
    · exact hrest before' c behind hbehind
        (fun hbefore => hopen (commentOpen_append.mpr (.inl hbefore))) hblank
    · cases more with
      | nil => exact hrest [] c behind hmore.symm not_commentOpen_nil hblank
      | cons d more =>
        obtain ⟨rfl, -⟩ := List.cons.inj hmore
        exact hpiece before c more rfl hopen hblank

section

variable {piece rest : List Char} (hpiece : IsSpacer piece) (h : Boundary piece rest)
include hpiece h

theorem numbersWhole_spacer_append : NumbersWhole (piece ++ rest) ↔ NumbersWhole rest := by
  constructor
  · intro hall before run hrun
    exact hall (piece ++ before) run ((isRun_append h).mpr hrun)
  · intro hall before run hrun
    obtain ⟨before', -, hrun'⟩ := (isRun_spacer_append hpiece h).mp hrun
    exact hall before' run hrun'

theorem Lists.spacer_append {runs : List (List Char × List Char)} (hruns : Lists rest runs) :
    Lists (piece ++ rest) (runs.map fun (before, run) => (piece ++ before, run)) where
  ordered := by
    rw [List.pairwise_map]
    refine hruns.ordered.imp fun {r r'} hlt => ?_
    simpa using hlt
  mem before run := by
    rw [isRun_spacer_append hpiece h]
    constructor
    · intro hmem
      obtain ⟨⟨before', run'⟩, hmem', heq⟩ := List.mem_map.mp hmem
      obtain ⟨rfl, rfl⟩ := Prod.mk.inj heq
      exact ⟨before', rfl, (hruns.mem before' run').mp hmem'⟩
    · rintro ⟨before', rfl, hrun⟩
      exact List.mem_map.mpr ⟨(before', run), (hruns.mem before' run).mpr hrun, rfl⟩

end

section

variable {r rest : List Char} (hr : ∀ c ∈ r, isInside c) (hne : r ≠ [])
  (hrest : rest.takeWhile isInside = [])
include hr hne hrest

theorem numbersWhole_run_append :
    NumbersWhole (r ++ rest) ↔
      ((∃ c ∈ r.head?, opensNumber c) → IsSignedDigits r) ∧ NumbersWhole rest := by
  constructor
  · intro hall
    refine ⟨hall [] r ((isRun_run_append hr hne hrest).mpr (.inl ⟨rfl, rfl⟩)), ?_⟩
    intro before run hrun
    exact hall (r ++ before) run ((isRun_run_append hr hne hrest).mpr (.inr ⟨before, rfl, hrun⟩))
  · rintro ⟨hfirst, hothers⟩ before run hrun
    rcases (isRun_run_append hr hne hrest).mp hrun with ⟨-, rfl⟩ | ⟨before', -, hrun'⟩
    · exact hfirst
    · exact hothers before' run hrun'

theorem Lists.run_append {runs : List (List Char × List Char)} (hruns : Lists rest runs) :
    Lists (r ++ rest) (([], r) :: runs.map fun (before, run) => (r ++ before, run)) where
  ordered := by
    refine List.pairwise_cons.mpr ⟨?_, ?_⟩
    · intro r' hr'
      obtain ⟨⟨before, run⟩, -, rfl⟩ := List.mem_map.mp hr'
      have hpos : 0 < r.length := List.length_pos_iff.mpr hne
      simp only [List.length_nil, List.length_append]
      omega
    · rw [List.pairwise_map]
      refine hruns.ordered.imp fun {r r'} hlt => ?_
      simpa using hlt
  mem before run := by
    rw [isRun_run_append hr hne hrest, List.mem_cons]
    constructor
    · rintro (heq | hmem)
      · exact .inl (Prod.mk.inj heq)
      · obtain ⟨⟨before', run'⟩, hmem', heq⟩ := List.mem_map.mp hmem
        obtain ⟨rfl, rfl⟩ := Prod.mk.inj heq
        exact .inr ⟨before', rfl, (hruns.mem before' run').mp hmem'⟩
    · rintro (⟨rfl, rfl⟩ | ⟨before', rfl, hrun⟩)
      · exact .inl rfl
      · exact .inr (List.mem_map.mpr ⟨(before', run), (hruns.mem before' run).mpr hrun, rfl⟩)

end

/-! ## Gaps and comments -/

theorem forall_split_cons {P : List Char → Char → Prop} {c : Char} {cs : List Char} :
    (∀ before d more, c :: cs = before ++ d :: more → P before d) ↔
      P [] c ∧ ∀ before d more, cs = before ++ d :: more → P (c :: before) d := by
  constructor
  · intro h
    refine ⟨h [] c cs rfl, ?_⟩
    rintro before d more rfl
    exact h (c :: before) d more rfl
  · rintro ⟨hhead, htail⟩ before d more heq
    cases before with
    | nil =>
      obtain ⟨rfl, -⟩ := List.cons.inj heq
      exact hhead
    | cons b before =>
      obtain ⟨rfl, hcs⟩ := List.cons.inj heq
      exact htail before d more hcs

theorem forall_split_singleton {P : List Char → Char → Prop} {c : Char} :
    (∀ before d more, [c] = before ++ d :: more → P before d) ↔ P [] c := by
  rw [forall_split_cons]
  exact ⟨fun h => h.1, fun h => ⟨h, fun before d more heq => by simp at heq⟩⟩

section

variable {c : Char} (h : isGap c)
include h

theorem isSpacer_gap : IsSpacer [c] :=
  forall_split_singleton.mpr fun hinside => by
    rw [(isInside_iff.mp hinside).2.1] at h
    cases h

theorem spaced_gap : Spaced [c] := forall_split_singleton.mpr fun _ _ => h

theorem boundary_gap (rest : List Char) : Boundary [c] rest where
  comment hopen := by
    refine absurd hopen (not_commentOpen_of_forall ?_)
    intro d hd
    rw [List.mem_singleton.mp hd]
    by_contra hcomment
    rw [not_isGap_of_opensComment (by simpa using hcomment)] at h
    cases h
  run := by
    rintro ⟨d, hd, hinside⟩
    obtain rfl : c = d := Option.some.inj hd
    rw [(isInside_iff.mp hinside).2.1] at h
    cases h

end

section

variable {c : Char} {cs : List Char} (hc : opensComment c)
include hc

theorem commentOpen_cons {before : List Char} (hline : '\n' ∉ before) :
    CommentOpen (c :: before) := by
  have hne : c ≠ '\n' := by
    rintro rfl
    exact absurd hc (by decide)
  have hopen : CommentOpen [c] := ⟨c, by simp [sinceLineFeed, hne], hc⟩
  rw [← List.singleton_append, commentOpen_append]
  exact .inr ⟨hline, hopen⟩

variable (hcs : '\n' ∉ cs)
include hcs

theorem commentOpen_of_split {before more : List Char} {d : Char} (h : cs = before ++ d :: more) :
    CommentOpen (c :: before) :=
  commentOpen_cons hc fun hmem => hcs (h ▸ List.mem_append_left _ hmem)

theorem isSpacer_comment : IsSpacer (c :: cs) := by
  refine forall_split_cons.mpr ⟨fun hinside => ?_, fun before d more h _ => ?_⟩
  · rw [(isInside_iff.mp hinside).2.2] at hc
    cases hc
  · exact commentOpen_of_split hc hcs h

theorem spaced_comment : Spaced (c :: cs) := by
  refine forall_split_cons.mpr ⟨fun _ hblank => ?_, fun before d more h hopen => ?_⟩
  · rw [not_isBlank_of_opensComment hc] at hblank
    cases hblank
  · exact absurd (commentOpen_of_split hc hcs h) hopen

end

theorem boundary_line {cs rest : List Char} (h : rest.takeWhile (· != '\n') = []) :
    Boundary cs rest where
  comment _ c hmem := by simpa using takeWhile_eq_nil_iff_head?.mp h c hmem
  run _ c hmem := by
    obtain rfl : c = '\n' := by simpa using takeWhile_eq_nil_iff_head?.mp h c hmem
    decide

theorem spaced_of_forall {r : List Char} (hr : ∀ c ∈ r, isInside c) : Spaced r := by
  rintro before c more rfl - hblank
  rw [(isInside_iff.mp (hr c (by simp))).1] at hblank
  cases hblank

/-! ## The scan -/

/-- A scan tells what the text that stands at a place is made of. -/
structure Scan.Tells (s : Scan) (p : Place) (cs : List Char) : Prop where
  unstuck : s.stuck = none ↔ Spaced cs ∧ NumbersWhole cs
  tokens : s.stuck = none → ∃ runs, Lists cs runs ∧
    s.tokens = runs.map fun (before, run) => ofRun (p.after before) run

theorem Scan.Tells.spacer_append {s : Scan} {p : Place} {piece rest : List Char}
    (hpiece : IsSpacer piece) (hspaced : Spaced piece) (hboundary : Boundary piece rest)
    (h : s.Tells (p.after piece) rest) : s.Tells p (piece ++ rest) where
  unstuck := by
    rw [h.unstuck, spaced_append hboundary, numbersWhole_spacer_append hpiece hboundary]
    exact ⟨fun hrest => ⟨⟨hspaced, hrest.1⟩, hrest.2⟩, fun hall => ⟨hall.1.2, hall.2⟩⟩
  tokens hstuck := by
    obtain ⟨runs, hruns, htokens⟩ := h.tokens hstuck
    refine ⟨_, hruns.spacer_append hpiece hboundary, ?_⟩
    rw [htokens, List.map_map]
    apply List.map_congr_left
    intro r _
    simp only [Function.comp_apply, Place.after_append]

theorem Scan.Tells.run_append {s : Scan} {p : Place} {r rest : List Char}
    (hr : ∀ c ∈ r, isInside c) (hne : r ≠ []) (hrest : rest.takeWhile isInside = [])
    (hwhole : (∃ c ∈ r.head?, opensNumber c) → IsSignedDigits r)
    (h : s.Tells (p.after r) rest) : (s.behind (ofRun p r)).Tells p (r ++ rest) where
  unstuck := by
    show s.stuck = none ↔ _
    rw [h.unstuck, spaced_append (Boundary.of_run hr hrest), numbersWhole_run_append hr hne hrest]
    exact ⟨fun hall => ⟨⟨spaced_of_forall hr, hall.1⟩, hwhole, hall.2⟩,
      fun hall => ⟨hall.1.2, hall.2.2⟩⟩
  tokens hstuck := by
    obtain ⟨runs, hruns, htokens⟩ := h.tokens hstuck
    refine ⟨_, hruns.run_append hr hne hrest, ?_⟩
    show ofRun p r :: s.tokens = _
    rw [htokens, List.map_cons, List.map_map]
    congr 1
    apply List.map_congr_left
    intro r' _
    simp only [Function.comp_apply, Place.after_append]

theorem Scan.tells_nil (p : Place) : (⟨[], none⟩ : Scan).Tells p [] := by
  have hrun : ∀ before run, ¬ IsRun [] before run := by
    rintro before run ⟨behind, heq, hne, -⟩
    exact hne (List.append_eq_nil_iff.mp (List.append_eq_nil_iff.mp heq.symm).1).2
  refine ⟨⟨fun _ => ⟨?_, ?_⟩, fun _ => rfl⟩, fun _ => ⟨[], ⟨List.Pairwise.nil, ?_⟩, rfl⟩⟩
  · intro before c behind heq
    simp at heq
  · intro before run h
    exact absurd h (hrun before run)
  · intro before run
    exact ⟨fun h => absurd h List.not_mem_nil, fun h => absurd h (hrun before run)⟩

/-- Where a scan is stuck, the text has a blank that is no gap or a run that only begins like a
number. -/
theorem Scan.tells_stuck {p : Place} {cs stretch : List Char} {place : Place}
    (h : ¬ (Spaced cs ∧ NumbersWhole cs)) :
    (⟨[], some (stretch, place)⟩ : Scan).Tells p cs where
  unstuck := ⟨fun hstuck => absurd hstuck (Option.some_ne_none _), fun hall => absurd hall h⟩
  tokens hstuck := by cases hstuck

theorem runKind_cons (c : Char) (run : List Char) :
    runKind (c :: run) = if opensNumber c then .number else .word := rfl

theorem isInside_of_not {c : Char} (hgap : ¬ isGap c) (hcomment : ¬ opensComment c)
    (hblank : ¬ isBlank c) : isInside c :=
  isInside_iff.mpr ⟨by simpa using hblank, by simpa using hgap, by simpa using hcomment⟩

/-- The run at the front of a text that does not begin with a blank or a comment. -/
theorem Scan.Tells.run_cons {s : Scan} {p : Place} {c : Char} {rest : List Char} (hin : isInside c)
    (hwhole : opensNumber c → isNumber (c :: rest.takeWhile isInside))
    (h : s.Tells (p.after (c :: rest.takeWhile isInside)) (rest.dropWhile isInside)) :
    (s.behind (ofRun p (c :: rest.takeWhile isInside))).Tells p (c :: rest) := by
  have hrun := h.run_append (forall_mem_cons_takeWhile hin rest) (List.cons_ne_nil c _)
    (takeWhile_dropWhile isInside rest) (by
      rintro ⟨d, hd, hopens⟩
      obtain rfl : c = d := Option.some.inj hd
      exact isNumber_iff.mp (hwhole hopens))
  rwa [List.cons_append, List.takeWhile_append_dropWhile] at hrun

theorem scan_tells (p : Place) (cs : List Char) : (scan p cs).Tells p cs := by
  -- along the scan: each piece that it passes leaves what is told of the rest
  fun_induction scan p cs with
  | case1 p => exact Scan.tells_nil p
  | case2 p c rest hgap ih =>
    exact ih.spacer_append (isSpacer_gap hgap) (spaced_gap hgap) (boundary_gap hgap rest)
  | case3 p c rest hgap hcomment ih =>
    have hline : '\n' ∉ rest.takeWhile (· != '\n') := fun hmem => by
      simpa using List.mem_takeWhile_imp hmem
    have h := ih.spacer_append (p := p) (isSpacer_comment hcomment hline)
      (spaced_comment hcomment hline) (boundary_line (takeWhile_dropWhile _ rest))
    rwa [List.cons_append, List.takeWhile_append_dropWhile] at h
  | case4 p c rest hgap hcomment hblank =>
    refine Scan.tells_stuck fun hall => hgap ?_
    exact hall.1 [] c rest rfl not_commentOpen_nil hblank
  | case5 p c rest hgap hcomment hblank run hword ih =>
    have hin := isInside_of_not hgap hcomment hblank
    have hopens : opensNumber c = false := by simpa using hword
    have h := ih.run_cons hin fun hc => absurd hc (by rw [hopens]; decide)
    rwa [ofRun, runKind_cons, hopens] at h
  | case6 p c rest hgap hcomment hblank run hword hnumber ih =>
    have hin := isInside_of_not hgap hcomment hblank
    have hopens : opensNumber c = true := by simpa using hword
    have h := ih.run_cons hin fun _ => hnumber
    rwa [ofRun, runKind_cons, hopens] at h
  | case7 p c rest hgap hcomment hblank run hword hnumber =>
    have hin := isInside_of_not hgap hcomment hblank
    have hopens : opensNumber c = true := by simpa using hword
    refine Scan.tells_stuck fun hall => hnumber (isNumber_iff.mpr ?_)
    have hrun : IsRun (c :: rest) [] run := by
      have h := (isRun_run_append (forall_mem_cons_takeWhile hin rest) (List.cons_ne_nil c _)
        (takeWhile_dropWhile isInside rest)).mpr (.inl ⟨rfl, rfl⟩)
      rwa [List.cons_append, List.takeWhile_append_dropWhile] at h
    exact hall.2 [] run hrun ⟨c, rfl, hopens⟩

/-! ## Texts -/

theorem ofText_eq_ok_iff {s : String} {ts : List Token} :
    ofText s = .ok ts ↔ scan Place.start s.toList = ⟨ts, none⟩ := by
  unfold ofText
  split
  · next tokens heq =>
    rw [heq]
    exact ⟨fun h => by rw [Except.ok.inj h], fun h => by rw [(Scan.mk.inj h).1]⟩
  · next tokens run p heq =>
    rw [heq]
    exact ⟨fun h => (by cases h), fun h => (by cases h)⟩

/-- The tokens of a text are what lexing by terminals yields, in whatever order the terminals are
tried.  There are tokens iff every blank outside comments is a gap and every run outside comments
that begins like a number is one; they are then the maximal runs in order, each with its kind and
with its place counted out. -/
theorem ofText_eq_ok_iff_runs {order : List Terminal} (complete : ∀ t, t ∈ order) (s : String) :
    (∀ ts, Lexes order Place.start s.toList ⟨ts, none⟩ ↔ ofText s = .ok ts) ∧
      ((∃ ts, ofText s = .ok ts) ↔ Spaced s.toList ∧ NumbersWhole s.toList) ∧
      ∀ ts, ofText s = .ok ts → ∃ runs, Lists s.toList runs ∧
        ts = runs.map fun (before, run) =>
          ⟨runKind run, String.ofList run, some (placeBehind before)⟩ := by
  have htells := scan_tells Place.start s.toList
  refine ⟨fun ts => ?_, ?_, fun ts hts => ?_⟩
  · rw [lexes_iff_eq_scan complete, ofText_eq_ok_iff]
    exact eq_comm
  · rw [← htells.unstuck]
    constructor
    · rintro ⟨ts, hts⟩
      rw [ofText_eq_ok_iff.mp hts]
    · intro hstuck
      exact ⟨_, ofText_eq_ok_iff.mpr (congrArg (Scan.mk _) hstuck)⟩
  · have hscan := ofText_eq_ok_iff.mp hts
    rw [hscan] at htells
    obtain ⟨runs, hruns, htokens⟩ := htells.tokens rfl
    refine ⟨runs, hruns, ?_⟩
    rw [show ts = _ from htokens]
    apply List.map_congr_left
    rintro ⟨before, run⟩ -
    show ofRun (Place.start.after before) run = _
    rw [after_start]
    rfl

/-- A word with a comment right behind it, and a signed number on the next line. -/
theorem ofText_eq_ok_iff_runs_comment :
    let order : List Terminal := [.gap, .comment, .word, .number]
    let s := "ת!;א 7\n +12"
    let ts : List Token := [⟨.word, "ת!", some ⟨1, 1⟩⟩, ⟨.number, "+12", some ⟨2, 2⟩⟩]
    ((∀ t, t ∈ order) ∧ ofText s = .ok ts) ∧
      Lexes order Place.start s.toList ⟨ts, none⟩ ∧ Spaced s.toList ∧ NumbersWhole s.toList := by
  intro order s ts
  have complete : ∀ t, t ∈ order := by
    intro t
    cases t <;> decide
  have hts : ofText s = .ok ts := by
    have hchars : s.toList =
        'ת' :: ['!'] ++ ';' :: ['א', ' ', '7', '\n', ' ', '+', '1', '2'] := by decide
    rw [ofText_eq_ok_iff, hchars, scan_word _ (List.all_eq_true.mp (by decide)) (by decide) rfl,
      scan_comment _ (by decide)]
    show (scan _ ('\n' :: ' ' :: (['+', '1', '2'] ++ []))).behind _ = _
    rw [scan_gap _ (by decide), scan_gap _ (by decide), scan_number _ (by decide) rfl, scan_nil]
    rfl
  obtain ⟨hlexes, hexists, -⟩ := ofText_eq_ok_iff_runs complete s
  exact ⟨⟨complete, hts⟩, (hlexes ts).mpr hts, hexists.mp ⟨ts, hts⟩⟩

end LetterMachine.Token
