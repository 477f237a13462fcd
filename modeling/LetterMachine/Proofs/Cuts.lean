import LetterMachine.Proofs.Lines

/-!
# Texts cut between tokens

A scan can be stopped in front of any of its tokens, and in front of the stretch that it is stuck at:
the text up to there has the tokens so far and no others, and the scan of what follows goes on from
there as it did.  So a text that is refused is refused right behind a text that is not, and the place
of the refusal is the place behind that text.
-/

namespace LetterMachine.Token

open LetterMachine.Text

/-- A run that ends in front of a text ends in front of every beginning of it. -/
theorem takeWhile_eq_nil_of_append {set : Char → Bool} {front behind : List Char}
    (h : (front ++ behind).takeWhile set = []) : front.takeWhile set = [] := by
  rw [takeWhile_eq_nil_iff_head?] at h ⊢
  intro c hc
  exact h c (by rw [List.head?_append, Option.mem_def.mp hc]; rfl)

/-- No gap and no comment stands at the front. -/
def StartsAtOnce (cs : List Char) : Prop := ∀ c ∈ cs.head?, ¬ isGap c ∧ ¬ opensComment c

theorem startsAtOnce_cons {c : Char} {cs : List Char} :
    StartsAtOnce (c :: cs) ↔ ¬ isGap c ∧ ¬ opensComment c := by
  simp [StartsAtOnce]

/-- A text cut in two, at a place where the scan has come to these tokens and begins a new one or is
stuck, if it does not end there. -/
structure Cut (p : Place) (front behind : List Char) (before : List Token) (rest : Scan) : Prop where
  passed : scan p front = ⟨before, none⟩
  ahead : scan (p.after front) behind = rest
  atOnce : StartsAtOnce behind

namespace Cut

variable {p : Place} {front behind : List Char} {before : List Token} {rest : Scan}

/-- The front of the text, with nothing passed yet. -/
theorem here {cs : List Char} (h : StartsAtOnce cs) : Cut p [] cs [] (scan p cs) :=
  ⟨scan_nil p, rfl, h⟩

theorem gap {c : Char} (hc : isGap c) (h : Cut (p.next c) front behind before rest) :
    Cut p (c :: front) behind before rest :=
  ⟨by rw [scan_gap p hc, h.passed], h.ahead, h.atOnce⟩

theorem comment {c : Char} {line : List Char} (hc : opensComment c) (hline : '\n' ∉ line)
    (hend : (front ++ behind).takeWhile (· != '\n') = [])
    (h : Cut (p.after (c :: line)) front behind before rest) :
    Cut p (c :: line ++ front) behind before rest := by
  have hnone := takeWhile_eq_nil_of_append hend
  have hall : ∀ d ∈ line, (d != '\n') = true := fun d hd => by
    simpa using fun heq : d = '\n' => hline (heq ▸ hd)
  -- the comment is the same in front of the cut as in the whole text
  have htake : (line ++ front).takeWhile (· != '\n') = line := takeWhile_run hall hnone
  have hdrop : (line ++ front).dropWhile (· != '\n') = front := dropWhile_run hall hnone
  refine ⟨?_, ?_, h.atOnce⟩
  · rw [List.cons_append, scan_comment p hc, htake, hdrop, h.passed]
  · rw [Place.after_append, h.ahead]

theorem run {c : Char} {run : List Char} (hrun : ∀ d ∈ c :: run, isInside d)
    (hwhole : opensNumber c → isNumber (c :: run))
    (hend : (front ++ behind).takeWhile isInside = [])
    (h : Cut (p.after (c :: run)) front behind before rest) :
    Cut p (c :: run ++ front) behind (ofRun p (c :: run) :: before) rest := by
  have hnone := takeWhile_eq_nil_of_append hend
  refine ⟨?_, ?_, h.atOnce⟩
  · rw [scan_run p hrun hnone, h.passed, ofRun, runKind_cons]
    by_cases hc : opensNumber c
    · rw [hc, if_neg (by decide), if_pos (hwhole hc)]
      rfl
    · rw [Bool.eq_false_of_not_eq_true hc, Bool.not_false, if_pos rfl]
      rfl
  · rw [Place.after_append, h.ahead]

end Cut

/-- A text that begins with a run is cut in front of the run, or where what follows the run is cut. -/
theorem exists_cut_run {p : Place} {c : Char} {rest : List Char} {before after : List Token}
    (s : Scan) (hin : isInside c) (hwhole : opensNumber c → isNumber (c :: rest.takeWhile isInside))
    (hscan : scan p (c :: rest) = s.behind (ofRun p (c :: rest.takeWhile isInside)))
    (ih : ∀ before, s.tokens = before ++ after → ∃ front behind,
      rest.dropWhile isInside = front ++ behind ∧
        Cut (p.after (c :: rest.takeWhile isInside)) front behind before ⟨after, s.stuck⟩)
    (h : ofRun p (c :: rest.takeWhile isInside) :: s.tokens = before ++ after) :
    ∃ front behind, c :: rest = front ++ behind ∧ Cut p front behind before ⟨after, s.stuck⟩ := by
  cases before with
  | nil =>
    -- nothing is passed yet: the run itself comes next
    have hahead : scan p (c :: rest) = ⟨after, s.stuck⟩ := by
      rw [hscan, ← List.nil_append after, ← h]
      rfl
    refine ⟨[], c :: rest, rfl, hahead ▸ Cut.here (startsAtOnce_cons.mpr ?_)⟩
    simp [(isInside_iff.mp hin).2]
  | cons t before =>
    obtain ⟨rfl, htokens⟩ := List.cons.inj h
    obtain ⟨front, behind, hrest, hcut⟩ := ih before htokens
    have hrun := forall_mem_cons_takeWhile hin rest
    refine ⟨c :: rest.takeWhile isInside ++ front, behind, ?_, hcut.run hrun hwhole ?_⟩
    · rw [List.append_assoc, ← hrest, List.cons_append, List.takeWhile_append_dropWhile]
    · rw [← hrest, takeWhile_dropWhile]

/-- A text can be cut behind any of its tokens, up to where the next one begins. -/
theorem exists_cut (p : Place) (cs : List Char) {after : List Token} :
    ∀ before, (scan p cs).tokens = before ++ after →
      ∃ front behind, cs = front ++ behind ∧
        Cut p front behind before ⟨after, (scan p cs).stuck⟩ := by
  -- along the scan: the front takes each piece that is passed, until `before` is used up
  fun_induction scan p cs with
  | case1 p =>
    intro before h
    obtain ⟨rfl, rfl⟩ := List.append_eq_nil_iff.mp h.symm
    exact ⟨[], [], rfl, scan_nil p ▸ Cut.here (by simp [StartsAtOnce])⟩
  | case2 p c rest hgap ih =>
    intro before h
    obtain ⟨front, behind, rfl, hcut⟩ := ih before h
    exact ⟨c :: front, behind, rfl, hcut.gap hgap⟩
  | case3 p c rest hgap hcomment ih =>
    intro before h
    obtain ⟨front, behind, hrest, hcut⟩ := ih before h
    refine ⟨c :: rest.takeWhile (· != '\n') ++ front, behind, ?_, hcut.comment hcomment ?_ ?_⟩
    · rw [List.append_assoc, ← hrest, List.cons_append, List.takeWhile_append_dropWhile]
    · exact fun hmem => by simpa using List.mem_takeWhile_imp hmem
    · rw [← hrest, takeWhile_dropWhile]
  | case4 p c rest hgap hcomment hblank =>
    intro before h
    obtain ⟨rfl, rfl⟩ := List.append_eq_nil_iff.mp h.symm
    have hscan : scan p (c :: rest) = ⟨[], some ([c], p)⟩ := by
      rw [scan, if_neg hgap, if_neg hcomment, if_pos hblank]
    exact ⟨[], c :: rest, rfl, hscan ▸ Cut.here (startsAtOnce_cons.mpr ⟨hgap, hcomment⟩)⟩
  | case5 p c rest hgap hcomment hblank run hword ih =>
    intro before h
    have hopens : opensNumber c = false := by simpa using hword
    have hrun : ofRun p run = ⟨.word, String.ofList run, some p⟩ := by
      rw [ofRun, runKind_cons, hopens]
      rfl
    refine exists_cut_run (scan (p.after run) (rest.dropWhile isInside))
      (isInside_of_not hgap hcomment hblank) (fun hc => ?_) ?_ ih (hrun ▸ h)
    · rw [hopens] at hc
      cases hc
    · rw [scan, if_neg hgap, if_neg hcomment, if_neg hblank, if_pos hword, ← hrun]
  | case6 p c rest hgap hcomment hblank run hword hnumber ih =>
    intro before h
    have hopens : opensNumber c = true := by simpa using hword
    have hrun : ofRun p run = ⟨.number, String.ofList run, some p⟩ := by
      rw [ofRun, runKind_cons, hopens]
      rfl
    refine exists_cut_run (scan (p.after run) (rest.dropWhile isInside))
      (isInside_of_not hgap hcomment hblank) (fun _ => hnumber) ?_ ih (hrun ▸ h)
    rw [scan, if_neg hgap, if_neg hcomment, if_neg hblank, if_neg hword, if_pos hnumber, ← hrun]
  | case7 p c rest hgap hcomment hblank run hword hnumber =>
    intro before h
    obtain ⟨rfl, rfl⟩ := List.append_eq_nil_iff.mp h.symm
    have hscan : scan p (c :: rest) = ⟨[], some (run, p)⟩ := by
      rw [scan, if_neg hgap, if_neg hcomment, if_neg hblank, if_neg hword, if_neg hnumber]
    exact ⟨[], c :: rest, rfl, hscan ▸ Cut.here (startsAtOnce_cons.mpr ⟨hgap, hcomment⟩)⟩

/-! ## What stands behind a cut -/

theorem scan_of_startsAtOnce {p : Place} {c : Char} {cs : List Char} (h : StartsAtOnce (c :: cs)) :
    (∃ k, scan p (c :: cs) = (scan (p.after (c :: cs.takeWhile isInside))
        (cs.dropWhile isInside)).behind ⟨k, String.ofList (c :: cs.takeWhile isInside), some p⟩) ∨
      scan p (c :: cs) = ⟨[], some ([c], p)⟩ ∨
      scan p (c :: cs) = ⟨[], some (c :: cs.takeWhile isInside, p)⟩ := by
  obtain ⟨hgap, hcomment⟩ := startsAtOnce_cons.mp h
  rw [scan, if_neg hgap, if_neg hcomment]
  split
  · exact .inr (.inl rfl)
  · dsimp only
    split
    · exact .inl ⟨.word, rfl⟩
    · split
      · exact .inl ⟨.number, rfl⟩
      · exact .inr (.inr rfl)

/-- A token that comes at once is spelt at the front of the text. -/
theorem of_scan_cons {p : Place} {cs : List Char} {t : Token} {after : List Token}
    {stuck : Option (List Char × Place)} (h : StartsAtOnce cs)
    (hscan : scan p cs = ⟨t :: after, stuck⟩) :
    t.place = some p ∧ ∃ behind, cs = t.text.toList ++ behind := by
  cases cs with
  | nil =>
    rw [scan_nil] at hscan
    cases hscan
  | cons c cs =>
    rcases scan_of_startsAtOnce h with ⟨k, heq⟩ | heq | heq
    · rw [heq] at hscan
      obtain ⟨rfl, -⟩ := List.cons.inj (Scan.mk.inj hscan).1
      refine ⟨rfl, cs.dropWhile isInside, ?_⟩
      rw [String.toList_ofList, List.cons_append, List.takeWhile_append_dropWhile]
    · rw [heq] at hscan
      cases hscan
    · rw [heq] at hscan
      cases hscan

/-- So is the stretch that a scan is stuck at. -/
theorem of_scan_stuck {p q : Place} {cs run : List Char} (h : StartsAtOnce cs)
    (hscan : scan p cs = ⟨[], some (run, q)⟩) : q = p ∧ ∃ behind, cs = run ++ behind := by
  cases cs with
  | nil =>
    rw [scan_nil] at hscan
    cases hscan
  | cons c cs =>
    rcases scan_of_startsAtOnce h with ⟨k, heq⟩ | heq | heq
    · rw [heq] at hscan
      cases hscan
    · rw [heq] at hscan
      cases hscan
      exact ⟨rfl, cs, rfl⟩
    · rw [heq] at hscan
      cases hscan
      refine ⟨rfl, cs.dropWhile isInside, ?_⟩
      rw [List.cons_append, List.takeWhile_append_dropWhile]

/-! ## Texts -/

/-- A stretch stands at a place in a text, behind a front that has these tokens. -/
structure StandsBehind (s stretch : String) (p : Place) (front : String) (tokens : List Token) :
    Prop where
  split : ∃ behind, s = front ++ stretch ++ behind
  tokens : ofText front = .ok tokens
  place : p = placeBehind front.toList

theorem StandsBehind.of_cut {s : String} {stretch front behind : List Char} {before : List Token}
    {rest : Scan} (hs : s.toList = front ++ (stretch ++ behind))
    (h : Cut Place.start front (stretch ++ behind) before rest) :
    StandsBehind s (String.ofList stretch) (Place.start.after front) (String.ofList front)
      before where
  split := by
    refine ⟨String.ofList behind, ?_⟩
    rw [← String.toList_inj]
    simp [hs]
  tokens := by
    rw [ofText_eq_ok_iff, String.toList_ofList]
    exact h.passed
  place := by rw [String.toList_ofList, after_start]

/-- A token of a text stands at its place, behind the tokens before it. -/
theorem exists_standsBehind {s : String} {before after : List Token} {t : Token}
    (h : ofText s = .ok (before ++ t :: after)) :
    ∃ front p, t.place = some p ∧ StandsBehind s t.text p front before := by
  have hscan := ofText_eq_ok_iff.mp h
  obtain ⟨front, behind, hs, hcut⟩ := exists_cut Place.start s.toList before (by rw [hscan])
  obtain ⟨hplace, rest, rfl⟩ := of_scan_cons hcut.atOnce hcut.ahead
  have hstands := StandsBehind.of_cut hs hcut
  rw [String.ofList_toList] at hstands
  exact ⟨_, _, hplace, hstands⟩

/-- A text without tokens is refused at a stretch of it, with the number of tokens in front. -/
theorem exists_standsBehind_of_error {s : String} {f : Fault} (h : ofText s = .error f) :
    ∃ stretch p front tokens, StandsBehind s stretch p front tokens ∧
      f = .assembly ⟨.malformedToken, stretch, tokens.length, some p⟩ := by
  unfold ofText at h
  split at h
  · cases h
  · next tokens run p hscan =>
    obtain rfl := Except.error.inj h
    have htokens : (scan Place.start s.toList).tokens = tokens ++ [] := by
      rw [hscan, List.append_nil]
    obtain ⟨front, behind, hs, hcut⟩ := exists_cut Place.start s.toList tokens htokens
    rw [hscan] at hcut
    obtain ⟨rfl, rest, rfl⟩ := of_scan_stuck hcut.atOnce hcut.ahead
    exact ⟨_, _, _, _, .of_cut hs hcut, rfl⟩

end LetterMachine.Token
