import LetterMachine.Proofs.Scan
import LetterMachine.Proofs.Stepper
import LetterMachine.Proofs.Utf8

/-!
# Programs in files

A program that is read from a file is the program of the text that was written there, if a line feed
follows each carriage return: the line ends are shortened on the way, and no token, no line and no
column of a token is changed by it.
-/

namespace LetterMachine

open LetterMachine.Text

/-! ## Line ends -/

namespace Text

/-- A line feed follows each carriage return. -/
def FeedsFollow (cs : List Char) : Prop :=
  ∀ behind, '\r' :: behind <:+ cs → ∃ rest, behind = '\n' :: rest

theorem FeedsFollow.of_suffix {cs ds : List Char} (h : FeedsFollow cs) (hds : ds <:+ cs) :
    FeedsFollow ds := fun behind hbehind => h behind (hbehind.trans hds)

theorem FeedsFollow.tail {c : Char} {cs : List Char} (h : FeedsFollow (c :: cs)) :
    FeedsFollow cs := h.of_suffix (List.suffix_cons c cs)

theorem unixLines_cons_of_ne {c : Char} (hc : c ≠ '\r') (cs : List Char) :
    unixLines (c :: cs) = c :: unixLines cs := by
  rw [unixLines] <;> simp [hc]

/-- A carriage return in front of a line feed is left out. -/
theorem unixLines_return {cs : List Char} (h : FeedsFollow ('\r' :: cs)) :
    unixLines ('\r' :: cs) = unixLines cs ∧ ∃ rest, cs = '\n' :: rest := by
  obtain ⟨rest, rfl⟩ := h cs List.suffix_rfl
  refine ⟨?_, rest, rfl⟩
  rw [unixLines, unixLines_cons_of_ne (by decide)]

variable {set : Char → Bool}

theorem takeWhile_unixLines (hfeed : set '\n' = false) (hreturn : set '\r' = false)
    (cs : List Char) : (unixLines cs).takeWhile set = cs.takeWhile set := by
  fun_induction unixLines cs with
  | case1 => rfl
  | case2 rest ih => simp [hfeed, hreturn]
  | case3 rest hrest ih => simp [hfeed, hreturn]
  | case4 c rest hpair hc ih => simp only [List.takeWhile_cons, ih]

theorem dropWhile_unixLines (hfeed : set '\n' = false) {cs : List Char} (h : FeedsFollow cs) :
    (unixLines cs).dropWhile set = unixLines (cs.dropWhile set) := by
  induction cs with
  | nil => rfl
  | cons c cs ih =>
    by_cases hc : c = '\r'
    · subst hc
      obtain ⟨hlines, rest, rfl⟩ := unixLines_return h
      rw [hlines, unixLines_cons_of_ne (by decide), List.dropWhile_cons_of_neg (by simp [hfeed]),
        List.dropWhile_cons]
      split
      · rw [List.dropWhile_cons_of_neg (by simp [hfeed]), unixLines_cons_of_ne (by decide)]
      · rw [hlines, unixLines_cons_of_ne (by decide)]
    · rw [unixLines_cons_of_ne hc, List.dropWhile_cons, List.dropWhile_cons]
      split
      · exact ih h.tail
      · rw [unixLines_cons_of_ne hc]

end Text

/-! ## Tokens -/

namespace Token

theorem unixLines_cons_of_not_isGap {c : Char} (h : ¬ isGap c) (cs : List Char) :
    unixLines (c :: cs) = c :: unixLines cs := by
  have hc : c ≠ '\r' := fun hc => h (hc ▸ rfl)
  exact unixLines_cons_of_ne hc cs

/-- What stands on the next line is scanned alike from any place of this line. -/
theorem scan_of_line {p q : Place} {cs : List Char} (hline : p.line = q.line)
    (hcs : cs.takeWhile (· != '\n') = []) : scan p cs = scan q cs := by
  cases cs with
  | nil => rw [scan_nil, scan_nil]
  | cons c cs =>
    obtain rfl : c = '\n' := by
      by_contra hc
      simp [hc] at hcs
    have hnext : p.next '\n' = q.next '\n' := by simp [Place.next, hline]
    rw [scan_gap p (by decide), scan_gap q (by decide), hnext]

theorem line_after {p : Place} {cs : List Char} (h : '\n' ∉ cs) : (p.after cs).line = p.line := by
  induction cs generalizing p with
  | nil => rfl
  | cons c cs ih =>
    have hc : c ≠ '\n' := fun hc => h (hc ▸ List.mem_cons_self)
    rw [Place.after_cons, ih fun hmem => h (List.mem_cons_of_mem c hmem), Place.next, if_neg hc]

theorem line_after_comment (p : Place) (c : Char) (hc : c ≠ '\n') (cs : List Char) :
    (p.after (c :: cs.takeWhile (· != '\n'))).line = p.line := by
  apply line_after
  intro hmem
  rcases List.mem_cons.mp hmem with rfl | hmem
  · exact hc rfl
  · simpa using List.mem_takeWhile_imp hmem

/-- The scan of a text does not see how its lines end. -/
theorem scan_unixLines {p : Place} {cs : List Char} (h : FeedsFollow cs) :
    scan p (unixLines cs) = scan p cs := by
  -- along the scan: only a carriage return as a gap, or at the end of a comment, makes a difference
  fun_induction scan p cs with
  | case1 p => rw [unixLines, scan_nil]
  | case2 p c rest hgap ih =>
    by_cases hc : c = '\r'
    · subst hc
      -- a carriage return is a gap in front of the next line
      obtain ⟨hlines, rest, rfl⟩ := unixLines_return h
      rw [hlines, ← ih h.tail, unixLines_cons_of_ne (by decide)]
      exact scan_of_line (by simp [Place.next]) rfl
    · rw [unixLines_cons_of_ne hc, scan_gap p hgap, ih h.tail]
  | case3 p c rest hgap hcomment ih =>
    have hfeed : c ≠ '\n' := fun hc => hgap (hc ▸ rfl)
    have hrest := h.tail
    rw [unixLines_cons_of_not_isGap hgap, scan_comment p hcomment, dropWhile_unixLines rfl hrest,
      ← ih (hrest.of_suffix (List.dropWhile_suffix _))]
    -- the comment loses the carriage return at its end, and the next line begins where it did
    apply scan_of_line
    · rw [line_after_comment p c hfeed]
      exact (line_after_comment p c hfeed rest).symm
    · rw [← dropWhile_unixLines rfl hrest, takeWhile_dropWhile]
  | case4 p c rest hgap hcomment hblank =>
    rw [unixLines_cons_of_not_isGap hgap, scan, if_neg hgap, if_neg hcomment, if_pos hblank]
  | case5 p c rest hgap hcomment hblank run hword ih =>
    rw [unixLines_cons_of_not_isGap hgap, scan, if_neg hgap, if_neg hcomment, if_neg hblank, if_pos hword,
      takeWhile_unixLines rfl rfl, dropWhile_unixLines rfl h.tail,
      ih (h.tail.of_suffix (List.dropWhile_suffix _))]
  | case6 p c rest hgap hcomment hblank run hword hnumber ih =>
    rw [unixLines_cons_of_not_isGap hgap, scan, if_neg hgap, if_neg hcomment, if_neg hblank, if_neg hword,
      takeWhile_unixLines rfl rfl, dropWhile_unixLines rfl h.tail, if_pos hnumber,
      ih (h.tail.of_suffix (List.dropWhile_suffix _))]
  | case7 p c rest hgap hcomment hblank run hword hnumber =>
    rw [unixLines_cons_of_not_isGap hgap, scan, if_neg hgap, if_neg hcomment, if_neg hblank, if_neg hword,
      takeWhile_unixLines rfl rfl, if_neg hnumber]

theorem ofText_unixLines {s : String} (h : FeedsFollow s.toList) :
    ofText (String.ofList (unixLines s.toList)) = ofText s := by
  unfold ofText
  rw [String.toList_ofList, scan_unixLines h]

end Token

/-! ## Loading -/

theorem Directory.text_of_file {d : Directory} {path s : String}
    (h : d.entry path = .file s.toUTF8.data.toList) :
    d.text path = .ok (String.ofList (unixLines s.toList)) := by
  unfold text
  rw [h]
  dsimp only
  rw [decode_toUTF8]
  rfl

theorem Program.ofText_unixLines {s : String} (h : FeedsFollow s.toList) :
    ofText (String.ofList (unixLines s.toList)) = ofText s := by
  unfold ofText
  rw [Token.ofText_unixLines h]

namespace Stepper

/-- A file in which a text is written in UTF-8 is loaded as the text is: it holds the same program,
or it is refused with the same fault at the same place, and the stepper comes to be the same. -/
theorem perform_loadFile_eq_loadText {d : Directory} {path text : String}
    (hfile : d.entry (Directory.shortened path) = .file text.toUTF8.data.toList)
    (hfeeds : FeedsFollow text.toList) :
    d.text (Directory.shortened path) >>= Program.ofText = Program.ofText text ∧
      ∀ s : Stepper, s.perform d (.loadFile path) = s.perform d (.loadText text) := by
  have hprogram : d.text (Directory.shortened path) >>= Program.ofText = Program.ofText text := by
    rw [Directory.text_of_file hfile]
    exact Program.ofText_unixLines hfeeds
  refine ⟨hprogram, fun s => ?_⟩
  show s.loaded (s.loadFile d path) = s.loaded (s.loadText text)
  rw [s.loadFile_eq_map, s.loadText_eq_map, hprogram]

/-- A comment that loses the carriage return at its end, in front of a token that is refused. -/
theorem perform_loadFile_eq_loadText_comment :
    let text := "ת ;a\r\nב! -2\r\n 5x"
    let d : Directory := .ofFiles [("p.iv", text.toUTF8.data.toList)]
    d.entry (Directory.shortened "p.iv") = .file text.toUTF8.data.toList ∧ FeedsFollow text.toList ∧
      ∀ s : Stepper, s.perform d (.loadFile "p.iv") = s.perform d (.loadText text) := by
  intro text d
  have hsplit : "p.iv".splitOn "/" = ["p.iv"] := by
    simp +decide [String.splitOn, String.splitOnAux]
  have hnames : Directory.names "p.iv" = ["p.iv"] := by
    unfold Directory.names
    rw [hsplit]
    decide
  have hshortened : Directory.shortened "p.iv" = "p.iv" := by
    unfold Directory.shortened
    rw [hnames]
    simp +decide
  have hfile : d.entry (Directory.shortened "p.iv") = .file text.toUTF8.data.toList := by
    rw [hshortened]
    unfold Directory.entry
    rw [hnames]
    simp +decide [Directory.look, Directory.insists, hnames, hsplit, d, Directory.ofFiles]
  have hfeeds : FeedsFollow text.toList := by
    have hchars : text.toList = ['ת', ' ', ';', 'a', '\r', '\n', 'ב', '!', ' ', '-', '2', '\r',
      '\n', ' ', '5', 'x'] := by decide
    rw [hchars]
    simp [FeedsFollow, List.suffix_cons_iff]
  exact ⟨hfile, hfeeds, (perform_loadFile_eq_loadText hfile hfeeds).2⟩

end Stepper

end LetterMachine
