import LetterMachine.Debugger
import LetterMachine.Proofs.Replay

/-!
# Marked texts read back

A text may hold marks that open and close styles, and a backslash in front of a bracket that is no
mark.  A reader of it finds the characters, each with the styles that it stands in.  What is written
without brackets and backslashes is read as it stands, in a style too.  In a row without marks the
reader finds pieces between blanks, and numbers among them.
-/

namespace LetterMachine

namespace Text

/-! ## Styles -/

/-- The styles behind a tag: a name opens one more, a name behind a stroke closes the innermost. -/
def afterTag (tag : List Char) (styles : List String) : Option (List String) :=
  match tag, styles with
  | '/' :: name, style :: outer => if String.ofList name = style then some outer else none
  | '/' :: _, [] => none
  | name, styles => some (String.ofList name :: styles)

/-- Where a reader of styles is: outside of tags, behind a backslash that makes a bracket a
character, or in a tag with the part of it that has been passed. -/
inductive TagReader where
  | outside
  | escaped
  | inside (front : List Char)

/-- The characters of a text with the styles that each stands in, the innermost first. -/
def readStyled : TagReader → (styles : List String) → List Char →
    Option (List (Char × List String))
  | .outside, styles, [] => if styles.isEmpty then some [] else none
  | _, _, [] => none
  | .escaped, styles, c :: rest => (readStyled .outside styles rest).map ((c, styles) :: ·)
  | .inside front, styles, c :: rest =>
    if c = ']' then (afterTag front styles).bind (readStyled .outside · rest)
    else readStyled (.inside (front ++ [c])) styles rest
  | .outside, styles, c :: rest =>
    if c = '[' then readStyled (.inside []) styles rest
    else if c = backslash ∧ rest.head? = some '[' then readStyled .escaped styles rest
    else (readStyled .outside styles rest).map ((c, styles) :: ·)

/-- Inside of some styles a text is read as these characters, whatever stands behind it. -/
def ReadsAs (styles : List String) (s : String) (cs : List (Char × List String)) : Prop :=
  ∀ rest, readStyled .outside styles (s.toList ++ rest) =
    (readStyled .outside styles rest).map (cs ++ ·)

/-- The characters of a text in the same styles. -/
def inStyles (styles : List String) (s : String) : List (Char × List String) :=
  s.toList.map (·, styles)

theorem map_fst_inStyles (styles : List String) (s : String) :
    (inStyles styles s).map Prod.fst = s.toList := by
  unfold inStyles
  simp [Function.comp_def]

theorem ReadsAs.append {styles : List String} {s t : String} {cs ds : List (Char × List String)}
    (hs : ReadsAs styles s cs) (ht : ReadsAs styles t ds) : ReadsAs styles (s ++ t) (cs ++ ds) := by
  intro rest
  rw [String.toList_append, List.append_assoc, hs, ht, Option.map_map]
  simp [Function.comp_def]

/-- A character that stands for itself. -/
def isUnmarked (c : Char) : Bool := c != '[' && c != backslash

theorem readStyled_cons_of_isUnmarked {c : Char} (h : isUnmarked c) (styles : List String)
    (rest : List Char) :
    readStyled .outside styles (c :: rest) =
      (readStyled .outside styles rest).map ((c, styles) :: ·) := by
  obtain ⟨hopen, hescape⟩ := Bool.and_eq_true_iff.mp h
  refine (if_neg (bne_iff_ne.mp hopen)).trans (if_neg ?_)
  exact fun h => bne_iff_ne.mp hescape h.1

theorem ne_of_isLower {sign : Char} (hsign : sign.isLower = false) (c : Char)
    (hc : c.isLower) : c != sign := by
  rw [bne_iff_ne]
  rintro rfl
  rw [hc] at hsign
  cases hsign

theorem isUnmarked_of_isLower (c : Char) (hc : c.isLower) : isUnmarked c :=
  Bool.and_eq_true_iff.mpr ⟨ne_of_isLower (by decide) c hc, ne_of_isLower (by decide) c hc⟩

theorem takes_isUnmarked : Takes isUnmarked :=
  (takes_ne '[' (by decide) (by decide)).and (takes_ne backslash (by decide) (by decide))

theorem MadeOf.readsAs {s : String} (h : MadeOf isUnmarked s) (styles : List String) :
    ReadsAs styles s (inStyles styles s) := by
  intro rest
  unfold inStyles
  unfold MadeOf at h
  -- over the characters: none of them opens a tag, and none is an escape
  generalize s.toList = cs at h
  induction cs with
  | nil => simp
  | cons c cs ih =>
    obtain ⟨hc, hcs⟩ := List.forall_mem_cons.mp h
    rw [List.cons_append, readStyled_cons_of_isUnmarked hc, ih hcs, Option.map_map]
    rfl

theorem readStyled_bracket (styles : List String) (rest : List Char) :
    readStyled .outside styles ('[' :: rest) = readStyled (.inside []) styles rest :=
  if_pos rfl

theorem readStyled_tag {tag : List Char} (h : ']' ∉ tag) (front : List Char)
    (styles : List String) (rest : List Char) :
    readStyled (.inside front) styles (tag ++ ']' :: rest) =
      (afterTag (front ++ tag) styles).bind (readStyled .outside · rest) := by
  -- over the tag, of which the reader keeps the part that it has passed
  induction tag generalizing front with
  | nil =>
    rw [List.nil_append, List.append_nil]
    exact if_pos rfl
  | cons c tag ih =>
    obtain ⟨hc, htag⟩ := not_or.mp (mt List.mem_cons.mpr h)
    have hstep : readStyled (.inside front) styles (c :: (tag ++ ']' :: rest)) =
        readStyled (.inside (front ++ [c])) styles (tag ++ ']' :: rest) := if_neg (Ne.symm hc)
    rw [List.cons_append, hstep, ih htag, List.append_assoc]
    rfl

/-- A name that a tag can hold, other than one that closes. -/
def IsStyle (style : String) : Prop := ']' ∉ style.toList ∧ style.toList.head? ≠ some '/'

instance (style : String) : Decidable (IsStyle style) := inferInstanceAs (Decidable (_ ∧ _))

theorem afterTag_open {style : String} (h : IsStyle style) (styles : List String) :
    afterTag style.toList styles = some (style :: styles) := by
  unfold afterTag
  split
  · next heq => exact absurd (by rw [heq]; rfl) h.2
  · next heq => exact absurd (by rw [heq]; rfl) h.2
  · rw [String.ofList_toList]

theorem afterTag_close (style : String) (styles : List String) :
    afterTag ('/' :: style.toList) (style :: styles) = some styles :=
  if_pos (String.ofList_toList)

theorem ReadsAs.styled {styles : List String} {style s : String} {cs : List (Char × List String)}
    (h : ReadsAs (style :: styles) s cs) (hstyle : IsStyle style) :
    ReadsAs styles (Debugger.styled style s) cs := by
  intro rest
  have hclose : ']' ∉ '/' :: style.toList := by
    rw [List.mem_cons, not_or]
    exact ⟨by decide, hstyle.1⟩
  have hchars : (Debugger.styled style s).toList ++ rest =
      '[' :: (style.toList ++ ']' :: (s.toList ++ '[' :: ('/' :: style.toList ++ ']' :: rest))) := by
    simp [Debugger.styled]
  -- the tag that opens the style, the text in it, and the tag that closes it
  rw [hchars, readStyled_bracket, readStyled_tag hstyle.1, List.nil_append, afterTag_open hstyle,
    Option.bind_some, h, readStyled_bracket, readStyled_tag hclose, List.nil_append, afterTag_close,
    Option.bind_some]

theorem ReadsAs.eq {s : String} {cs : List (Char × List String)} (h : ReadsAs [] s cs) :
    readStyled .outside [] s.toList = some cs := by
  have hend := h []
  rw [List.append_nil] at hend
  rw [hend]
  simp [readStyled]

theorem unstyled_of_not_mem {s : String} (h : '[' ∉ s.toList) : Debugger.unstyled s = s := by
  have hchars : s.toList.flatMap (fun c => if c = '[' then [backslash, '['] else [c]) =
      s.toList := by
    generalize s.toList = cs at h
    induction cs with
    | nil => rfl
    | cons c cs ih =>
      obtain ⟨hc, hcs⟩ := not_or.mp (mt List.mem_cons.mpr h)
      rw [List.flatMap_cons, if_neg (Ne.symm hc), ih hcs]
      rfl
  unfold Debugger.unstyled
  rw [hchars, String.ofList_toList]

theorem MadeOf.styled {kind : Char → Bool} (hsigns : MadeOf kind "[]/") {style s : String}
    (hstyle : MadeOf kind style) (hs : MadeOf kind s) : MadeOf kind (Debugger.styled style s) := by
  have hopen : MadeOf kind "[" := hsigns.part (by decide)
  have hclose : MadeOf kind "]" := hsigns.part (by decide)
  have hend : MadeOf kind "[/" := hsigns.part (by decide)
  exact (((((hopen.append hstyle).append hclose).append hs).append hend).append hstyle).append
    hclose

/-! ## Rows, words and numbers -/

/-- The styles and the characters of a row that is of the same styles throughout. -/
def readRow (line : List Char) : Option (List String × List Char) :=
  match readStyled .outside [] line with
  | some ((c, styles) :: rest) =>
    if rest.all (·.2 = styles) then some (styles, c :: rest.map Prod.fst) else none
  | _ => none

theorem readRow_of_readsAs {styles : List String} {s t : String}
    (h : ReadsAs [] s (inStyles styles t)) (ht : t.toList ≠ []) :
    readRow s.toList = some (styles, t.toList) := by
  obtain ⟨c, cs, hchars⟩ := List.exists_cons_of_ne_nil ht
  unfold readRow
  rw [h.eq]
  unfold inStyles
  rw [hchars]
  simp [Function.comp_def]

theorem takes_ne_lineFeed : Takes (· != '\n') := takes_ne '\n' (by decide) (by decide)

theorem splitOn_lines {rows : List String} (hne : rows ≠ [])
    (h : ∀ row ∈ rows, MadeOf (· != '\n') row) :
    (lines rows).toList.splitOn '\n' = rows.map String.toList := by
  unfold lines
  rw [String.toList_intercalate]
  refine List.splitOn_intercalate '\n' (fun cs hcs => ?_) (by simpa using hne)
  obtain ⟨row, hrow, rfl⟩ := List.mem_map.mp hcs
  exact (h row hrow).not_mem (by decide)

/-- The pieces of a text, which stand between blanks. -/
def pieces (cs : List Char) : List (List Char) := (cs.splitOn ' ').filter (!·.isEmpty)

theorem pieces_append_blank (cs ds : List Char) :
    pieces (cs ++ ' ' :: ds) = pieces cs ++ pieces ds := by
  unfold pieces
  rw [List.splitOn_append_cons_self, List.filter_append]

theorem pieces_blank (cs : List Char) : pieces (' ' :: cs) = pieces cs :=
  pieces_append_blank [] cs

theorem pieces_eq_singleton {cs : List Char} (h : ' ' ∉ cs) (hne : cs ≠ []) : pieces cs = [cs] := by
  unfold pieces
  rw [List.splitOn_eq_singleton h]
  simpa using hne

theorem pieces_of_isLower {s : String} (h : MadeOf Char.isLower s) (hne : s.toList ≠ []) :
    pieces s.toList = [s.toList] :=
  pieces_eq_singleton ((h.mono (ne_of_isLower (by decide : ' '.isLower = false))).not_mem
    (by decide)) hne

theorem pieces_atRight (width : Nat) (s : String) :
    pieces (atRight width s).toList = pieces s.toList := by
  have hblanks (n : Nat) : pieces (List.replicate n ' ' ++ s.toList) = pieces s.toList := by
    induction n with
    | zero => rfl
    | succ n ih => rw [List.replicate_succ, List.cons_append, pieces_blank, ih]
  unfold atRight
  rw [String.toList_append, String.toList_ofList, hblanks]

theorem pieces_repr (n : Nat) : pieces (Nat.repr n).toList = [(Nat.repr n).toList] := by
  obtain ⟨c, rest, hcons⟩ := Numeral.exists_repr_eq_cons n
  refine pieces_eq_singleton ?_ (by rw [hcons]; exact List.cons_ne_nil c rest)
  exact (MadeOf.repr (takes_ne ' ' (by decide) (by decide)) n).not_mem (by decide)

theorem pieces_numeral (n : Int) : pieces (Numeral.text n).toList = [(Numeral.text n).toList] := by
  refine pieces_eq_singleton ?_ fun hnil => Numeral.text_ne_empty n (String.toList_eq_nil_iff.mp hnil)
  exact (MadeOf.numeral (takes_ne ' ' (by decide) (by decide)) (by decide) n).not_mem (by decide)

/-- A label and what it labels stand between blanks. -/
theorem pieces_labelled {label value : String} (hlabel : pieces label.toList = [label.toList])
    (hvalue : pieces value.toList = [value.toList]) (cs : List Char) :
    pieces (label.toList ++ ((" " ++ value ++ "  ").toList ++ cs)) =
      label.toList :: value.toList :: pieces cs := by
  have hchars : label.toList ++ ((" " ++ value ++ "  ").toList ++ cs) =
      label.toList ++ ' ' :: (value.toList ++ ' ' :: ' ' :: cs) := by
    simp
  rw [hchars, pieces_append_blank, hlabel, pieces_append_blank, hvalue, pieces_blank]
  rfl

/-- The number that digits write. -/
def natural? (cs : List Char) : Option Nat :=
  if !cs.isEmpty && cs.all Char.isDigit then some (Numeral.value cs) else none

/-- The number that digits write, or a minus sign and digits. -/
def integer? (cs : List Char) : Option Int :=
  if cs.head? = some '-' then (natural? cs.tail).map fun n => -Int.ofNat n
  else (natural? cs).map Int.ofNat

theorem natural?_repr (n : Nat) : natural? n.repr.toList = some n := by
  obtain ⟨c, rest, hcons⟩ := Numeral.exists_repr_eq_cons n
  have hdigits : n.repr.toList.all Char.isDigit := List.all_eq_true.mpr Numeral.isDigit_of_mem_repr
  have hsome : (!n.repr.toList.isEmpty) = true := by rw [hcons]; rfl
  unfold natural?
  rw [hsome, hdigits, Numeral.value_repr]
  rfl

theorem integer?_text (n : Int) : integer? (Numeral.text n).toList = some n := by
  -- digits hold no sign, so only a negative number begins with one
  have hunsigned : n.natAbs.repr.toList.head? ≠ some '-' := fun h =>
    Numeral.sign_not_mem_repr n.natAbs (List.mem_of_head? h)
  unfold integer?
  rw [Numeral.toList_text]
  by_cases hneg : n < 0
  · rw [if_pos hneg, if_pos List.head?_cons, List.tail_cons, natural?_repr, Option.map_some]
    congr 1
    exact (Int.eq_neg_natAbs_of_nonpos (Int.le_of_lt hneg)).symm
  · rw [if_neg hneg, if_neg hunsigned, natural?_repr, Option.map_some]
    congr 1
    exact Int.natAbs_of_nonneg (Int.not_lt.mp hneg)

end Text

end LetterMachine
