import LetterMachine.Proofs.Grammar
import LetterMachine.Proofs.Runs
import LetterMachine.Proofs.Workspace

/-!
# Texts in lines

A text that is a program by itself ends where its last line ends: no token, no comment and no operand
goes on in a line behind it.  So the programs of two texts follow each other in the text that has one
above the other, and running that text is running the two in turn.
-/

namespace LetterMachine

open LetterMachine.Text

/-! ## Scanning line by line -/

namespace Token

section

variable {α : Type} {set : α → Bool} {c : α} (hc : set c = false)
include hc

theorem takeWhile_append_cons (cs rest : List α) :
    (cs ++ c :: rest).takeWhile set = cs.takeWhile set := by
  induction cs with
  | nil => exact List.takeWhile_cons_of_neg (by rw [hc]; decide)
  | cons d cs ih => rw [List.cons_append, List.takeWhile_cons, List.takeWhile_cons, ih]

theorem dropWhile_append_cons (cs rest : List α) :
    (cs ++ c :: rest).dropWhile set = cs.dropWhile set ++ c :: rest := by
  induction cs with
  | nil => exact List.dropWhile_cons_of_neg (by rw [hc]; decide)
  | cons d cs ih =>
    rw [List.cons_append, List.dropWhile_cons, List.dropWhile_cons, ih]
    split <;> rfl

end

/-- A scan in front of the scan of what follows. -/
def Scan.before (tokens : List Token) (s : Scan) : Scan := { s with tokens := tokens ++ s.tokens }

theorem Scan.before_behind (t : Token) (tokens : List Token) (s : Scan) :
    (s.before tokens).behind t = s.before (t :: tokens) := rfl

section

variable (c : Char) (cs rest : List Char)

/-- The run at the front of a text ends in front of the next line. -/
theorem takeWhile_dropWhile_line :
    (cs.dropWhile isInside ++ '\n' :: rest).takeWhile isInside = [] := by
  rw [takeWhile_append_cons (by decide), takeWhile_dropWhile]

theorem cons_append_line :
    c :: cs ++ '\n' :: rest =
      c :: cs.takeWhile isInside ++ (cs.dropWhile isInside ++ '\n' :: rest) := by
  show c :: (cs ++ '\n' :: rest) =
    c :: (cs.takeWhile isInside ++ (cs.dropWhile isInside ++ '\n' :: rest))
  rw [← List.append_assoc, List.takeWhile_append_dropWhile]

theorem after_run_line (p : Place) :
    (p.after (c :: cs.takeWhile isInside)).after (cs.dropWhile isInside) = p.after (c :: cs) := by
  rw [← Place.after_append, List.cons_append, List.takeWhile_append_dropWhile]

end

/-- A text that has tokens throughout is scanned as if nothing followed its last line. -/
theorem scan_append_line (p : Place) (cs rest : List Char) (h : (scan p cs).stuck = none) :
    scan p (cs ++ '\n' :: rest) =
      (scan ((p.after cs).next '\n') rest).before (scan p cs).tokens := by
  revert h
  -- along the scan: each piece ends in front of the line feed, if not before
  fun_induction scan p cs with
  | case1 p => exact fun _ => scan_gap p (by decide) rest
  | case2 p c cs hgap ih =>
    intro h
    rw [List.cons_append, scan_gap p hgap, ih h]
    rfl
  | case3 p c cs hgap hcomment ih =>
    intro h
    rw [List.cons_append, scan_comment p hcomment, takeWhile_append_cons (by decide),
      dropWhile_append_cons (by decide), Place.after_cons, ih h, ← Place.after_append,
      List.takeWhile_append_dropWhile]
    rfl
  | case4 => exact fun h => by cases h
  | case5 p c cs hgap hcomment hblank run hword ih =>
    intro h
    rw [cons_append_line, scan_word p
      (forall_mem_cons_takeWhile (isInside_of_not hgap hcomment hblank) cs) (by simpa using hword)
      (takeWhile_dropWhile_line cs rest), ih h, Scan.before_behind, after_run_line]
    rfl
  | case6 p c cs hgap hcomment hblank run hword hnumber ih =>
    intro h
    rw [cons_append_line, scan_number p hnumber (takeWhile_dropWhile_line cs rest), ih h,
      Scan.before_behind, after_run_line]
    rfl
  | case7 => exact fun h => by cases h

/-! ## Tokens wherever they stand -/

def spelling (t : Token) : TokenKind × String := (t.kind, t.text)

/-- The tokens of a text are spelt alike wherever the text begins. -/
theorem scan_place (p q : Place) (cs : List Char) :
    (scan p cs).tokens.map spelling = (scan q cs).tokens.map spelling ∧
      ((scan p cs).stuck = none ↔ (scan q cs).stuck = none) := by
  fun_induction scan p cs generalizing q with
  | case1 p => rw [scan_nil]; exact ⟨rfl, Iff.rfl⟩
  | case2 p c rest hgap ih => rw [scan_gap q hgap]; exact ih _
  | case3 p c rest hgap hcomment ih => rw [scan_comment q hcomment]; exact ih _
  | case4 p c rest hgap hcomment hblank =>
    rw [scan, if_neg hgap, if_neg hcomment, if_pos hblank]
    exact ⟨rfl, by simp⟩
  | case5 p c rest hgap hcomment hblank run hword ih =>
    rw [scan, if_neg hgap, if_neg hcomment, if_neg hblank, if_pos hword]
    exact ⟨congrArg (List.cons _) (ih _).1, (ih _).2⟩
  | case6 p c rest hgap hcomment hblank run hword hnumber ih =>
    rw [scan, if_neg hgap, if_neg hcomment, if_neg hblank, if_neg hword, if_pos hnumber]
    exact ⟨congrArg (List.cons _) (ih _).1, (ih _).2⟩
  | case7 p c rest hgap hcomment hblank run hword hnumber =>
    rw [scan, if_neg hgap, if_neg hcomment, if_neg hblank, if_neg hword, if_neg hnumber]
    exact ⟨rfl, by simp⟩

/-- A text behind a line that has tokens: the tokens of both, one row behind the other. -/
theorem ofText_line {s : String} {ts : List Token} (h : ofText s = .ok ts) (s' : String)
    (us : List Token) :
    ofText (s ++ "\n" ++ s') = .ok us ↔ ∃ vs, us = ts ++ vs ∧
      scan ((Place.start.after s.toList).next '\n') s'.toList = ⟨vs, none⟩ := by
  have hscan := ofText_eq_ok_iff.mp h
  have hline := scan_append_line Place.start s.toList s'.toList (by rw [hscan])
  rw [hscan] at hline
  have hchars : (s ++ "\n" ++ s').toList = s.toList ++ '\n' :: s'.toList := by simp
  rw [ofText_eq_ok_iff, hchars, hline]
  unfold Scan.before
  constructor
  · intro heq
    obtain ⟨htokens, hstuck⟩ := Scan.mk.inj heq
    exact ⟨_, htokens.symm, congrArg (Scan.mk _) hstuck⟩
  · rintro ⟨vs, rfl, heq⟩
    rw [heq]

end Token

/-! ## Groups of tokens -/

/-- Only the spelling of a group counts, not its place. -/
theorem Group.of_spelling {ts us : List Token} {p : Program} (h : Group ts p)
    (heq : ts.map Token.spelling = us.map Token.spelling) : Group us p := by
  cases h with
  | word kind meaning plain =>
    obtain ⟨u, us, rfl, hfirst, hrest⟩ := List.map_eq_cons_iff.mp heq.symm
    obtain rfl : us = [] := List.map_eq_nil_iff.mp hrest
    obtain ⟨hkind, htext⟩ := Prod.mk.inj hfirst
    exact .word (hkind.trans kind) (htext ▸ meaning) plain
  | @operand t first m op n kind meaning plain numberKind value =>
    obtain ⟨u, us, rfl, hfirst, hrest⟩ := List.map_eq_cons_iff.mp heq.symm
    obtain ⟨number, us, rfl, hsecond, hrest⟩ := List.map_eq_cons_iff.mp hrest
    obtain rfl : us = [] := List.map_eq_nil_iff.mp hrest
    obtain ⟨hkind, htext⟩ := Prod.mk.inj hfirst
    obtain ⟨hkind', htext'⟩ := Prod.mk.inj hsecond
    have hvalue : number.value = .ok n := by
      unfold Token.value at value ⊢
      rw [htext', value]
    exact .operand (hkind.trans kind) (htext ▸ meaning) plain (hkind'.trans numberKind) hvalue

theorem Spells.of_spelling {ts us : List Token} {p : Program} (h : Spells ts p)
    (heq : ts.map Token.spelling = us.map Token.spelling) : Spells us p := by
  induction h generalizing us with
  | nil =>
    obtain rfl : us = [] := List.map_eq_nil_iff.mp heq.symm
    exact .nil
  | cons first _ ih =>
    rw [List.map_append] at heq
    obtain ⟨group, rest, rfl, hgroup, hrest⟩ := List.map_eq_append_iff.mp heq.symm
    exact .cons (first.of_spelling hgroup.symm) (ih hrest.symm)

/-- A meaning that ends in an opcode with an operand takes one. -/
theorem not_isPlain_append (m : Word.Meaning) (op : Opcode) :
    ¬ Word.Meaning.IsPlain (m ++ [(op, .immediate)]) := fun h =>
  h (op, .immediate) (List.mem_append_right m List.mem_cons_self) rfl

/-- The first token tells where a group ends, and its tokens what it spells. -/
theorem Group.unique {group group' rest rest' : List Token} {p p' : Program} (h : Group group p)
    (h' : Group group' p') (heq : group ++ rest = group' ++ rest') :
    group = group' ∧ p = p' ∧ rest = rest' := by
  cases h with
  | word kind meaning plain =>
    cases h' with
    | word kind' meaning' plain' =>
      obtain ⟨rfl, hrest⟩ := List.cons.inj heq
      obtain rfl := Option.some.inj (meaning.symm.trans meaning')
      exact ⟨rfl, rfl, hrest⟩
    | operand kind' meaning' =>
      obtain ⟨rfl, -⟩ := List.cons.inj heq
      obtain rfl := Option.some.inj (meaning.symm.trans meaning')
      exact absurd plain (not_isPlain_append _ _)
  | operand kind meaning plain numberKind value =>
    cases h' with
    | word kind' meaning' plain' =>
      obtain ⟨rfl, -⟩ := List.cons.inj heq
      obtain rfl := Option.some.inj (meaning'.symm.trans meaning)
      exact absurd plain' (not_isPlain_append _ _)
    | operand kind' meaning' plain' numberKind' value' =>
      obtain ⟨rfl, htail⟩ := List.cons.inj heq
      obtain ⟨rfl, hrest⟩ := List.cons.inj htail
      have hmeaning := Option.some.inj (meaning.symm.trans meaning')
      obtain ⟨rfl, hunit⟩ := List.append_inj' hmeaning rfl
      obtain ⟨rfl, -⟩ := Prod.mk.inj (List.cons.inj hunit).1
      obtain rfl := Except.ok.inj (value.symm.trans value')
      exact ⟨rfl, rfl, hrest⟩

theorem Spells.of_group_append {group rest : List Token} {p q : Program} (hgroup : Group group p)
    (h : Spells (group ++ rest) q) : ∃ q', Spells rest q' ∧ q = p ++ q' := by
  generalize hts : group ++ rest = ts at h
  cases h with
  | nil =>
    obtain ⟨rfl, -⟩ := List.append_eq_nil_iff.mp hts
    cases hgroup
  | cons first others =>
    obtain ⟨rfl, rfl, rfl⟩ := hgroup.unique first hts
    exact ⟨_, others, rfl⟩

/-- What is spelt behind a program follows it. -/
theorem Spells.append_iff {ts us : List Token} {p q : Program} (h : Spells ts p) :
    Spells (ts ++ us) q ↔ ∃ p', Spells us p' ∧ q = p ++ p' := by
  constructor
  · intro hq
    induction h generalizing q with
    | nil => exact ⟨q, hq, rfl⟩
    | cons first _ ih =>
      rw [List.append_assoc] at hq
      obtain ⟨q', hq', rfl⟩ := Spells.of_group_append first hq
      obtain ⟨p', hp', rfl⟩ := ih hq'
      exact ⟨p', hp', (List.append_assoc ..).symm⟩
  · rintro ⟨p', hp', rfl⟩
    exact h.append hp'

/-! ## Programs line by line -/

namespace Program

theorem ofText_eq_ok_iff {s : String} {p : Program} :
    ofText s = .ok p ↔ ∃ ts, Token.ofText s = .ok ts ∧ Spells ts p := by
  constructor
  · intro h
    cases hts : Token.ofText s with
    | error f =>
      unfold ofText at h
      rw [hts] at h
      cases h
    | ok ts =>
      rw [ofText_of_tokens hts] at h
      exact ⟨ts, rfl, ofTokens_eq_ok_iff.mp h⟩
  · rintro ⟨ts, hts, hspells⟩
    rw [ofText_of_tokens hts]
    exact ofTokens_eq_ok_iff.mpr hspells

/-- Behind a text that is a program, the program of the next text follows. -/
theorem ofText_line {s : String} {p : Program} (h : ofText s = .ok p) (s' : String)
    (q : Program) :
    ofText (s ++ "\n" ++ s') = .ok q ↔ ∃ p', ofText s' = .ok p' ∧ q = p ++ p' := by
  obtain ⟨ts, hts, hp⟩ := ofText_eq_ok_iff.mp h
  let behind := (Place.start.after s.toList).next '\n'
  obtain ⟨htokens, hstuck⟩ := Token.scan_place behind Place.start s'.toList
  constructor
  · intro hq
    obtain ⟨us, hus, hspells⟩ := ofText_eq_ok_iff.mp hq
    obtain ⟨vs, rfl, hscan⟩ := (Token.ofText_line hts s' us).mp hus
    obtain ⟨p', hp', rfl⟩ := hp.append_iff.mp hspells
    rw [hscan] at htokens hstuck
    have hvs : Token.ofText s' = .ok (Token.scan Place.start s'.toList).tokens :=
      Token.ofText_eq_ok_iff.mpr (congrArg (Token.Scan.mk _) (hstuck.mp rfl))
    exact ⟨p', ofText_eq_ok_iff.mpr ⟨_, hvs, hp'.of_spelling htokens⟩, rfl⟩
  · rintro ⟨p', hp', rfl⟩
    obtain ⟨us, hus, hspells⟩ := ofText_eq_ok_iff.mp hp'
    rw [Token.ofText_eq_ok_iff.mp hus] at htokens hstuck
    have hvs : Token.ofText (s ++ "\n" ++ s') =
        .ok (ts ++ (Token.scan behind s'.toList).tokens) :=
      (Token.ofText_line hts s' _).mpr ⟨_, rfl, congrArg (Token.Scan.mk _) (hstuck.mpr rfl)⟩
    exact ofText_eq_ok_iff.mpr ⟨_, hvs, hp.append (hspells.of_spelling htokens.symm)⟩

end Program

/-! ## Runs line by line -/

namespace Workspace

/-- A text that is a program by itself: with another text below it, it is a program iff that text
is, and then the two programs follow each other.  Running the two in turn leads where running them
together leads, unless the limit cuts the run off. -/
theorem execute_line_by_line {t₁ : String} {p₁ : Program} (h : Program.ofText t₁ = .ok p₁)
    (t₂ : String) :
    (∀ q, Program.ofText (t₁ ++ "\n" ++ t₂) = .ok q ↔
        ∃ p₂, Program.ofText t₂ = .ok p₂ ∧ q = p₁ ++ p₂) ∧
      ∀ (w : Workspace) (limit : Option Datum) (n : Nat) (p₂ : Program),
        (limit.getD w.limit).limit = .ok n → Program.ofText t₂ = .ok p₂ →
        p₁.length + p₂.length ≤ n → ∀ traced₁ traced₂ traced,
        let first := w.perform (.execute (.text t₁) traced₁ limit)
        let second := first.1.perform (.execute (.text t₂) traced₂ limit)
        let whole := w.perform (.execute (.text (t₁ ++ "\n" ++ t₂)) traced limit)
        second.1.state = whole.1.state ∧ whole.1.state = w.state.after (p₁ ++ p₂) ∧
          ∃ o₁ o₂ o, first.2 = .ok (.outcome o₁) ∧ second.2 = .ok (.outcome o₂) ∧
            whole.2 = .ok (.outcome o) ∧ o₁.status = .completed ∧ o₂.status = .completed ∧
            o.status = .completed := by
  refine ⟨fun q => Program.ofText_line h t₂ q, ?_⟩
  intro w limit n p₂ hlimit h₂ hlength traced₁ traced₂ traced first second whole
  have hwhole : Program.ofText (t₁ ++ "\n" ++ t₂) = .ok (p₁ ++ p₂) :=
    (Program.ofText_line h t₂ _).mpr ⟨p₂, h₂, rfl⟩
  obtain ⟨o₁, hfirst, hfinal₁, hstatus₁, -⟩ :=
    w.perform_execute_text h hlimit (by omega) traced₁
  -- the first run leaves the limit as it is
  obtain ⟨o₂, hsecond, hfinal₂, hstatus₂, -⟩ :=
    (w.settle (.executed o₁)).perform_execute_text h₂ hlimit (by omega) traced₂
  obtain ⟨o, hboth, hfinal, hstatus, -⟩ :=
    w.perform_execute_text hwhole hlimit (by rw [List.length_append]; omega) traced
  have hsecond' : second = ((w.settle (.executed o₁)).settle (.executed o₂), .ok (.outcome o₂)) := by
    show (w.perform _).1.perform _ = _
    rw [hfirst, hsecond]
  have hstate : whole.1.state = w.state.after (p₁ ++ p₂) := by
    rw [show whole = _ from hboth]
    exact hfinal
  refine ⟨?_, hstate, o₁, o₂, o, ?_, ?_, ?_, hstatus₁, hstatus₂, hstatus⟩
  · rw [hstate, hsecond', State.after_append, ← hfinal₁]
    exact hfinal₂
  · rw [show first = _ from hfirst]
  · rw [hsecond']
  · rw [show whole = _ from hboth]

/-- A word with a comment right behind it, and on the next line a word with its operand: the comment
ends with its line. -/
theorem execute_line_by_line_comment :
    let t₁ := "ת?;א"
    let t₂ := "ב! +12"
    let p₁ : Program := [⟨.tav, .query, 0⟩]
    let p₂ : Program := [⟨.bet, .immediate, 12⟩]
    let w : Workspace := ⟨State.zero, .whole 2, #[]⟩
    let run (t : String) : Call := .execute (.text t) false none
    (Program.ofText t₁ = .ok p₁ ∧ Program.ofText t₂ = .ok p₂ ∧
        ((none : Option Datum).getD w.limit).limit = .ok 2 ∧ p₁.length + p₂.length ≤ 2) ∧
      Program.ofText (t₁ ++ "\n" ++ t₂) = .ok (p₁ ++ p₂) ∧
      ((w.perform (run t₁)).1.perform (run t₂)).1.state =
        (w.perform (run (t₁ ++ "\n" ++ t₂))).1.state := by
  intro t₁ t₂ p₁ p₂ w run
  have h₁ : Program.ofText t₁ = .ok p₁ := by
    have hchars : t₁.toList = 'ת' :: ['?'] ++ ';' :: ['א'] := by decide
    refine Program.ofText_eq_ok_iff.mpr ⟨[⟨.word, "ת?", some ⟨1, 1⟩⟩], ?_, ?_⟩
    · rw [Token.ofText_eq_ok_iff, hchars, Token.scan_word _ (List.all_eq_true.mp (by decide))
        (by decide) rfl, Token.scan_comment _ (by decide)]
      show (Token.scan _ []).behind _ = _
      rw [Token.scan_nil]
      rfl
    · exact .cons (.word (m := [(.tav, .query)]) rfl (by decide) (by decide)) .nil
  have h₂ : Program.ofText t₂ = .ok p₂ := by
    have hchars : t₂.toList = 'ב' :: ['!'] ++ ' ' :: (['+', '1', '2'] ++ []) := by decide
    refine Program.ofText_eq_ok_iff.mpr
      ⟨[⟨.word, "ב!", some ⟨1, 1⟩⟩, ⟨.number, "+12", some ⟨1, 4⟩⟩], ?_, ?_⟩
    · rw [Token.ofText_eq_ok_iff, hchars, Token.scan_word _ (List.all_eq_true.mp (by decide))
        (by decide) rfl, Token.scan_gap _ (by decide), Token.scan_number _ (by decide) rfl,
        Token.scan_nil]
      rfl
    · exact .cons (.operand (m := []) rfl (by decide) (by decide) rfl rfl) .nil
  have hlimit : ((none : Option Datum).getD w.limit).limit = .ok 2 := rfl
  obtain ⟨htext, hruns⟩ := execute_line_by_line h₁ t₂
  obtain ⟨hstate, -⟩ := hruns w none 2 p₂ hlimit h₂ (by decide) false false false
  exact ⟨⟨h₁, h₂, hlimit, by decide⟩, (htext _).mpr ⟨p₂, h₂, rfl⟩, hstate⟩

end Workspace

end LetterMachine
