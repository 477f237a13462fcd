import LetterMachine.Proofs.Cuts

/-!
# Where lexing fails

A text is refused at the first offset where no terminal matches.  How many tokens stand in front of
it is found out by making tokens of the text up to there, in a call inside the call that failed.  Cut
off at that offset, the text is lexed as it was: no number, word or comment is the shorter for it, as
each of them ended in front of the cut.  So the inner call has tokens, and calls no further.
-/

namespace LetterMachine.Token

open LetterMachine.Text

/-! ## A cut behind what a terminal takes -/

/-- What is taken of a text is taken of every beginning of the text that goes at least so far. -/
theorem takeWhile_front {set : Char → Bool} {cs front behind : List Char}
    (h : cs.dropWhile set = front ++ behind) :
    (cs.takeWhile set ++ front).takeWhile set = cs.takeWhile set ∧
      (cs.takeWhile set ++ front).dropWhile set = front := by
  have hall : ∀ c ∈ cs.takeWhile set, set c := fun _ hc => List.mem_takeWhile_imp hc
  have hend : front.takeWhile set = [] :=
    takeWhile_eq_nil_of_append (h ▸ takeWhile_dropWhile set cs)
  exact ⟨takeWhile_run hall hend, dropWhile_run hall hend⟩

namespace Terminal

/-- A terminal that leaves a text with an end takes the same if the text has not that end. -/
theorem match?_front {t : Terminal} {taken front behind : List Char}
    (h : t.pattern.match? (taken ++ (front ++ behind)) = some ⟨taken, front ++ behind⟩) :
    t.pattern.match? (taken ++ front) = some ⟨taken, front⟩ := by
  cases t with
  | number =>
    rw [match?_number] at h ⊢
    split at h
    · next hnumber =>
      obtain ⟨htaken, hrest⟩ := Split.mk.inj (Option.some.inj h)
      obtain ⟨htake, hdrop⟩ := takeWhile_front hrest
      rw [htaken] at htake hdrop hnumber
      rw [htake, hdrop, if_pos hnumber]
    · cases h
  | word | comment | gap =>
    obtain ⟨c, rest, -, hc, hsplit⟩ := Pattern.of_match?_both_one_many h
    obtain ⟨rfl, hrest⟩ := Split.mk.inj hsplit
    obtain ⟨htake, hdrop⟩ := takeWhile_front hrest.symm
    unfold pattern
    rw [List.cons_append, Pattern.match?_both_one_many, if_pos hc, htake, hdrop]

theorem taken_append_rest {t : Terminal} {cs : List Char} {split : Split}
    (h : t.pattern.match? cs = some split) : split.taken ++ split.rest = cs := by
  cases t with
  | number =>
    rw [match?_number] at h
    split at h
    · obtain rfl := Option.some.inj h
      exact List.takeWhile_append_dropWhile
    · cases h
  | word | comment | gap =>
    obtain ⟨c, rest, rfl, -, rfl⟩ := Pattern.of_match?_both_one_many h
    exact congrArg (c :: ·) List.takeWhile_append_dropWhile

end Terminal

/-! ## As far as terminals match -/

/-- Lexing a text comes from one place to another, over a front with these tokens, to what stands
behind it.  Each terminal is matched against all of the text that is left. -/
inductive Passes (order : List Terminal) (behind : List Char) :
    Place → List Char → Place → List Token → Prop where
  | here {p : Place} : Passes order behind p [] p []
  | passed {p q : Place} {t : Terminal} {taken front : List Char} {ts : List Token}
      (matched : Terminal.first? order (taken ++ (front ++ behind)) =
        some (t, ⟨taken, front ++ behind⟩))
      (kind : t.kind? = none) (others : Passes order behind (p.after taken) front q ts) :
      Passes order behind p (taken ++ front) q ts
  | token {p q : Place} {t : Terminal} {taken front : List Char} {ts : List Token} {k : TokenKind}
      (matched : Terminal.first? order (taken ++ (front ++ behind)) =
        some (t, ⟨taken, front ++ behind⟩))
      (kind : t.kind? = some k) (others : Passes order behind (p.after taken) front q ts) :
      Passes order behind p (taken ++ front) q (⟨k, String.ofList taken, some p⟩ :: ts)

namespace Passes

variable {order : List Terminal} {behind front : List Char} {p q : Place} {ts : List Token}

theorem place (h : Passes order behind p front q ts) : q = p.after front := by
  induction h with
  | here => rfl
  | passed _ _ _ ih | token _ _ _ ih => rw [ih, Place.after_append]

/-- The text cut off where lexing has come to has the tokens so far. -/
theorem scan_front (h : Passes order behind p front q ts) : scan p front = ⟨ts, none⟩ := by
  induction h with
  | here => exact scan_nil _
  | passed matched kind _ ih | token matched kind _ ih =>
    rw [scan_of_match? (Terminal.match?_front (match?_of_first? matched)), kind]
    simp [ih, Scan.behind]

theorem scan_append (h : Passes order behind p front q ts) :
    scan p (front ++ behind) = (scan q behind).before ts := by
  induction h with
  | here => rfl
  | passed matched kind _ ih | token matched kind _ ih =>
    rw [List.append_assoc, scan_of_match? (match?_of_first? matched), kind]
    simp [ih, Scan.before, Scan.behind]

theorem eq_nil_or_step (h : Passes order behind p front q ts) :
    front = [] ∨ ∃ t taken rest others, front = taken ++ rest ∧
      Terminal.first? order (front ++ behind) = some (t, ⟨taken, rest ++ behind⟩) ∧
      Passes order behind (p.after taken) rest q others := by
  cases h with
  | here => exact .inl rfl
  | passed matched _ others | token matched _ others =>
    rw [← List.append_assoc] at matched
    exact .inr ⟨_, _, _, _, rfl, matched, others⟩

/-- Lexing a text fails at one place only: it passes the same front whenever it comes there. -/
theorem unique (h : Passes order behind p front q ts)
    (hbehind : Terminal.first? order behind = none) {behind' front' : List Char} {q' : Place}
    {ts' : List Token} (h' : Passes order behind' p front' q' ts')
    (hbehind' : Terminal.first? order behind' = none) (heq : front ++ behind = front' ++ behind') :
    front = front' := by
  -- along the first way, with the second one free: both take the same in each step
  induction h generalizing front' ts' with
  | here =>
    rcases h'.eq_nil_or_step with rfl | ⟨t, taken, rest, others, rfl, matched, -⟩
    · rfl
    · rw [← heq, List.nil_append, hbehind] at matched
      cases matched
  | passed matched _ _ ih | token matched _ _ ih =>
    rw [← List.append_assoc] at matched
    rcases h'.eq_nil_or_step with rfl | ⟨t', taken', rest', others', rfl, matched', hothers'⟩
    · rw [heq, List.nil_append, hbehind'] at matched
      cases matched
    · rw [← heq, matched] at matched'
      obtain ⟨rfl, hsplit⟩ := Prod.mk.inj (Option.some.inj matched')
      obtain ⟨rfl, hrest⟩ := Split.mk.inj hsplit
      rw [ih hothers' hrest]

end Passes

/-- Lexing that gets stuck has passed all of the text in front of the place. -/
theorem exists_passes_of_lexes {order : List Terminal} {p : Place} {cs : List Char} {s : Scan}
    (h : Lexes order p cs s) (hstuck : s.stuck.isSome) :
    ∃ front behind q, cs = front ++ behind ∧ behind ≠ [] ∧
      Terminal.first? order behind = none ∧ Passes order behind p front q s.tokens := by
  induction h with
  | done => cases hstuck
  | @stuck p c cs unmatched => exact ⟨[], c :: cs, p, rfl, List.cons_ne_nil c cs, unmatched, .here⟩
  | @passed p cs t split s matched kind _ ih =>
    obtain ⟨front, behind, q, hrest, hne, hnone, hpasses⟩ := ih hstuck
    have hcs := Terminal.taken_append_rest (match?_of_first? matched)
    obtain ⟨taken, rest⟩ := split
    subst hrest hcs
    exact ⟨taken ++ front, behind, q, (List.append_assoc ..).symm, hne, hnone,
      .passed matched kind hpasses⟩
  | @token p cs t split s k matched kind _ ih =>
    obtain ⟨front, behind, q, hrest, hne, hnone, hpasses⟩ := ih hstuck
    have hcs := Terminal.taken_append_rest (match?_of_first? matched)
    obtain ⟨taken, rest⟩ := split
    subst hrest hcs
    exact ⟨taken ++ front, behind, q, (List.append_assoc ..).symm, hne, hnone,
      .token matched kind hpasses⟩

/-! ## The failure of a text -/

/-- Lexing a text first fails at an offset: it comes to the place there with these tokens, and no
terminal matches what is left. -/
structure FailsAt (order : List Terminal) (cs : List Char) (n : Nat) (p : Place)
    (ts : List Token) : Prop where
  passes : Passes order (cs.drop n) Place.start (cs.take n) p ts
  inside : n < cs.length
  unmatched : Terminal.first? order (cs.drop n) = none

/-- The refusal of what stands at an offset and a place, with a number of tokens in front. -/
def malformedAt (cs : List Char) (n : Nat) (p : Place) (position : Nat) : Fault :=
  .assembly ⟨.malformedToken, String.ofList (refused (cs.drop n)), position, some p⟩

/-- Making tokens of a text, by so many calls one inside the other.  Where lexing fails at once, no
token stands in front; where it fails later, an inner call makes the tokens of the text up to there,
which are counted, and what the inner call is refused with is what the text is refused with. -/
inductive Tokenizes (order : List Terminal) : Nat → List Char → Answer (List Token) → Prop where
  | lexed {cs : List Char} {ts : List Token} (lexes : Lexes order Place.start cs ⟨ts, none⟩) :
      Tokenizes order 0 cs (.ok ts)
  | atOnce {cs : List Char} {p : Place} {ts : List Token} (fails : FailsAt order cs 0 p ts) :
      Tokenizes order 0 cs (.error (malformedAt cs 0 p 0))
  | counted {depth : Nat} {cs : List Char} {n : Nat} {p : Place} {ts inFront : List Token}
      (fails : FailsAt order cs n p ts) (later : n ≠ 0)
      (inner : Tokenizes order depth (cs.take n) (.ok inFront)) :
      Tokenizes order (depth + 1) cs (.error (malformedAt cs n p inFront.length))
  | failedAgain {depth : Nat} {cs : List Char} {n : Nat} {p : Place} {ts : List Token} {f : Fault}
      (fails : FailsAt order cs n p ts) (later : n ≠ 0)
      (inner : Tokenizes order depth (cs.take n) (.error f)) :
      Tokenizes order (depth + 1) cs (.error f)

section

variable {order : List Terminal} (complete : ∀ t, t ∈ order)
include complete

theorem FailsAt.scan {cs : List Char} {n : Nat} {p : Place} {ts : List Token}
    (h : FailsAt order cs n p ts) :
    scan Place.start cs = ⟨ts, some (refused (cs.drop n), p)⟩ := by
  have hstuck : Token.scan p (cs.drop n) = ⟨[], some (refused (cs.drop n), p)⟩ := by
    obtain ⟨c, behind, hdrop⟩ := List.exists_cons_of_ne_nil (List.drop_eq_nil_iff.not.mpr
      (Nat.not_le.mpr h.inside))
    have hunmatched := h.unmatched
    rw [hdrop] at hunmatched ⊢
    exact scan_of_unmatched complete hunmatched p
  have hscan := h.passes.scan_append
  rw [List.take_append_drop, hstuck] at hscan
  rw [hscan, Scan.before, List.append_nil]

/-- Lexing comes to the end of a text or fails in it. -/
theorem unstuck_or_failsAt (cs : List Char) :
    (∃ ts, Token.scan Place.start cs = ⟨ts, none⟩) ∨ ∃ n p ts, FailsAt order cs n p ts := by
  cases hstuck : (Token.scan Place.start cs).stuck with
  | none => exact .inl ⟨_, congrArg (Scan.mk _) hstuck⟩
  | some place =>
    obtain ⟨front, behind, p, rfl, hne, hnone, hpasses⟩ :=
      exists_passes_of_lexes (lexes_scan complete Place.start cs) (by rw [hstuck]; rfl)
    refine .inr ⟨front.length, p, (Token.scan Place.start (front ++ behind)).tokens, ?_, ?_, ?_⟩
    · rwa [List.drop_left, List.take_left]
    · rw [List.length_append]
      exact Nat.lt_add_of_pos_right (List.length_pos_iff.mpr hne)
    · rwa [List.drop_left]

theorem FailsAt.ofText {s : String} {n : Nat} {p : Place} {ts : List Token}
    (h : FailsAt order s.toList n p ts) :
    ofText s = .error (malformedAt s.toList n p ts.length) := by
  unfold Token.ofText
  rw [h.scan complete]
  rfl

/-- A text that lexes throughout needs no inner call. -/
theorem tokenizes_of_unstuck {cs : List Char} {ts : List Token}
    (h : Token.scan Place.start cs = ⟨ts, none⟩) (depth : Nat) (a : Answer (List Token)) :
    Tokenizes order depth cs a ↔ depth = 0 ∧ a = .ok ts := by
  constructor
  · rintro (lexes | fails | ⟨fails, -, -⟩ | ⟨fails, -, -⟩)
    · have hscan := eq_scan_of_lexes complete lexes
      rw [h] at hscan
      exact ⟨rfl, congrArg Except.ok (Scan.mk.inj hscan).1⟩
    all_goals
      have hscan := fails.scan complete
      rw [h] at hscan
      cases (Scan.mk.inj hscan).2
  · rintro ⟨rfl, rfl⟩
    exact .lexed (h ▸ lexes_scan complete Place.start cs)

end

namespace FailsAt

variable {order : List Terminal} {cs : List Char} {n : Nat} {p : Place} {ts : List Token}

theorem place (h : FailsAt order cs n p ts) : p = placeBehind (cs.take n) := by
  rw [h.passes.place, after_start]

/-- Nothing stands in front of the beginning of a text. -/
theorem tokens_of_zero (h : FailsAt order cs 0 p ts) : ts = [] := by
  have hfront := h.passes.scan_front
  rw [List.take_zero, scan_nil] at hfront
  exact (Scan.mk.inj hfront).1.symm

theorem unique (h : FailsAt order cs n p ts) {n' : Nat} {p' : Place} {ts' : List Token}
    (h' : FailsAt order cs n' p' ts') : n' = n ∧ p' = p := by
  have hsplit : cs.take n ++ cs.drop n = cs.take n' ++ cs.drop n' := by
    rw [List.take_append_drop, List.take_append_drop]
  have hfront := h.passes.unique h.unmatched h'.passes h'.unmatched hsplit
  have hlength := congrArg List.length hfront
  rw [List.length_take_of_le (Nat.le_of_lt h.inside),
    List.length_take_of_le (Nat.le_of_lt h'.inside)] at hlength
  exact ⟨hlength.symm, by rw [h.place, h'.place, hfront]⟩

/-- A text that fails behind its beginning takes one inner call, which has tokens. -/
theorem tokenizes (complete : ∀ t, t ∈ order) (h : FailsAt order cs n p ts) (depth : Nat)
    (a : Answer (List Token)) :
    Tokenizes order depth cs a ↔
      depth = (if n = 0 then 0 else 1) ∧ a = .error (malformedAt cs n p ts.length) := by
  have hinner := tokenizes_of_unstuck complete h.passes.scan_front
  constructor
  · rintro (lexes | fails | ⟨fails, later, inner⟩ | ⟨fails, later, inner⟩)
    · have hlexed := eq_scan_of_lexes complete lexes
      rw [h.scan complete] at hlexed
      cases (Scan.mk.inj hlexed).2
    · obtain ⟨rfl, rfl⟩ := h.unique fails
      rw [h.tokens_of_zero]
      exact ⟨rfl, rfl⟩
    · obtain ⟨rfl, rfl⟩ := h.unique fails
      obtain ⟨rfl, hok⟩ := (hinner _ _).mp inner
      obtain rfl := Except.ok.inj hok
      exact ⟨(if_neg later).symm, rfl⟩
    -- the inner call is not refused
    · obtain ⟨rfl, rfl⟩ := h.unique fails
      cases ((hinner _ _).mp inner).2
  · rintro ⟨rfl, rfl⟩
    by_cases hn : n = 0
    · subst hn
      obtain rfl := h.tokens_of_zero
      exact .atOnce h
    · rw [if_neg hn]
      exact .counted h hn ((hinner 0 (.ok ts)).mpr ⟨rfl, rfl⟩)

end FailsAt

/-- What is refused: the characters of a token in a row, or the one that stands there. -/
theorem refused_eq (cs : List Char) :
    refused cs = if cs.takeWhile isInside = [] then cs.take 1 else cs.takeWhile isInside := by
  unfold refused
  cases cs with
  | nil => rfl
  | cons c cs =>
    rw [Pattern.match?_both_one_many]
    by_cases hc : isInside c
    · rw [if_pos hc, List.takeWhile_cons_of_pos hc, if_neg (List.cons_ne_nil _ _)]
    · rw [if_neg hc, List.takeWhile_cons_of_neg hc, if_pos rfl]

/-- A text is refused iff lexing fails at some offset.  The text up to there then has the tokens that
were lexed in front of the offset, so that the inner call which counts them is answered and makes no
call itself.  The refusal tells their number, the place of the offset, and the run of characters of a
token that stands there, or the one character if there is no run. -/
theorem tokenizes_iff_of_failsAt {order : List Terminal} (complete : ∀ t, t ∈ order) (s : String) :
    ((∃ f, ofText s = .error f) ↔ ∃ n p ts, FailsAt order s.toList n p ts) ∧
      (∀ depth a, Tokenizes order depth s.toList a → depth ≤ 1 ∧ a = ofText s) ∧
      ∀ n p ts, FailsAt order s.toList n p ts →
        let front := s.toList.take n
        let behind := s.toList.drop n
        let run := behind.takeWhile isInside
        ofText (String.ofList front) = .ok ts ∧
          (∀ depth a, Tokenizes order depth front a ↔ depth = 0 ∧ a = .ok ts) ∧
          (∀ depth a, Tokenizes order depth s.toList a ↔
            depth = (if n = 0 then 0 else 1) ∧ a = ofText s) ∧
          ofText s = .error (.assembly ⟨.malformedToken,
            String.ofList (if run = [] then behind.take 1 else run), ts.length,
            some (placeBehind front)⟩) := by
  refine ⟨⟨fun ⟨f, hf⟩ => ?_, fun ⟨n, p, ts, h⟩ => ⟨_, h.ofText complete⟩⟩, ?_, ?_⟩
  · refine (unstuck_or_failsAt complete s.toList).resolve_left fun ⟨ts, hscan⟩ => ?_
    rw [ofText_eq_ok_iff.mpr hscan] at hf
    cases hf
  · intro depth a ha
    rcases unstuck_or_failsAt complete s.toList with ⟨ts, hscan⟩ | ⟨n, p, ts, h⟩
    · obtain ⟨rfl, rfl⟩ := (tokenizes_of_unstuck complete hscan depth a).mp ha
      exact ⟨Nat.zero_le 1, (ofText_eq_ok_iff.mpr hscan).symm⟩
    · obtain ⟨rfl, rfl⟩ := (h.tokenizes complete depth a).mp ha
      exact ⟨by split <;> decide, (h.ofText complete).symm⟩
  · intro n p ts h front behind run
    refine ⟨?_, tokenizes_of_unstuck complete h.passes.scan_front, ?_, ?_⟩
    · rw [ofText_eq_ok_iff, String.toList_ofList]
      exact h.passes.scan_front
    · rw [h.ofText complete]
      exact h.tokenizes complete
    · rw [h.ofText complete, malformedAt, refused_eq, h.place]

/-- A word and a comment that hides a sign stand in front of a number with a letter at its end. -/
theorem tokenizes_iff_of_failsAt_comment :
    let order : List Terminal := [.number, .word, .comment, .gap]
    let s := "ב;+\n5x א"
    let ts : List Token := [⟨.word, "ב", some ⟨1, 1⟩⟩]
    ((∀ t, t ∈ order) ∧ FailsAt order s.toList 4 ⟨2, 1⟩ ts) ∧
      ofText "ב;+\n" = .ok ts ∧ Tokenizes order 1 s.toList (ofText s) ∧
      ofText s = .error (.assembly ⟨.malformedToken, "5x", 1, some ⟨2, 1⟩⟩) := by
  intro order s ts
  have complete : ∀ t, t ∈ order := by
    intro t
    cases t <;> decide
  have hpasses : Passes order ['5', 'x', ' ', 'א'] Place.start
      (['ב'] ++ ([';', '+'] ++ (['\n'] ++ []))) ⟨2, 1⟩ ts :=
    .token (t := .word) (k := .word) rfl rfl
      (.passed (t := .comment) rfl rfl (.passed (t := .gap) rfl rfl .here))
  have hchars : s.toList = ['ב', ';', '+', '\n', '5', 'x', ' ', 'א'] := by decide
  have hfails : FailsAt order s.toList 4 ⟨2, 1⟩ ts := by
    rw [hchars]
    exact ⟨hpasses, by decide, rfl⟩
  obtain ⟨-, -, h⟩ := tokenizes_iff_of_failsAt complete s
  obtain ⟨hfront, -, hdepth, hrefused⟩ := h 4 ⟨2, 1⟩ ts hfails
  have htext : String.ofList (s.toList.take 4) = "ב;+\n" := by decide
  have hplace : placeBehind (s.toList.take 4) = ⟨2, 1⟩ := by decide
  rw [htext] at hfront
  rw [hplace, hchars] at hrefused
  exact ⟨⟨complete, hfails⟩, hfront, (hdepth 1 _).mpr ⟨rfl, rfl⟩, hrefused⟩

end LetterMachine.Token
