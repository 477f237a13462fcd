import LetterMachine.Proofs.Display
import LetterMachine.Proofs.Lines
import LetterMachine.Proofs.Listing
import LetterMachine.Proofs.Words

/-!
# Items and their text

A program may be handed over as items, one by one.  Items spell the program that their written forms
spell one below the other: an item that is one token keeps its spelling, an instruction is linked as
the group of tokens that spells it, and what begins like a number without being one is no word.  A
row that holds nothing but instructions is the program that it spells.
-/

namespace LetterMachine

open LetterMachine.Text

/-! ## Linkers that differ in places only -/

namespace Linker

/-- The same program and the same opcode that waits.  The words that opened the operand may stand in
different places. -/
structure Same (l l' : Linker) : Prop where
  program : l.program = l'.program
  waiting : l.waiting.map Prod.fst = l'.waiting.map Prod.fst

/-- Both go on with the same linker, or both are refused. -/
inductive Agree : Answer Linker → Answer Linker → Prop
  | ok {l l' : Linker} (same : l.Same l') : Agree (.ok l) (.ok l')
  | error (f f' : Fault) : Agree (.error f) (.error f')

theorem Same.refl (l : Linker) : l.Same l := ⟨rfl, rfl⟩

theorem Same.trans {l l' l'' : Linker} (h : l.Same l') (h' : l'.Same l'') : l.Same l'' :=
  ⟨h.program.trans h'.program, h.waiting.trans h'.waiting⟩

namespace Agree

variable {a b c : Answer Linker}

theorem refl (a : Answer Linker) : Agree a a := by
  cases a with
  | ok l => exact .ok (.refl l)
  | error f => exact .error f f

theorem symm (h : Agree a b) : Agree b a := by
  cases h with
  | ok same => exact .ok ⟨same.program.symm, same.waiting.symm⟩
  | error f f' => exact .error f' f

theorem trans (h : Agree a b) (h' : Agree b c) : Agree a c := by
  cases h with
  | ok same =>
    cases h' with
    | ok same' => exact .ok (same.trans same')
  | error f =>
    cases h' with
    | error _ f' => exact .error f f'

theorem bind (h : Agree a b) {next next' : Linker → Answer Linker}
    (hnext : ∀ {l l'}, l.Same l' → Agree (next l) (next' l')) :
    Agree (a.bind next) (b.bind next') := by
  cases h with
  | ok same => exact hnext same
  | error f f' => exact .error f f'

/-- Where both go on, both come to the same program. -/
theorem finish_eq_ok_iff (h : Agree a b) (p : Program) :
    a.bind finish = .ok p ↔ b.bind finish = .ok p := by
  cases h with
  | error => exact ⟨fun h => (by cases h), fun h => (by cases h)⟩
  | @ok l l' same =>
    obtain ⟨program, waiting⟩ := l
    obtain ⟨program', waiting'⟩ := l'
    obtain ⟨hprogram, hwaiting⟩ := same
    obtain rfl : program = program' := hprogram
    cases waiting with
    | none =>
      obtain rfl : waiting' = none := Option.map_eq_none_iff.mp hwaiting.symm
      exact Iff.rfl
    | some opened =>
      obtain ⟨opened', rfl, -⟩ := Option.map_eq_some_iff.mp hwaiting.symm
      exact ⟨fun h => (by cases h), fun h => (by cases h)⟩

end Agree

theorem Same.append {l l' : Linker} (h : l.Same l') (p : Program) :
    (l.append p).Same (l'.append p) where
  program := by
    show l.program ++ p.toArray = l'.program ++ p.toArray
    rw [h.program]
  waiting := h.waiting

/-- Nothing waits in either, or the same opcode in both. -/
theorem Same.waiting_cases {l l' : Linker} (h : l.Same l') :
    (l.waiting = none ∧ l'.waiting = none) ∨
      ∃ op t t', l.waiting = some (op, t) ∧ l'.waiting = some (op, t') := by
  have hwaiting := h.waiting
  cases hl : l.waiting with
  | none =>
    rw [hl] at hwaiting
    exact .inl ⟨rfl, Option.map_eq_none_iff.mp hwaiting.symm⟩
  | some opened =>
    rw [hl] at hwaiting
    obtain ⟨⟨op, t'⟩, hl', hop⟩ := Option.map_eq_some_iff.mp hwaiting.symm
    obtain rfl : op = opened.1 := hop
    exact .inr ⟨opened.1, opened.2, t', rfl, hl'⟩

theorem Same.addMeaning {l l' : Linker} (h : l.Same l') (t t' : Token) (m : Word.Meaning) :
    Agree (l.addMeaning t m) (l'.addMeaning t' m) := by
  rcases m.isPlain_or_exists with hplain | ⟨front, op, rest, rfl, hfront⟩
  · rw [addMeaning_of_isPlain l t hplain, addMeaning_of_isPlain l' t' hplain]
    exact .ok (h.append _)
  · by_cases hrest : rest = []
    · subst hrest
      rw [addMeaning_last l t hfront, addMeaning_last l' t' hfront]
      exact .ok ⟨(h.append front.instructions).program, rfl⟩
    · rw [addMeaning_inner l t hfront op hrest, addMeaning_inner l' t' hfront op hrest]
      exact .error _ _

theorem Same.feed {l l' : Linker} (h : l.Same l') {t t' : Token} (ht : t.spelling = t'.spelling) :
    Agree (l.feed (.token t)) (l'.feed (.token t')) := by
  obtain ⟨hkind, htext⟩ := Prod.mk.inj ht
  cases hcase : t.kind with
  | number =>
    rw [hcase] at hkind
    rcases h.waiting_cases with ⟨hl, hl'⟩ | ⟨op, opened, opened', hl, hl'⟩
    · rw [feed_number_of_none hcase hl, feed_number_of_none hkind.symm hl']
      exact .error _ _
    · have hvalue : t.value = t'.value := by
        unfold Token.value
        rw [htext]
      rw [feed_number_of_some hcase hl, feed_number_of_some hkind.symm hl', hvalue]
      cases t'.value with
      | error f => exact .error f f
      | ok n => exact .ok ⟨(h.append [⟨op, .immediate, n⟩]).program, rfl⟩
  | word =>
    rw [hcase] at hkind
    rcases h.waiting_cases with ⟨hl, hl'⟩ | ⟨op, opened, opened', hl, hl'⟩
    · rw [feed_word_of_none hcase hl, feed_word_of_none hkind.symm hl', htext]
      cases Word.meaning? t'.text.toList with
      | none => exact .error _ _
      | some m => exact h.addMeaning t t' m
    · rw [feed_word_of_some hcase hl, feed_word_of_some hkind.symm hl']
      exact .error _ _

theorem Same.feedAll {l l' : Linker} (h : l.Same l') {ts ts' : List Token}
    (hts : ts.map Token.spelling = ts'.map Token.spelling) :
    Agree (l.feedAll (ts.map .token)) (l'.feedAll (ts'.map .token)) := by
  induction ts generalizing l l' ts' with
  | nil =>
    obtain rfl : ts' = [] := List.map_eq_nil_iff.mp hts.symm
    exact .ok h
  | cons t ts ih =>
    obtain ⟨t', ts', rfl, ht, hrest⟩ := List.map_eq_cons_iff.mp hts.symm
    rw [List.map_cons, List.map_cons, feedAll_cons, feedAll_cons]
    exact (h.feed ht.symm).bind fun same => ih same hrest.symm

theorem Same.feedToken {l l' : Linker} (h : l.Same l') {t t' : Token}
    (ht : t.spelling = t'.spelling) :
    Agree (l.feedAll [.token t]) (l'.feedAll [.token t']) := by
  have hts : [t].map Token.spelling = [t'].map Token.spelling := congrArg ([·]) ht
  exact h.feedAll hts

/-- An instruction is linked as the group that spells it. -/
theorem Same.feedAll_group {l l' : Linker} (h : l.Same l') {i : Instruction} {group : List Token}
    (hgroup : Group group [i]) :
    Agree (l.feedAll [.instruction i]) (l'.feedAll (group.map .token)) := by
  rw [feedAll_cons]
  rcases h.waiting_cases with ⟨hl, hl'⟩ | ⟨op, opened, opened', hl, hl'⟩
  · have hfeed : l.feed (.instruction i) = .ok (l.append [i]) := by
      simp only [Linker.feed, hl, add_eq_append]
    rw [hfeed, Linker.feedAll_group hgroup hl']
    exact .ok (h.append [i])
  · have hfeed : l.feed (.instruction i) = l.blame .missingOperand opened := by
      simp only [Linker.feed, hl]
    rw [hfeed]
    -- the first token of a group is a word
    generalize [i] = p at hgroup
    cases hgroup with
    | word kind =>
      rw [List.map_cons, feedAll_cons, feed_word_of_some kind hl']
      exact .error _ _
    | operand kind =>
      rw [List.map_cons, feedAll_cons, feed_word_of_some kind hl']
      exact .error _ _

/-! ## Linkers that read text -/

/-- Links the tokens of a scan, unless the scan is stuck. -/
def feedScan (l : Linker) : Token.Scan → Answer Linker
  | ⟨tokens, none⟩ => l.feedAll (tokens.map .token)
  | ⟨tokens, some (run, p)⟩ =>
    .error (.assembly ⟨.malformedToken, String.ofList run, tokens.length, some p⟩)

theorem feedScan_of_stuck (l : Linker) {s : Token.Scan} (h : s.stuck ≠ none) :
    ∃ f, l.feedScan s = .error f := by
  obtain ⟨tokens, _ | ⟨run, p⟩⟩ := s
  · exact absurd rfl h
  · exact ⟨_, rfl⟩

theorem feedScan_of_unstuck (l : Linker) {s : Token.Scan} (h : s.stuck = none) :
    l.feedScan s = l.feedAll (s.tokens.map .token) := by
  obtain ⟨tokens, stuck⟩ := s
  obtain rfl : stuck = none := h
  rfl

end Linker

/-- A scan that is stuck in a text is stuck in every text that goes on on the next line. -/
theorem Token.stuck_append_line (p : Place) (cs rest : List Char) (h : (scan p cs).stuck ≠ none) :
    (scan p (cs ++ '\n' :: rest)).stuck ≠ none := by
  revert h
  fun_induction scan p cs with
  | case1 => exact fun h => absurd rfl h
  | case2 p c cs hgap ih =>
    rw [List.cons_append, scan_gap p hgap]
    exact ih
  | case3 p c cs hgap hcomment ih =>
    rw [List.cons_append, scan_comment p hcomment, takeWhile_append_cons (by decide),
      dropWhile_append_cons (by decide)]
    exact ih
  | case4 p c cs hgap hcomment hblank =>
    intro _
    rw [List.cons_append, scan, if_neg hgap, if_neg hcomment, if_pos hblank]
    exact Option.some_ne_none _
  | case5 p c cs hgap hcomment hblank run hword ih =>
    rw [cons_append_line, scan_word p
      (forall_mem_cons_takeWhile (isInside_of_not hgap hcomment hblank) cs) (by simpa using hword)
      (takeWhile_dropWhile_line cs rest)]
    exact ih
  | case6 p c cs hgap hcomment hblank run hword hnumber ih =>
    rw [cons_append_line, scan_number p hnumber (takeWhile_dropWhile_line cs rest)]
    exact ih
  | case7 p c cs hgap hcomment hblank run hword hnumber =>
    intro _
    rw [cons_append_line, scan_run p
      (forall_mem_cons_takeWhile (isInside_of_not hgap hcomment hblank) cs)
      (takeWhile_dropWhile_line cs rest), if_neg hword, if_neg hnumber]
    exact Option.some_ne_none _

/-! ## One item -/

namespace Item

/-- The item stands for its written form: an instruction that is written whole, a number that can be
written, or a text that has some token and no blanks but gaps. -/
def HasText : Item → Prop
  | .opcode _ => True
  | .instruction i => i.IsListable
  | .datum (.whole n) => Numeral.Writable n
  | .datum (.text s) => (∀ c ∈ s.toList, isBlank c → Token.isGap c) ∧ Token.ofText s ≠ .ok []
  | .datum _ => False

/-- Links what an item is made of. -/
def link (l : Linker) (item : Item) : Answer Linker := item.pieces.bind l.feedAll

end Item

theorem Text.exists_trim (cs : List Char) :
    ∃ front back, cs = front ++ (trim cs ++ back) ∧ (∀ c ∈ front, isBlank c) ∧
      ∀ c ∈ back, isBlank c := by
  let behind := cs.dropWhile isBlank
  refine ⟨cs.takeWhile isBlank, (behind.reverse.takeWhile isBlank).reverse, ?_,
    fun c hc => List.mem_takeWhile_imp hc,
    fun c hc => List.mem_takeWhile_imp (List.mem_reverse.mp hc)⟩
  have hbehind : behind = trim cs ++ (behind.reverse.takeWhile isBlank).reverse := by
    show behind = (behind.reverse.dropWhile isBlank).reverse ++ _
    rw [← List.reverse_append, List.takeWhile_append_dropWhile, List.reverse_reverse]
  rw [← hbehind, List.takeWhile_append_dropWhile]

namespace Token

/-- A run between gaps is scanned as if it stood alone. -/
theorem scan_between (p : Place) {front run back : List Char} (hfront : ∀ c ∈ front, isGap c)
    (hback : ∀ c ∈ back, isGap c) {c : Char} {rest : List Char} (hcons : run = c :: rest)
    (hrun : ∀ d ∈ run, isInside d) :
    ∃ q, scan p (front ++ (run ++ back)) =
      if !opensNumber c then ⟨[⟨.word, String.ofList run, some q⟩], none⟩
      else if isNumber run then ⟨[⟨.number, String.ofList run, some q⟩], none⟩
      else ⟨[], some (run, q)⟩ := by
  have hend : back.takeWhile isInside = [] := by
    refine takeWhile_eq_nil_iff_head?.mpr fun d hd => ?_
    by_contra hinside
    have hgap := hback d (List.mem_of_mem_head? hd)
    rw [(isInside_iff.mp (by simpa using hinside)).2.1] at hgap
    cases hgap
  have hnothing : scan ((p.after front).after run) back = ⟨[], none⟩ := by
    have hgaps := scan_gaps ((p.after front).after run) hback []
    rwa [List.append_nil, scan_nil] at hgaps
  subst hcons
  refine ⟨p.after front, ?_⟩
  rw [scan_gaps p hfront, scan_run _ hrun hend, hnothing]
  rfl

/-- A text that has no blanks but gaps is scanned like its run, if that is what it trims to. -/
theorem scan_trim (p : Place) {s : String} (hgaps : ∀ c ∈ s.toList, isBlank c → isGap c) {c : Char}
    {rest : List Char} (hcons : trim s.toList = c :: rest)
    (hrun : ∀ d ∈ trim s.toList, isInside d) :
    ∃ q, scan p s.toList =
      if !opensNumber c then ⟨[⟨.word, String.ofList (trim s.toList), some q⟩], none⟩
      else if isNumber (trim s.toList) then
        ⟨[⟨.number, String.ofList (trim s.toList), some q⟩], none⟩
      else ⟨[], some (trim s.toList, q)⟩ := by
  obtain ⟨front, back, hsplit, hfront, hback⟩ := Text.exists_trim s.toList
  have hmem : ∀ c, c ∈ front ∨ c ∈ back → c ∈ s.toList := by
    intro c hc
    rw [hsplit]
    simp only [List.mem_append]
    tauto
  have hfront' : ∀ c ∈ front, isGap c := fun c hc => hgaps c (hmem c (.inl hc)) (hfront c hc)
  have hback' : ∀ c ∈ back, isGap c := fun c hc => hgaps c (hmem c (.inr hc)) (hback c hc)
  obtain ⟨q, hscan⟩ := scan_between p hfront' hback' hcons hrun
  exact ⟨q, (congrArg (scan p) hsplit).trans hscan⟩

theorem not_opensNumber_of_isAlpha {c : Char} (h : c.isAlpha) : opensNumber c = false := by
  have hascii : c.toNat < 128 := by
    unfold Char.isAlpha Char.isUpper Char.isLower at h
    simp only [Bool.or_eq_true, Bool.and_eq_true, decide_eq_true_eq] at h
    rcases h with ⟨-, h⟩ | ⟨-, h⟩
    · have : c.toNat ≤ 90 := h
      omega
    · have : c.toNat ≤ 122 := h
      omega
  have hall : ∀ n < 128, (Char.ofNat n).isAlpha → opensNumber (Char.ofNat n) = false := by decide
  have hc := hall c.toNat hascii
  rw [Char.ofNat_toNat] at hc
  exact hc h

/-- What begins like a number is no word. -/
theorem meaning?_of_opensNumber {c : Char} {rest : List Char} (h : opensNumber c) :
    Word.meaning? (c :: rest) = none := by
  cases hmeaning : Word.meaning? (c :: rest) with
  | none => rfl
  | some m =>
    obtain ⟨d, rest', heq, hletter⟩ := (Word.means_of_meaning? hmeaning).exists_cons
    obtain ⟨rfl, -⟩ := List.cons.inj heq
    rcases hletter with ⟨op, hletter⟩ | halpha
    · have hno := hletter.of_letters (P := fun c => !opensNumber c) (by decide)
      rw [h] at hno
      cases hno
    · rw [not_opensNumber_of_isAlpha halpha] at h
      cases h

end Token

/-- What begins like a number is refused as a word. -/
theorem Linker.exists_error_of_opensNumber (l : Linker) {run : List Char} {c : Char}
    {rest : List Char} (hcons : run = c :: rest) (hc : Token.opensNumber c) :
    ∃ f, l.feedAll [.token ⟨.word, String.ofList run, none⟩] = .error f := by
  rw [feedAll_cons]
  cases hl : l.waiting with
  | some opened =>
    rw [feed_word_of_some rfl hl]
    exact ⟨_, rfl⟩
  | none =>
    rw [feed_word_of_none rfl hl, String.toList_ofList, hcons, Token.meaning?_of_opensNumber hc]
    exact ⟨_, rfl⟩

namespace Item

variable {l l' : Linker}

theorem agree_link_instruction (h : l.Same l') {i : Instruction} (hi : i.IsListable) (p : Place) :
    Linker.Agree (l.feedAll [.instruction i]) (l'.feedScan (Token.scan p i.text.toList)) := by
  obtain ⟨group, q, hgroup, hscan⟩ := i.exists_scan_text hi p [] rfl
  rw [List.append_nil, Token.scan_nil] at hscan
  rw [hscan, List.append_nil]
  exact h.feedAll_group hgroup

theorem pieces_whole {n : Int} (h : Numeral.Writable n) :
    pieces (.datum (.whole n)) = .ok [.token ⟨.number, Numeral.text n, none⟩] := by
  have hwrite : (Numeral.write n).mapError Fault.numeral = .ok (Numeral.text n) :=
    shownWith_of_writable (List.forall_mem_singleton.mpr h) _
  unfold pieces
  dsimp only
  rw [hwrite]
  rfl

theorem agree_link_number (h : l.Same l') {n : Int} (hn : Numeral.Writable n) (p : Place) :
    Linker.Agree (link l (.datum (.whole n)))
      (l'.feedScan (Token.scan p (Numeral.text n).toList)) := by
  have hscan := Token.scan_number p (Numeral.isNumber_text n)
    (show List.takeWhile Token.isInside [] = [] from rfl)
  rw [List.append_nil, Token.scan_nil, String.ofList_toList] at hscan
  unfold link
  rw [pieces_whole hn, hscan]
  exact h.feedToken rfl

/-- A text that trims to a number is one number, scanned or not. -/
theorem agree_link_text_number (h : l.Same l') {s : String}
    (hgaps : ∀ c ∈ s.toList, isBlank c → Token.isGap c) (hnumber : Token.isNumber (trim s.toList))
    (p : Place) :
    Linker.Agree (link l (.datum (.text s))) (l'.feedScan (Token.scan p s.toList)) := by
  have hpieces : pieces (.datum (.text s)) =
      .ok [.token ⟨.number, String.ofList (trim s.toList), none⟩] := if_pos hnumber
  obtain ⟨c, rest, hcons, hc, hrun⟩ := Token.of_isNumber hnumber
  obtain ⟨q, hscan⟩ := Token.scan_trim p hgaps hcons hrun
  unfold link
  rw [hscan, hpieces, if_neg (by rw [hc]; decide), if_pos hnumber]
  exact h.feedToken rfl

/-- A text that trims to a run is one word, and refused if it begins like a number. -/
theorem agree_link_text_word (h : l.Same l') {s : String}
    (hgaps : ∀ c ∈ s.toList, isBlank c → Token.isGap c)
    (hnumber : ¬ Token.isNumber (trim s.toList))
    (hword : !(trim s.toList).isEmpty && (trim s.toList).all Token.isInside) (p : Place) :
    Linker.Agree (link l (.datum (.text s))) (l'.feedScan (Token.scan p s.toList)) := by
  have hpieces : pieces (.datum (.text s)) =
      .ok [.token ⟨.word, String.ofList (trim s.toList), none⟩] :=
    (if_neg hnumber).trans (if_pos hword)
  rw [Bool.and_eq_true, List.all_eq_true] at hword
  obtain ⟨hne, hrun⟩ := hword
  obtain ⟨c, rest, hcons⟩ := List.exists_cons_of_ne_nil (l := trim s.toList) (by simpa using hne)
  obtain ⟨q, hscan⟩ := Token.scan_trim p hgaps hcons hrun
  unfold link
  rw [hscan, hpieces]
  by_cases hc : Token.opensNumber c
  · -- the text is stuck at the run, which is no word
    rw [if_neg (by simpa using hc), if_neg hnumber]
    obtain ⟨f, hf⟩ := l.exists_error_of_opensNumber hcons hc
    show Linker.Agree (l.feedAll _) _
    rw [hf]
    exact .error f _
  · rw [if_pos (by simpa using hc)]
    exact h.feedToken rfl

/-- Any other text is scanned, from its own beginning or from `p`. -/
theorem agree_link_text_scanned (h : l.Same l') {s : String} (hsome : Token.ofText s ≠ .ok [])
    (hpieces : pieces (.datum (.text s)) = (Token.ofText s).map (·.map .token)) (p : Place) :
    Linker.Agree (link l (.datum (.text s))) (l'.feedScan (Token.scan p s.toList)) := by
  obtain ⟨htokens, hstuck⟩ := Token.scan_place Place.start p s.toList
  unfold link
  rw [hpieces]
  cases htext : Token.ofText s with
  | error f =>
    obtain ⟨f', hf'⟩ := l'.feedScan_of_stuck (s := Token.scan p s.toList) fun hnone => by
      have hscan := Token.ofText_eq_ok_iff.mpr (congrArg (Token.Scan.mk _) (hstuck.mpr hnone))
      rw [htext] at hscan
      cases hscan
    rw [hf']
    exact .error f f'
  | ok ts =>
    obtain ⟨t, ts, rfl⟩ := List.exists_cons_of_ne_nil fun hnil => hsome (hnil ▸ htext)
    rw [Token.ofText_eq_ok_iff.mp htext] at htokens hstuck
    rw [l'.feedScan_of_unstuck (hstuck.mp rfl)]
    exact h.feedAll htokens

theorem agree_link_text (h : l.Same l') {s : String}
    (hs : (∀ c ∈ s.toList, isBlank c → Token.isGap c) ∧ Token.ofText s ≠ .ok []) (p : Place) :
    Linker.Agree (link l (.datum (.text s))) (l'.feedScan (Token.scan p s.toList)) := by
  obtain ⟨hgaps, hsome⟩ := hs
  by_cases hnumber : Token.isNumber (trim s.toList)
  · exact agree_link_text_number h hgaps hnumber p
  · by_cases hword : !(trim s.toList).isEmpty && (trim s.toList).all Token.isInside
    · exact agree_link_text_word h hgaps hnumber hword p
    · refine agree_link_text_scanned h hsome ?_ p
      unfold pieces
      dsimp only
      rw [if_neg hnumber, if_neg hword]
      cases htext : Token.ofText s with
      | error f => rfl
      | ok ts =>
        obtain ⟨t, ts, rfl⟩ := List.exists_cons_of_ne_nil fun hnil => hsome (hnil ▸ htext)
        rfl

theorem agree_link (h : l.Same l') {item : Item} (hitem : item.HasText) (p : Place) :
    Linker.Agree (item.link l) (l'.feedScan (Token.scan p item.text.toList)) := by
  cases item with
  | opcode op => exact agree_link_instruction h (Instruction.isListable_plain op) p
  | instruction i => exact agree_link_instruction h hitem p
  | datum d =>
    cases d with
    | whole n => exact agree_link_number h hitem p
    | text s => exact agree_link_text h hitem p
    | nothing | truth | real | list | table => exact hitem.elim

end Item

/-! ## Rows of items -/

/-- Text in two lines is linked line by line. -/
theorem Linker.agree_feedScan_line (l : Linker) (p : Place) (cs rest : List Char) :
    Agree ((l.feedScan (Token.scan p cs)).bind fun l =>
        l.feedScan (Token.scan ((p.after cs).next '\n') rest))
      (l.feedScan (Token.scan p (cs ++ '\n' :: rest))) := by
  by_cases hstuck : (Token.scan p cs).stuck = none
  · let behind := Token.scan ((p.after cs).next '\n') rest
    rw [Token.scan_append_line p cs rest hstuck, l.feedScan_of_unstuck hstuck]
    by_cases hbehind : behind.stuck = none
    · have hall : l.feedScan (behind.before (Token.scan p cs).tokens) =
          (l.feedAll ((Token.scan p cs).tokens.map .token)).bind fun l =>
            l.feedAll (behind.tokens.map .token) := by
        rw [l.feedScan_of_unstuck (s := behind.before _) hbehind, ← feedAll_append, ← List.map_append]
        rfl
      rw [hall]
      exact (Agree.refl _).bind fun same => by
        rw [feedScan_of_unstuck _ hbehind]
        exact same.feedAll rfl
    · obtain ⟨f, hf⟩ := l.feedScan_of_stuck (s := behind.before (Token.scan p cs).tokens) hbehind
      rw [hf]
      cases l.feedAll ((Token.scan p cs).tokens.map .token) with
      | error f' => exact .error f' f
      | ok l' =>
        obtain ⟨f', hf'⟩ := l'.feedScan_of_stuck hbehind
        show Agree (l'.feedScan behind) _
        rw [hf']
        exact .error f' f
  · obtain ⟨f, hf⟩ := l.feedScan_of_stuck hstuck
    obtain ⟨f', hf'⟩ := l.feedScan_of_stuck (Token.stuck_append_line p cs rest hstuck)
    rw [hf, hf']
    exact .error f f'

theorem Item.agree_linkAll {items : List Item} (hitems : ∀ item ∈ items, item.HasText)
    {l l' : Linker} (h : l.Same l') (p : Place) :
    Linker.Agree (items.foldlM link l)
      (l'.feedScan (Token.scan p (lines (items.map text)).toList)) := by
  -- over the items: each is a line, and the place behind it is free
  induction items generalizing l l' p with
  | nil =>
    show Linker.Agree (.ok l) (l'.feedScan (Token.scan p []))
    rw [Token.scan_nil]
    exact .ok h
  | cons item items ih =>
    obtain ⟨hitem, hrest⟩ := List.forall_mem_cons.mp hitems
    have hfirst := agree_link h hitem p
    cases items with
    | nil =>
      have hone : [item].foldlM link l = item.link l := by
        rw [List.foldlM_cons]
        cases item.link l <;> rfl
      rw [hone]
      have hline : lines ([item].map text) = item.text := String.intercalate_singleton
      rwa [hline]
    | cons next items =>
      have hlines : (lines ((item :: next :: items).map text)).toList =
          item.text.toList ++ '\n' :: (lines ((next :: items).map text)).toList := by
        simp [lines, String.intercalate_cons_cons, String.toList_append]
      rw [hlines]
      refine Linker.Agree.trans ?_ (l'.agree_feedScan_line p _ _)
      exact hfirst.bind fun same => ih hrest same _

namespace Program

theorem ofText_eq_bind (s : String) :
    ofText s = (Linker.start.feedScan (Token.scan Place.start s.toList)).bind Linker.finish := by
  unfold ofText Token.ofText
  obtain ⟨tokens, _ | ⟨run, p⟩⟩ := Token.scan Place.start s.toList <;> rfl

theorem ofItems_instructions (p : Program) : ofItems (p.map .instruction) = .ok p := by
  have hlink : ∀ l : Linker, l.waiting = none →
      (p.map Item.instruction).foldlM Item.link l = .ok (l.append p) := by
    induction p with
    | nil => exact fun l _ => congrArg Except.ok l.append_nil.symm
    | cons i p ih =>
      intro l hl
      have hfirst : Item.link l (.instruction i) = .ok (l.append [i]) := by
        show (l.feed (.instruction i)).bind _ = _
        simp only [Linker.feed, hl, Linker.add_eq_append]
        rfl
      rw [List.map_cons, List.foldlM_cons, hfirst]
      show (p.map Item.instruction).foldlM Item.link (l.append [i]) = _
      rw [ih (l.append [i]) hl, Linker.append_append]
      rfl
  show ((p.map Item.instruction).foldlM Item.link Linker.start).bind Linker.finish = .ok p
  rw [hlink _ rfl]
  simp [Except.bind, Linker.finish, Linker.append, Linker.start]

end Program

namespace Source

theorem eq_of_mapM_instruction? {row : List Item} {p : Program}
    (h : row.mapM Item.instruction? = some p) : row = p.map .instruction := by
  induction row generalizing p with
  | nil =>
    obtain rfl := Option.some.inj h
    rfl
  | cons item row ih =>
    rw [List.mapM_cons] at h
    obtain ⟨i, hi, hrest⟩ := Option.bind_eq_some_iff.mp h
    obtain ⟨q, hq, hp⟩ := Option.bind_eq_some_iff.mp hrest
    obtain rfl := Option.some.inj hp
    obtain rfl : item = .instruction i := by
      cases item with
      | instruction j => exact congrArg Item.instruction (Option.some.inj hi)
      | opcode op => cases hi
      | datum d => cases hi
    rw [ih hq]
    rfl

theorem program_items (row : List Item) : (items row).program = (items row).assemble := by
  cases hrow : row.mapM Item.instruction? with
  | none =>
    simp only [program, assemble, toItems, bind, Except.bind, hrow]
  | some p =>
    rw [eq_of_mapM_instruction? hrow, program_instructions]
    exact (Program.ofItems_instructions p).symm

theorem assemble_items (row : List Item) :
    (items row).assemble = (row.foldlM Item.link Linker.start).bind Linker.finish := rfl

/-- A source that may be a program already is the program that it spells. -/
theorem program_eq_assemble (source : Source) : source.program = source.assemble := by
  cases source with
  | text s => rfl
  | items row => exact program_items row
  | other d h =>
    cases hd : (other d h).toItems with
    | error f => simp only [program, assemble, hd, bind, Except.bind]
    | ok row =>
      have hrow : (items row).toItems = .ok row := rfl
      have hprogram : (other d h).program = (items row).program := by
        simp only [program, hd, hrow, bind, Except.bind]
      have hassemble : (other d h).assemble = (items row).assemble := by
        simp only [assemble, hd, hrow, bind, Except.bind]
      rw [hprogram, hassemble, program_items]

/-- Items that stand for their written forms spell a program iff these do one below the other, and
then the same.  A source that may be a program already is read as any other source. -/
theorem assemble_items_iff_lines :
    (∀ row : List Item, (∀ item ∈ row, item.HasText) → ∀ p,
        (items row).assemble = .ok p ↔ (text (lines (row.map Item.text))).assemble = .ok p) ∧
      ∀ source : Source, source.program = source.assemble := by
  refine ⟨fun row hrow p => ?_, program_eq_assemble⟩
  show _ ↔ Program.ofText (lines (row.map Item.text)) = .ok p
  rw [assemble_items, Program.ofText_eq_bind]
  exact (Item.agree_linkAll hrow (.refl Linker.start) Place.start).finish_eq_ok_iff p

/-- An opcode, a word between blanks whose operand is the next item, and an instruction. -/
theorem assemble_items_iff_lines_gimel :
    let row : List Item := [.opcode .tav, .datum (.text " gimel!\t"), .datum (.whole (-3)),
      .instruction ⟨.sovav, .immediate, 2⟩]
    let p : Program := [⟨.tav, .plain, 0⟩, ⟨.gimel, .immediate, -3⟩, ⟨.sovav, .immediate, 2⟩]
    (∀ item ∈ row, item.HasText) ∧ (items row).assemble = .ok p ∧
      (text "ת\n gimel!\t\n-3\nסבבִ 2").assemble = .ok p := by
  intro row p
  have hwritable : ∀ n ∈ [(-3 : Int), 2], Numeral.Writable n := by decide +kernel
  have hsome : Token.ofText " gimel!\t" ≠ .ok [] := by
    have hchars : " gimel!\t".toList = ' ' :: ('g' :: ['i', 'm', 'e', 'l', '!'] ++ ['\t']) := by
      decide
    intro h
    rw [Token.ofText_eq_ok_iff, hchars, Token.scan_gap _ (by decide),
      Token.scan_word _ (List.all_eq_true.mp (by decide)) (by decide) rfl] at h
    cases (Token.Scan.mk.inj h).1
  have hgaps : " gimel!\t".toList.all fun c => !isBlank c || Token.isGap c := by decide
  have hblank : ∀ c ∈ " gimel!\t".toList, isBlank c → Token.isGap c := fun c hc hblank => by
    have hc' := List.all_eq_true.mp hgaps c hc
    rwa [hblank, Bool.not_true, Bool.false_or] at hc'
  have hrow : ∀ item ∈ row, item.HasText := by
    simp only [row, List.forall_mem_cons]
    refine ⟨trivial, ⟨hblank, hsome⟩, hwritable _ (by decide), ?_, fun item hitem => ?_⟩
    · exact ⟨fun hmode => absurd rfl hmode, fun _ => hwritable 2 (by decide)⟩
    · cases hitem
  have hitems : (items row).assemble = .ok p := by
    let tav : Linker := ⟨#[⟨.tav, .plain, 0⟩], none⟩
    let gimel : Linker := { tav with waiting := some (.gimel, ⟨.word, "gimel!", none⟩) }
    have hfirst : Item.link Linker.start (.opcode .tav) = .ok tav := rfl
    have hword : Item.link tav (.datum (.text " gimel!\t")) = .ok gimel := rfl
    have hnumber : Item.link gimel (.datum (.whole (-3))) =
        .ok (tav.add ⟨.gimel, .immediate, -3⟩) := by
      unfold Item.link
      rw [Item.pieces_whole (hwritable (-3) (by decide))]
      rfl
    rw [assemble_items]
    simp only [row, List.foldlM_cons, bind, Except.bind, hfirst, hword, hnumber]
    rfl
  exact ⟨hrow, hitems, (assemble_items_iff_lines.1 row hrow p).mp hitems⟩

end Source

end LetterMachine
