import LetterMachine.Proofs.Blame
import LetterMachine.Proofs.Items
import LetterMachine.Proofs.Refusals

/-!
# Positions of malformed tokens

A position is meant to count instructions.  Linking counts them: each opcode of a word gives one, and
one that takes an operand is given by its number.  A text that is scanned counts the tokens in front
of its malformed stretch instead, and nothing of the items before it, so the position is right just
where the two numbers happen to be equal.
-/

namespace LetterMachine

open LetterMachine.Text

/-! ## How many instructions there are -/

/-- The number of instructions that a token gives.  An opcode with an operand is given by the number,
not by its word. -/
def Token.yield (t : Token) : Nat :=
  match t.kind with
  | .number => 1
  | .word => ((Word.meaning? t.text.toList).getD []).countP fun unit => unit.2 ≠ .immediate

theorem Token.yield_of_number {t : Token} (h : t.kind = .number) : t.yield = 1 := by
  simp only [yield, h]

theorem Token.yield_of_word {t : Token} (h : t.kind = .word) :
    t.yield = ((Word.meaning? t.text.toList).getD []).countP fun unit => unit.2 ≠ .immediate := by
  simp only [yield, h]

def Piece.yield : Piece → Nat
  | .instruction _ => 1
  | .token t => t.yield
  | .empty _ => 0

def Item.yield (item : Item) : Nat :=
  match item.pieces with
  | .ok pieces => (pieces.map Piece.yield).sum
  | .error _ => 0

section

variable {α β : Type} {f : β → α → Answer β}

/-- Steps that add to a size what their element weighs add up to all that the elements weigh. -/
theorem Answer.size_foldlM {size : β → Nat} {weight : α → Nat}
    (hstep : ∀ y y' x, f y x = .ok y' → size y' = size y + weight x) {xs : List α} {y y' : β}
    (h : xs.foldlM f y = .ok y') : size y' = size y + (xs.map weight).sum := by
  induction xs generalizing y with
  | nil =>
    obtain rfl := Except.ok.inj h
    rfl
  | cons x xs ih =>
    rw [List.foldlM_cons] at h
    obtain ⟨z, hz, hrest⟩ := Answer.bind_eq_ok h
    rw [ih hrest, hstep y z x hz, List.map_cons, List.sum_cons, Nat.add_assoc]

/-- A row of steps that fails does so at one of them, behind others that do not. -/
theorem Answer.exists_of_foldlM_error {xs : List α} {y : β} {e : Fault}
    (h : xs.foldlM f y = .error e) :
    ∃ before x after z, xs = before ++ x :: after ∧ before.foldlM f y = .ok z ∧
      f z x = .error e := by
  induction xs generalizing y with
  | nil => cases h
  | cons x xs ih =>
    rw [List.foldlM_cons] at h
    cases hx : f y x with
    | error e' =>
      rw [hx] at h
      obtain rfl := Except.error.inj h
      exact ⟨[], x, xs, y, rfl, rfl, hx⟩
    | ok z =>
      rw [hx] at h
      obtain ⟨before, x', after, z', rfl, hbefore, hx'⟩ := ih h
      refine ⟨x :: before, x', after, z', rfl, ?_, hx'⟩
      rw [List.foldlM_cons, hx]
      exact hbefore

theorem Answer.foldlM_append_error {before after : List α} {x : α} {y z : β} {e : Fault}
    (hbefore : before.foldlM f y = .ok z) (hx : f z x = .error e) :
    (before ++ x :: after).foldlM f y = .error e := by
  rw [List.foldlM_append, hbefore]
  show (x :: after).foldlM f z = _
  rw [List.foldlM_cons, hx]
  rfl

end

namespace Linker

theorem size_append (l : Linker) (p : Program) :
    (l.append p).program.size = l.program.size + p.length := by
  simp [append]

theorem countP_of_isPlain {m : Word.Meaning} (h : m.IsPlain) :
    m.countP (fun unit => unit.2 ≠ .immediate) = m.length :=
  List.countP_eq_length.mpr fun unit hunit => decide_eq_true (h unit hunit)

theorem size_addMeaning {l l' : Linker} {t : Token} {m : Word.Meaning}
    (h : l.addMeaning t m = .ok l') :
    l'.program.size = l.program.size + m.countP fun unit => unit.2 ≠ .immediate := by
  rcases m.isPlain_or_exists with hplain | ⟨front, op, rest, rfl, hfront⟩
  · rw [addMeaning_of_isPlain l t hplain] at h
    obtain rfl := Except.ok.inj h
    rw [size_append, countP_of_isPlain hplain, Word.Meaning.length_instructions]
  · by_cases hrest : rest = []
    · subst hrest
      rw [addMeaning_last l t hfront] at h
      obtain rfl := Except.ok.inj h
      -- the opcode that waits is counted with its operand, not here
      show (l.append front.instructions).program.size = _
      rw [size_append, List.countP_append, countP_of_isPlain hfront,
        Word.Meaning.length_instructions]
      rfl
    · rw [addMeaning_inner l t hfront op hrest] at h
      cases h

theorem size_feed_token {l l' : Linker} {t : Token} (h : l.feed (.token t) = .ok l') :
    l'.program.size = l.program.size + t.yield := by
  cases hkind : t.kind with
  | number =>
    rw [Token.yield_of_number hkind]
    cases hl : l.waiting with
    | none =>
      rw [feed_number_of_none hkind hl] at h
      cases h
    | some opened =>
      rw [feed_number_of_some hkind hl] at h
      obtain ⟨n, -, hl'⟩ := Answer.bind_eq_ok h
      obtain rfl := Except.ok.inj hl'
      exact l.size_append _
  | word =>
    rw [Token.yield_of_word hkind]
    cases hl : l.waiting with
    | some opened =>
      rw [feed_word_of_some hkind hl] at h
      cases h
    | none =>
      rw [feed_word_of_none hkind hl] at h
      cases hmeaning : Word.meaning? t.text.toList with
      | none =>
        rw [hmeaning] at h
        cases h
      | some m =>
        rw [hmeaning] at h
        exact size_addMeaning h

theorem size_feed {l l' : Linker} {piece : Piece} (h : l.feed piece = .ok l') :
    l'.program.size = l.program.size + piece.yield := by
  cases piece with
  | empty text => cases h
  | token t => exact size_feed_token h
  | instruction i =>
    simp only [feed] at h
    split at h
    · cases h
    · obtain rfl := Except.ok.inj h
      simp [add, Piece.yield]

theorem size_feedAll {l l' : Linker} {pieces : List Piece} (h : l.feedAll pieces = .ok l') :
    l'.program.size = l.program.size + (pieces.map Piece.yield).sum :=
  Answer.size_foldlM (f := feed) (fun _ _ _ => size_feed) h

theorem size_feedTokens {l l' : Linker} {ts : List Token} (h : l.feedAll (ts.map .token) = .ok l') :
    l'.program.size = l.program.size + (ts.map Token.yield).sum := by
  rw [size_feedAll h, List.map_map]
  rfl

theorem length_of_finish {l : Linker} {p : Program} (h : l.finish = .ok p) :
    p.length = l.program.size := by
  unfold finish at h
  split at h
  · cases h
  · obtain rfl := Except.ok.inj h
    exact Array.length_toList

end Linker

theorem Item.size_link {l l' : Linker} {item : Item} (h : item.link l = .ok l') :
    l'.program.size = l.program.size + item.yield := by
  obtain ⟨pieces, hpieces, hfeed⟩ := Answer.bind_eq_ok h
  rw [Linker.size_feedAll hfeed, Item.yield, hpieces]

theorem Item.size_linkAll {l l' : Linker} {items : List Item}
    (h : items.foldlM Item.link l = .ok l') :
    l'.program.size = l.program.size + (items.map Item.yield).sum :=
  Answer.size_foldlM (f := Item.link) (fun _ _ _ => Item.size_link) h

/-! ## Texts among the items -/

/-- The text is no single token, so it is scanned as an item. -/
def Token.IsScanned (s : String) : Prop :=
  trim s.toList = [] ∨ ∃ c ∈ trim s.toList, isInside c = false

theorem Token.not_isScanned_iff {s : String} :
    ¬ IsScanned s ↔ trim s.toList ≠ [] ∧ ∀ c ∈ trim s.toList, isInside c := by
  simp [IsScanned]

namespace Item

theorem pieces_of_isScanned {s : String} (h : Token.IsScanned s) :
    pieces (.datum (.text s)) =
      (Token.ofText s).map fun ts => if ts = [] then [.empty s] else ts.map .token := by
  have hnumber : ¬ Token.isNumber (trim s.toList) := by
    intro hnumber
    obtain ⟨c, rest, hcons, -, hrun⟩ := Token.of_isNumber hnumber
    exact Token.not_isScanned_iff.mpr ⟨by simp [hcons], hrun⟩ h
  have hword : ¬ (!(trim s.toList).isEmpty && (trim s.toList).all Token.isInside) := by
    intro hword
    refine Token.not_isScanned_iff.mpr ⟨?_, ?_⟩ h
    · simpa using (Bool.and_eq_true_iff.mp hword).1
    · simpa using (Bool.and_eq_true_iff.mp hword).2
  unfold pieces
  dsimp only
  rw [if_neg hnumber, if_neg hword]
  cases Token.ofText s with
  | error f => rfl
  | ok ts => cases ts <;> rfl

theorem pieces_of_not_isScanned {s : String} (h : ¬ Token.IsScanned s) :
    ∃ t, pieces (.datum (.text s)) = .ok [.token t] := by
  obtain ⟨hne, hrun⟩ := Token.not_isScanned_iff.mp h
  have hword : !(trim s.toList).isEmpty && (trim s.toList).all Token.isInside := by
    simpa using ⟨hne, hrun⟩
  unfold pieces
  dsimp only
  rw [if_pos hword]
  split
  · exact ⟨_, rfl⟩
  · exact ⟨_, rfl⟩

theorem pieces_cases_of_shownWith {item : Item} {kind : TokenKind} {numbers : List Int}
    {shown : String}
    (h : item.pieces = do return [.token ⟨kind, ← shownWith numbers shown, none⟩]) :
    (∃ cause, item.pieces = .error (.numeral cause)) ∨
      ∃ piece, item.pieces = .ok [piece] ∧ ∀ text, piece ≠ .empty text := by
  by_cases hnumbers : ∀ n ∈ numbers, Numeral.Writable n
  · rw [shownWith_of_writable hnumbers] at h
    exact .inr ⟨_, h, fun text => Piece.noConfusion⟩
  · rw [(ShownIf.of_shownWith numbers shown).refused hnumbers] at h
    exact .inl ⟨_, h⟩

/-- An item is a text that is scanned, or a number in it is too long to be written, or it is one
piece, which is not empty. -/
theorem pieces_cases (item : Item) :
    (∃ s, item = .datum (.text s) ∧ Token.IsScanned s) ∨
      (∃ cause, item.pieces = .error (.numeral cause)) ∨
        ∃ piece, item.pieces = .ok [piece] ∧ ∀ text, piece ≠ .empty text := by
  cases item with
  | opcode op => exact .inr (.inr ⟨_, rfl, fun text => Piece.noConfusion⟩)
  | instruction i => exact .inr (.inr ⟨_, rfl, fun text => Piece.noConfusion⟩)
  | datum d =>
    cases d with
    | text s =>
      by_cases hscanned : Token.IsScanned s
      · exact .inl ⟨s, rfl, hscanned⟩
      · obtain ⟨t, ht⟩ := pieces_of_not_isScanned hscanned
        exact .inr (.inr ⟨_, ht, fun text => Piece.noConfusion⟩)
    | whole | nothing | truth | real | list | table =>
      exact .inr (pieces_cases_of_shownWith rfl)

/-- A text that has tokens has gaps alone around a single run. -/
theorem forall_isGap_of_ofText {s : String} {ts : List Token} (hts : Token.ofText s = .ok ts)
    (hrun : ∀ c ∈ trim s.toList, Token.isInside c) : ∀ c ∈ s.toList, isBlank c → Token.isGap c := by
  obtain ⟨front, back, hsplit, hfront, hback⟩ := Text.exists_trim s.toList
  -- every character is a blank or lies in the run, so no comment is opened
  have hcomment : ∀ c ∈ s.toList, Token.opensComment c = false := by
    intro c hc
    by_contra hopen
    have hblank := Token.not_isBlank_of_opensComment (by simpa using hopen)
    rw [hsplit, List.mem_append, List.mem_append] at hc
    rcases hc with hc | hc | hc
    · rw [hfront c hc] at hblank
      cases hblank
    · exact hopen (Token.isInside_iff.mp (hrun c hc)).2.2
    · rw [hback c hc] at hblank
      cases hblank
  have htells := Token.scan_tells Place.start s.toList
  rw [Token.ofText_eq_ok_iff.mp hts] at htells
  have hspaced : Token.Spaced s.toList := (htells.unstuck.mp rfl).1
  intro c hc
  obtain ⟨before, behind, heq⟩ := List.append_of_mem hc
  refine hspaced before c behind heq (Token.not_commentOpen_of_forall fun d hd => ?_)
  exact hcomment d (heq ▸ List.mem_append_left _ hd)

/-- A single token is scanned as one. -/
theorem isScanned_of_ofText_nil {s : String} (h : Token.ofText s = .ok []) :
    Token.IsScanned s := by
  by_contra hscanned
  obtain ⟨hne, hrun⟩ := Token.not_isScanned_iff.mp hscanned
  obtain ⟨c, rest, hcons⟩ := List.exists_cons_of_ne_nil hne
  obtain ⟨q, hscan⟩ := Token.scan_trim Place.start (forall_isGap_of_ofText h hrun) hcons hrun
  rw [Token.ofText_eq_ok_iff.mp h] at hscan
  split at hscan
  · cases hscan
  · split at hscan <;> cases hscan

/-- An item whose text has tokens is linked as these, up to their places. -/
theorem agree_link_of_ofText (l : Linker) {s : String} {ts : List Token}
    (hts : Token.ofText s = .ok ts) (hne : ts ≠ []) :
    Linker.Agree (link l (.datum (.text s))) (l.feedAll (ts.map .token)) := by
  have hscan := Token.ofText_eq_ok_iff.mp hts
  have hfeed : l.feedScan (Token.scan Place.start s.toList) = l.feedAll (ts.map .token) := by
    rw [hscan]
    rfl
  have hsome : Token.ofText s ≠ .ok [] := by
    rw [hts]
    exact fun h => hne (Except.ok.inj h)
  rw [← hfeed]
  by_cases hscanned : Token.IsScanned s
  · refine agree_link_text_scanned (.refl l) hsome ?_ Place.start
    rw [pieces_of_isScanned hscanned, hts]
    simp [Except.map, hne]
  · obtain ⟨-, hrun⟩ := Token.not_isScanned_iff.mp hscanned
    exact agree_link_text (.refl l) ⟨forall_isGap_of_ofText hts hrun, hsome⟩ Place.start

end Item

/-! ## Where a source breaks -/

/-- A scan of the text is stuck at the stretch, behind a front that has these tokens. -/
def Token.StuckAt (s stretch front : String) (tokens : List Token) : Prop :=
  ∃ place, StandsBehind s stretch place front tokens ∧
    ofText s = .error (.assembly ⟨.malformedToken, stretch, tokens.length, some place⟩)

namespace Source

/-- The items of a source that is no text. -/
def row? : Source → Option (List Item)
  | text _ => none
  | source => source.toItems.toOption

/-- The items with a text behind them, as a source.  A text that has no tokens is no item. -/
def behind (items : List Item) (front : String) : List Token → Source
  | [] => .items items
  | _ :: _ => .items (items ++ [.datum (.text front)])

/-- A source has a malformed token behind a part of it: the text breaks off there, or a text among
the items does, or an item has no tokens at all.  The part is made of the items before and, where a
text is scanned, of the front of that text with its tokens. -/
inductive BreaksBehind (stretch : String) :
    Source → List Item → Option (List Token) → Source → Prop where
  | text {s front : String} {tokens : List Token} (stuck : Token.StuckAt s stretch front tokens) :
      BreaksBehind stretch (.text s) [] (some tokens) (.text front)
  | item {source : Source} {before after : List Item} {s front : String} {tokens : List Token}
      (row : source.row? = some (before ++ .datum (.text s) :: after))
      (scanned : Token.IsScanned s) (stuck : Token.StuckAt s stretch front tokens) :
      BreaksBehind stretch source before (some tokens) (behind before front tokens)
  | blank {source : Source} {before after : List Item}
      (row : source.row? = some (before ++ .datum (.text stretch) :: after))
      (nothing : Token.ofText stretch = .ok []) :
      BreaksBehind stretch source before none (.items before)

/-- As many tokens stand in front of the malformed one in its text as there are instructions in front
of it in the source. -/
def CountsAlike (before : List Item) (tokens : List Token) : Prop :=
  (before.map Item.yield).sum + (tokens.map Token.yield).sum = tokens.length

instance (before : List Item) (tokens : List Token) : Decidable (CountsAlike before tokens) :=
  inferInstanceAs (Decidable (_ = _))

theorem assemble_of_row {source : Source} {row : List Item} (h : source.row? = some row) :
    source.assemble = (row.foldlM Item.link Linker.start).bind Linker.finish := by
  cases source with
  | text s => cases h
  | items xs =>
    obtain rfl : xs = row := Option.some.inj h
    exact assemble_items xs
  | other d hd =>
    have hrow : (other d hd).toItems.toOption = some row := h
    show ((other d hd).toItems.bind Program.ofItems) = _
    cases hitems : (other d hd).toItems with
    | error f =>
      rw [hitems] at hrow
      cases hrow
    | ok xs =>
      rw [hitems] at hrow
      obtain rfl : xs = row := Option.some.inj hrow
      rfl

theorem cases_of_row?_eq_none {source : Source} (h : source.row? = none) :
    (∃ s, source = .text s) ∨ ∃ d, source.assemble = .error (.notIterable d) := by
  cases source with
  | text s => exact .inl ⟨s, rfl⟩
  | items xs => cases h
  | other d hd =>
    cases d with
    | text | list => cases hd
    | table => cases h
    | nothing | truth | whole | real => exact .inr ⟨_, rfl⟩

theorem exists_linked {row : List Item} {p : Program} (h : (items row).assemble = .ok p) :
    ∃ l, row.foldlM Item.link Linker.start = .ok l ∧ l.finish = .ok p := by
  rw [assemble_items] at h
  exact Answer.bind_eq_ok h

theorem length_of_linked {row : List Item} {l : Linker}
    (h : row.foldlM Item.link Linker.start = .ok l) :
    l.program.size = (row.map Item.yield).sum := by
  rw [Item.size_linkAll h]
  exact Nat.zero_add _

/-- The items in front of a text that breaks off are linked if the part is a program, and its length
is what they and the tokens in front give. -/
theorem of_assemble_behind {before : List Item} {front : String} {tokens : List Token} {p : Program}
    (htokens : Token.ofText front = .ok tokens)
    (hp : (behind before front tokens).assemble = .ok p) :
    (∃ l, before.foldlM Item.link Linker.start = .ok l) ∧
      p.length = (before.map Item.yield).sum + (tokens.map Token.yield).sum := by
  cases tokens with
  | nil =>
    obtain ⟨l, hl, hfinish⟩ := exists_linked hp
    exact ⟨⟨l, hl⟩, by rw [Linker.length_of_finish hfinish, length_of_linked hl]; rfl⟩
  | cons t ts =>
    obtain ⟨l', hl', hfinish⟩ := exists_linked hp
    rw [List.foldlM_append] at hl'
    obtain ⟨l, hl, hitem⟩ := Answer.bind_eq_ok hl'
    rw [List.foldlM_cons] at hitem
    obtain ⟨l'', hlink, hnil⟩ := Answer.bind_eq_ok hitem
    obtain rfl := Except.ok.inj hnil
    refine ⟨⟨l, hl⟩, ?_⟩
    -- the text is linked as its tokens, which give as many instructions wherever they stand
    have hagree := Item.agree_link_of_ofText l htokens (List.cons_ne_nil t ts)
    rw [hlink] at hagree
    generalize hfeed : l.feedAll ((t :: ts).map .token) = fed at hagree
    cases hagree with
    | ok same =>
      rw [Linker.length_of_finish hfinish, same.program, Linker.size_feedTokens hfeed,
        length_of_linked hl]

/-- The position that is told. -/
def told (before : List Item) : Option (List Token) → Nat
  | none => (before.map Item.yield).sum
  | some tokens => tokens.length

/-- A source that breaks behind a program is refused there. -/
theorem BreaksBehind.assemble {stretch : String} {source part : Source} {before : List Item}
    {scanned : Option (List Token)} {p : Program}
    (h : BreaksBehind stretch source before scanned part) (hp : part.assemble = .ok p) :
    (∃ place, source.assemble =
        .error (.assembly ⟨.malformedToken, stretch, told before scanned, place⟩)) ∧
      p.length = (before.map Item.yield).sum + ((scanned.getD []).map Token.yield).sum := by
  cases h with
  | @text s front tokens stuck =>
    obtain ⟨place, hstands, hs⟩ := stuck
    have hfront : Program.ofText front = .ok p := hp
    rw [Program.ofText_of_tokens hstands.tokens, Program.ofTokens_eq_bind] at hfront
    obtain ⟨l, hl, hfinish⟩ := Answer.bind_eq_ok hfront
    refine ⟨⟨some place, Program.ofText_of_error hs⟩, ?_⟩
    rw [Linker.length_of_finish hfinish, Linker.size_feedTokens hl]
    rfl
  | @item source before after s front tokens row hscanned stuck =>
    obtain ⟨place, hstands, hs⟩ := stuck
    obtain ⟨⟨l, hl⟩, hlength⟩ := of_assemble_behind hstands.tokens hp
    refine ⟨⟨some place, ?_⟩, hlength⟩
    have hlink : Item.link l (.datum (.text s)) =
        .error (.assembly ⟨.malformedToken, stretch, tokens.length, some place⟩) := by
      unfold Item.link
      rw [Item.pieces_of_isScanned hscanned, hs]
      rfl
    rw [assemble_of_row row, Answer.foldlM_append_error hl hlink]
    rfl
  | @blank source before after row nothing =>
    obtain ⟨l, hl, hfinish⟩ := exists_linked hp
    have hlength := length_of_linked hl
    refine ⟨⟨none, ?_⟩, by rw [Linker.length_of_finish hfinish, hlength]; rfl⟩
    have hlink : Item.link l (.datum (.text stretch)) =
        .error (.assembly ⟨.malformedToken, stretch, told before none, none⟩) := by
      unfold Item.link
      rw [Item.pieces_of_isScanned (Item.isScanned_of_ofText_nil nothing), nothing, told, ← hlength]
      rfl
    rw [assemble_of_row row, Answer.foldlM_append_error hl hlink]
    rfl

/-! ## Every malformed token -/

/-- The fault is none of a malformed token. -/
def Wellformed (f : Fault) : Prop := ∀ a, f = .assembly a → a.cause ≠ .malformedToken

theorem wellformed_ofLinking : Fault.OfLinking Wellformed where
  numeral cause a h := by cases h
  misfit a hcause b h := by
    obtain rfl := Fault.assembly.inj h
    exact hcause

theorem exists_stuckAt {s : String} {f : Fault} (h : Token.ofText s = .error f) :
    ∃ a front tokens, f = .assembly a ∧ Token.StuckAt s a.token front tokens := by
  obtain ⟨stretch, place, front, tokens, hstands, rfl⟩ := Token.exists_standsBehind_of_error h
  exact ⟨_, front, tokens, rfl, place, hstands, h⟩

theorem exists_breaksBehind_of_item {source : Source} {before after : List Item} {item : Item}
    {l : Linker} {a : AssemblyFault} (hrow : source.row? = some (before ++ item :: after))
    (h : item.link l = .error (.assembly a)) (hcause : a.cause = .malformedToken) :
    ∃ scanned part, BreaksBehind a.token source before scanned part := by
  unfold Item.link at h
  rcases item.pieces_cases with ⟨s, rfl, hscanned⟩ | ⟨cause, hpieces⟩ | ⟨piece, hpieces, hpiece⟩
  · rw [Item.pieces_of_isScanned hscanned] at h
    cases hts : Token.ofText s with
    | error f =>
      obtain ⟨b, front, tokens, rfl, hstuck⟩ := exists_stuckAt hts
      rw [hts] at h
      obtain rfl := Fault.assembly.inj (Except.error.inj h)
      exact ⟨_, _, .item hrow hscanned hstuck⟩
    | ok ts =>
      rw [hts] at h
      by_cases hnil : ts = []
      · subst hnil
        obtain rfl := Fault.assembly.inj (Except.error.inj h)
        exact ⟨_, _, .blank hrow hts⟩
      · -- tokens are fed as such, and none of them is malformed
        have hfeed : l.feedAll (ts.map .token) = .error (.assembly a) := by
          simpa [Except.map, hnil, bind, Except.bind] using h
        exact absurd hcause (l.feedAll_failsWith wellformed_ofLinking _ (by simp) _ hfeed a rfl)
  · rw [hpieces] at h
    cases h
  · rw [hpieces] at h
    have hempty (text : String) (hmem : .empty text ∈ [piece]) : False :=
      hpiece text (List.mem_singleton.mp hmem).symm
    exact absurd hcause (l.feedAll_failsWith wellformed_ofLinking [piece]
      (fun text hmem => (hempty text hmem).elim) _ h a rfl)

theorem exists_breaksBehind {source : Source} {a : AssemblyFault}
    (h : source.assemble = .error (.assembly a)) (hcause : a.cause = .malformedToken) :
    ∃ before scanned part, BreaksBehind a.token source before scanned part := by
  have hnever {α : Type} {b : Answer α} (hb : FailsWith Wellformed b) :
      b ≠ .error (.assembly a) := fun h => hb _ h a rfl hcause
  cases hrow : source.row? with
  | none =>
    -- a text is stuck at the token, as no row of tokens is refused for a malformed one
    obtain ⟨s, rfl⟩ | ⟨d, hd⟩ := cases_of_row?_eq_none hrow
    · cases hts : Token.ofText s with
      | error f =>
        obtain ⟨b, front, tokens, rfl, hstuck⟩ := exists_stuckAt hts
        have hs := Program.ofText_of_error hts
        obtain rfl := Fault.assembly.inj (Except.error.inj (hs.symm.trans h))
        exact ⟨_, _, _, .text hstuck⟩
      | ok ts =>
        have hs : Program.ofText s = .error (.assembly a) := h
        rw [Program.ofText_of_tokens hts, Program.ofTokens_eq_bind] at hs
        refine absurd hs (hnever (.bind ?_ fun l => l.finish_failsWith wellformed_ofLinking))
        exact Linker.start.feedAll_failsWith wellformed_ofLinking _ (by simp)
    · rw [hd] at h
      cases h
  | some row =>
    rw [assemble_of_row hrow] at h
    cases hlink : row.foldlM Item.link Linker.start with
    | ok l =>
      rw [hlink] at h
      exact absurd h (hnever (l.finish_failsWith wellformed_ofLinking))
    | error f =>
      -- the item that fails is the text that breaks off
      rw [hlink] at h
      obtain rfl := Except.error.inj h
      obtain ⟨before, item, after, l, rfl, -, hitem⟩ := Answer.exists_of_foldlM_error hlink
      exact ⟨before, exists_breaksBehind_of_item hrow hitem hcause⟩

/-- The position is the number of instructions in front of the malformed token, where the part of the
source in front of it is a program. -/
def TellsPosition (source : Source) (a : AssemblyFault) : Prop :=
  ∀ before scanned part p, BreaksBehind a.token source before scanned part →
    part.assemble = .ok p → a.position = p.length

/-- A source that is refused for a malformed token breaks there, and the position that is told counts
the tokens in front of it in its text.  So it is the number of instructions in front of it just if
there are as many of these as tokens, and always if no text is scanned. -/
theorem position_malformedToken {source : Source} {a : AssemblyFault}
    (h : source.assemble = .error (.assembly a)) (hcause : a.cause = .malformedToken) :
    (∃ before scanned part, BreaksBehind a.token source before scanned part) ∧
      (∀ before scanned part p, BreaksBehind a.token source before scanned part →
        part.assemble = .ok p → a.position = told before scanned) ∧
      (source.TellsPosition a ↔ ∀ before tokens part p,
        BreaksBehind a.token source before (some tokens) part → part.assemble = .ok p →
          CountsAlike before tokens) := by
  have htold : ∀ before scanned part p, BreaksBehind a.token source before scanned part →
      part.assemble = .ok p → a.position = told before scanned := by
    intro before scanned part p hbreaks hp
    obtain ⟨⟨place, heq⟩, -⟩ := hbreaks.assemble hp
    rw [h] at heq
    rw [Fault.assembly.inj (Except.error.inj heq)]
  refine ⟨exists_breaksBehind h hcause, htold, fun htells before tokens part p hbreaks hp => ?_,
    fun hcounts before scanned part p hbreaks hp => ?_⟩
  · show _ = told before (some tokens)
    rw [← htold before _ part p hbreaks hp, htells before _ part p hbreaks hp,
      (hbreaks.assemble hp).2]
    rfl
  · rw [htold before scanned part p hbreaks hp, (hbreaks.assemble hp).2]
    cases scanned with
    | none => rfl
    | some tokens => exact (hcounts before tokens part p hbreaks hp).symm

/-- A word of two letters in front of the malformed token is one token and two instructions. -/
theorem stuckAt_two_letters :
    Token.StuckAt "אב 5x" "5x" "אב " [⟨.word, "אב", some ⟨1, 1⟩⟩] := by
  have hfront : "אב ".toList = 'א' :: ['ב'] ++ ' ' :: [] := by decide
  have hchars : "אב 5x".toList = 'א' :: ['ב'] ++ ' ' :: ('5' :: ['x'] ++ []) := by decide
  have hpair : ∀ c ∈ ['א', 'ב'], Token.isInside c := List.all_eq_true.mp (by decide)
  refine ⟨⟨1, 4⟩, ⟨⟨"", by decide⟩, ?_, by decide⟩, ?_⟩
  · rw [Token.ofText_eq_ok_iff, hfront, Token.scan_word _ hpair (by decide) rfl,
      Token.scan_gap _ (by decide), Token.scan_nil]
    rfl
  · unfold Token.ofText
    rw [hchars, Token.scan_word _ hpair (by decide) rfl, Token.scan_gap _ (by decide),
      Token.scan_run _ (List.all_eq_true.mp (by decide)) rfl, if_neg (by decide),
      if_neg (by decide)]
    rfl

/-- Behind an opcode and a word of two letters stand three instructions, and one token in the text. -/
theorem position_malformedToken_items :
    let source : Source := .items [.opcode .tav, .datum (.text "אב 5x")]
    ∃ place, let a : AssemblyFault := ⟨.malformedToken, "5x", 1, place⟩
      source.assemble = .error (.assembly a) ∧ ¬ source.TellsPosition a := by
  intro source
  have hbreaks : BreaksBehind "5x" source [.opcode .tav] _ _ :=
    .item rfl (.inr ⟨' ', by decide, by decide⟩) stuckAt_two_letters
  let p : Program := [⟨.tav, .plain, 0⟩, ⟨.alef, .plain, 0⟩, ⟨.bet, .plain, 0⟩]
  have hp : (Source.items [.opcode .tav, .datum (.text "אב ")]).assemble = .ok p := rfl
  obtain ⟨⟨place, h⟩, -⟩ := hbreaks.assemble hp
  refine ⟨place, h, fun htells => ?_⟩
  have hcounts := (position_malformedToken h rfl).2.2.mp htells _ _ _ _ hbreaks hp
  exact absurd hcounts (by decide)

/-- A text whose one word in front of the malformed token has two letters. -/
theorem not_forall_tellsPosition :
    ¬ ∀ (source : Source) (a : AssemblyFault), source.assemble = .error (.assembly a) →
      a.cause = .malformedToken → source.TellsPosition a := by
  intro hall
  have hbreaks : BreaksBehind "5x" (.text "אב 5x") [] _ _ := .text stuckAt_two_letters
  let p : Program := [⟨.alef, .plain, 0⟩, ⟨.bet, .plain, 0⟩]
  have hp : (Source.text "אב ").assemble = .ok p := by
    obtain ⟨_, hstands, -⟩ := stuckAt_two_letters
    show Program.ofText "אב " = .ok p
    rw [Program.ofText_of_tokens hstands.tokens]
    rfl
  obtain ⟨⟨place, h⟩, -⟩ := hbreaks.assemble hp
  have htells : 1 = p.length := hall _ _ h rfl _ _ _ _ hbreaks hp
  exact absurd htells (by decide)

end Source

end LetterMachine
