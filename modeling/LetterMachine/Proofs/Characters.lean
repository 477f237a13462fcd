import LetterMachine.Display
import LetterMachine.Proofs.Listing

/-!
# What texts are made of

The texts that the machine shows are put together from names, numbers, blanks and a few signs.  Which
characters they hold is said piece by piece, so that a reader of the text can rely on a sign that
stands in some pieces only.
-/

namespace LetterMachine

namespace Text

/-- All characters of the text are of one kind. -/
def MadeOf (kind : Char → Bool) (s : String) : Prop := ∀ c ∈ s.toList, kind c

instance (kind : Char → Bool) (s : String) : Decidable (MadeOf kind s) :=
  decidable_of_iff (s.toList.all kind) List.all_eq_true

namespace MadeOf

variable {kind kind' : Char → Bool} {s t : String}

theorem mono (h : MadeOf kind s) (hkind : ∀ c, kind c → kind' c) : MadeOf kind' s :=
  fun c hc => hkind c (h c hc)

theorem not_mem (h : MadeOf kind s) {c : Char} (hc : kind c = false) : c ∉ s.toList := by
  intro hmem
  rw [h c hmem] at hc
  cases hc

/-- A text whose characters all stand in another one. -/
theorem part (hs : MadeOf kind s) (ht : MadeOf (s.toList.contains ·) t) : MadeOf kind t :=
  fun c hc => hs c (List.contains_iff_mem.mp (ht c hc))

theorem append (hs : MadeOf kind s) (ht : MadeOf kind t) : MadeOf kind (s ++ t) := by
  intro c hc
  rw [String.toList_append] at hc
  exact (List.mem_append.mp hc).elim (hs c) (ht c)

theorem intercalate {texts : List String} (hs : MadeOf kind s) (h : ∀ t ∈ texts, MadeOf kind t) :
    MadeOf kind (s.intercalate texts) := by
  induction texts with
  | nil => exact fun c hc => by cases hc
  | cons t texts ih =>
    obtain ⟨ht, htexts⟩ := List.forall_mem_cons.mp h
    cases texts with
    | nil =>
      rw [String.intercalate_singleton]
      exact ht
    | cons t' texts =>
      rw [String.intercalate_cons_cons]
      exact (ht.append hs).append (ih htexts)

theorem lines {texts : List String} (hline : kind '\n') (h : ∀ t ∈ texts, MadeOf kind t) :
    MadeOf kind (lines texts) := by
  refine intercalate (fun c hc => ?_) h
  rwa [List.mem_singleton.mp hc]

section

variable (hblank : kind ' ')
include hblank

theorem blanks (n : Nat) : MadeOf kind (String.ofList (List.replicate n ' ')) := by
  intro c hc
  rw [String.toList_ofList] at hc
  rwa [List.eq_of_mem_replicate hc]

theorem atRight (h : MadeOf kind s) (width : Nat) : MadeOf kind (atRight width s) :=
  (blanks hblank _).append h

theorem atLeft (h : MadeOf kind s) (width : Nat) : MadeOf kind (atLeft width s) :=
  h.append (blanks hblank _)

end

end MadeOf

/-- The letters and marks of the Hebrew script. -/
def isHebrew (c : Char) : Bool := 0x590 ≤ c.toNat && c.toNat < 0x600

/-- Hebrew letters, marks and digits are of this kind. -/
structure Takes (kind : Char → Bool) : Prop where
  hebrew : ∀ c, isHebrew c → kind c
  digit : ∀ c, c.isDigit → kind c

/-- Every character but a certain sign. -/
theorem takes_ne (sign : Char) (hhebrew : isHebrew sign = false) (hdigit : sign.isDigit = false) :
    Takes (· != sign) where
  hebrew c hc := by
    rw [bne_iff_ne]
    rintro rfl
    rw [hc] at hhebrew
    cases hhebrew
  digit c hc := by
    rw [bne_iff_ne]
    rintro rfl
    rw [hc] at hdigit
    cases hdigit

theorem Takes.and {kind kind' : Char → Bool} (h : Takes kind) (h' : Takes kind') :
    Takes fun c => kind c && kind' c where
  hebrew c hc := Bool.and_eq_true_iff.mpr ⟨h.hebrew c hc, h'.hebrew c hc⟩
  digit c hc := Bool.and_eq_true_iff.mpr ⟨h.digit c hc, h'.digit c hc⟩

namespace MadeOf

variable {kind : Char → Bool} (h : Takes kind)
include h

theorem repr (n : Nat) : MadeOf kind n.repr :=
  fun c hc => h.digit c (Numeral.isDigit_of_mem_repr c hc)

theorem numeral (hsign : kind '-') (n : Int) : MadeOf kind (Numeral.text n) := by
  unfold Numeral.text
  split
  · refine append (fun c hc => ?_) (repr h _)
    rwa [List.mem_singleton.mp hc]
  · exact repr h _

end MadeOf

end Text

open LetterMachine.Text

theorem Slot.length_name (i : Slot) : i.name.toList.length = 1 := by
  revert i
  decide

theorem Slot.name_injective : Function.Injective Slot.name := by
  unfold Function.Injective
  decide

/-! ## Names, cells and instructions -/

theorem Instruction.isHebrew_of_mem_word (op : Opcode) (mode : Mode) :
    ∀ c ∈ word op mode, isHebrew c := by
  have hall : (word op mode).all isHebrew = true := by
    cases op <;> cases mode <;> decide
  exact List.all_eq_true.mp hall

section

variable {kind : Char → Bool} (h : Takes kind)
include h

theorem Slot.madeOf_name (hacc : kind 'A') (i : Slot) : MadeOf kind i.name := by
  have hname : ∀ i : Slot, MadeOf (fun c => isHebrew c || c == 'A') i.name := by decide
  refine (hname i).mono fun c hc => ?_
  rcases Bool.or_eq_true_iff.mp hc with hc | hc
  · exact h.hebrew c hc
  · rwa [beq_iff_eq.mp hc]

theorem Slot.madeOf_cell (hsigns : MadeOf kind "A= -()") (i : Slot) (x : Int) :
    MadeOf kind (i.cell x) := by
  have hnumeral := MadeOf.numeral h (hsigns '-' (by decide))
  have hname := (madeOf_name h (hsigns 'A' (by decide)) i).append
    (hsigns.part (by decide) : MadeOf kind "=")
  unfold cell
  split
  · exact hname.append ((hnumeral x).atRight (hsigns ' ' (by decide)) 2)
  · exact (((hname.append (hnumeral x)).append (hsigns.part (by decide) : MadeOf kind "(")).append
      (hnumeral (residue x))).append (hsigns.part (by decide) : MadeOf kind ")")

theorem Instruction.madeOf_text (hsign : kind '-') (hblank : kind ' ') (i : Instruction) :
    MadeOf kind i.text := by
  intro c hc
  rw [i.toList_text] at hc
  rcases List.mem_append.mp hc with hword | hnumber
  · exact h.hebrew c (isHebrew_of_mem_word _ _ c hword)
  · obtain ⟨n, -, hn⟩ := List.mem_flatMap.mp hnumber
    rcases List.mem_cons.mp hn with rfl | hn
    · exact hblank
    · exact MadeOf.numeral h hsign n c hn

end

end LetterMachine
