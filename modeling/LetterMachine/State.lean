import LetterMachine.Register
import LetterMachine.Residue
import LetterMachine.Table

/-!
# States

A state holds one whole number for each register.  Numbers are kept as they come: two states may
agree modulo 22 and still differ.
-/

namespace LetterMachine

structure State where
  /-- The letter registers, in the order of the alphabet. -/
  letters : Vector Int 22
  acc : Int
  deriving DecidableEq, Repr

namespace State

def zero : State := ⟨Vector.replicate 22 0, 0⟩

instance : Inhabited State := ⟨zero⟩

def get (s : State) (i : Slot) : Int :=
  if h : i.val < 22 then s.letters[i.val] else s.acc

def set (s : State) (i : Slot) (x : Int) : State :=
  if h : i.val < 22 then { s with letters := s.letters.set i.val x } else { s with acc := x }

def toList (s : State) : List Int := s.letters.toList ++ [s.acc]

def ofSlots (f : Slot → Int) : State :=
  ⟨Vector.ofFn fun i => f i.castSucc, f Slot.acc⟩

/-- The state that holds the given numbers, which must be as many as there are slots. -/
def ofList (xs : List Int) : Answer State :=
  if h : xs.length = 23 then .ok (ofSlots fun i => xs[i.val]) else .error (.registerCount xs.length)

def residues (s : State) : List Int := s.toList.map residue

def named (s : State) : List (String × Int) := (Slot.all.map Slot.name).zip s.toList

/-- The indices that fit into a word of 64 bits lie below this bound, and not below its negative. -/
def indexBound : Int := 0x8000000000000000

/-- The slot that an index means: counted from the front, or from the end if it is negative.  An
index has to fit into a word of 64 bits. -/
def slotAt (i : Int) : Answer Slot :=
  if h : 0 ≤ i ∧ i < 23 then .ok ⟨i.toNat, Slot.toNat_lt h⟩
  else if h : -23 ≤ i ∧ i < 0 then .ok ⟨(i + 23).toNat, Slot.toNat_add_lt h⟩
  -- both are refused, for different reasons
  else if -indexBound ≤ i ∧ i < indexBound then .error .slotOutside
  else .error .indexTooLarge

/-- The state after assignments by index, in the order of a table: an index that is given twice has
its last value at its first turn. -/
def assign (s : State) (updates : List (Int × Int)) : Answer State :=
  (Table.ofPairs (· == ·) updates).foldlM (fun s (i, x) => return s.set (← slotAt i) x) s

def changed (before after : State) : List Slot :=
  Slot.all.filter fun i => before.get i ≠ after.get i

@[simp] theorem get_ofSlots (f : Slot → Int) (i : Slot) : (ofSlots f).get i = f i := by
  unfold get ofSlots
  split
  · simp [Fin.castSucc]
  · have : i = Slot.acc := Fin.ext (by simp [Slot.acc]; omega)
    rw [this]

theorem get_set (s : State) (i j : Slot) (x : Int) :
    (s.set i x).get j = if i = j then x else s.get j := by
  unfold get set
  by_cases hi : i.val < 22 <;> by_cases hj : j.val < 22 <;>
    simp only [hi, hj, dite_true, dite_false]
  · simp [Vector.getElem_set, Fin.ext_iff]
  · rw [if_neg (by intro h; subst h; exact hj hi)]
  · rw [if_neg (by intro h; subst h; exact hi hj)]
  · rw [if_pos (Fin.ext (by omega))]

theorem get_zero (i : Slot) : zero.get i = 0 := by
  unfold get zero
  split
  · exact Vector.getElem_replicate _
  · rfl

/-- States are equal iff they agree at every slot. -/
theorem ext_get {s t : State} (h : ∀ i, s.get i = t.get i) : s = t := by
  have letters : s.letters = t.letters := by
    apply Vector.ext
    intro i hi
    simpa [get, hi] using h ⟨i, by omega⟩
  have acc : s.acc = t.acc := h Slot.acc
  cases s; cases t; simp_all

end State

end LetterMachine
