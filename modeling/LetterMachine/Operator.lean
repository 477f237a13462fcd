import LetterMachine.Instruction
import LetterMachine.State

/-!
# Operators

What each opcode does to a state.  An operator reads the old state only, and is written as an
operation on the row of letters as a whole: on its two halves, on the ring that it forms, or on its
quartets.  `Instruction.apply` adds the modes.
-/

namespace LetterMachine

abbrev Row := Vector Int 22

abbrev Half := Vector Int 11

namespace Row

def first (r : Row) : Half := r.take 11

def second (r : Row) : Half := r.drop 11

def ofHalves (a b : Half) : Row := a ++ b

/-- The row turned to the left, so that the letter in place `k` comes first. -/
def turn (k : Int) (r : Row) : Row :=
  Vector.ofFn fun i => r.get ⟨((i.val + k) % 22).toNat, by omega⟩

def mapSecond (f : Int → Int → Int) (r : Row) : Row :=
  ofHalves r.first (Vector.zipWith f r.first r.second)

@[simp] theorem getElem_first (r : Row) (i : Nat) (h : i < 11) : r.first[i] = r[i] :=
  Vector.getElem_take ..

@[simp] theorem getElem_second (r : Row) (i : Nat) (h : i < 11) : r.second[i] = r[11 + i] :=
  Vector.getElem_drop ..

theorem getElem_ofHalves (a b : Half) (i : Nat) (h : i < 22) :
    (ofHalves a b)[i] = if h' : i < 11 then a[i] else b[i - 11] :=
  Vector.getElem_append ..

theorem getElem_turn (k : Int) (r : Row) (i : Nat) (h : i < 22) :
    (r.turn k)[i] = r.get ⟨((i + k) % 22).toNat, by omega⟩ := by
  unfold turn
  rw [Vector.getElem_ofFn]

/-- The first half is kept, and each letter of the second half meets the one eleven places before
it. -/
theorem getElem_mapSecond (f : Int → Int → Int) (r : Row) (i : Nat) (h : i < 22) :
    (r.mapSecond f)[i] = if h' : i < 11 then r[i] else f r[i - 11] r[i] := by
  unfold mapSecond
  rw [getElem_ofHalves]
  split
  · rw [getElem_first]
  · simp only [Vector.getElem_zipWith, getElem_first, getElem_second]
    congr 2
    omega

/-- The places of the quartets.  The last two places belong to none. -/
def quartets : List (List Nat) :=
  (List.range 5).map fun q => (List.range 4).map (4 * q + ·)

/-- Quartets of letters changed one by one; the letters that fill no quartet are kept. -/
def mapQuartets (f : Int → Int → Int → Int → Vector Int 4) : List Int → List Int
  | a :: b :: c :: d :: rest => (f a b c d).toList ++ mapQuartets f rest
  | rest => rest

@[simp] theorem length_mapQuartets (f : Int → Int → Int → Int → Vector Int 4) (xs : List Int) :
    (mapQuartets f xs).length = xs.length := by
  fun_induction mapQuartets f xs with
  | case1 a b c d rest ih => simp [ih]; omega
  | case2 => rfl

def overQuartets (f : Int → Int → Int → Int → Vector Int 4) (r : Row) : Row :=
  ⟨(mapQuartets f r.toList).toArray, by simp⟩

def balance (r : Row) : Row := r.map balanced

def sum {n : Nat} (v : Vector Int n) : Int := v.foldr (· + ·) 0

def greatest (h : Half) : Int := h.foldl max h[0]

/-- The correlations of the first half with the eleven letters from each place of the second half
on. -/
def correlations (r : Row) : Half :=
  Vector.ofFn fun k =>
    sum (Vector.zipWith (· * ·) r.balance.first (turn (11 + k.val) r.balance).first)

end Row

namespace State

def correlations (s : State) : List Int := (Row.correlations s.letters).toList

/-- The composite round on the first four letters, without reduction. -/
def round (k : Int) (s : State) : State :=
  let m := s.letters[0] + 3 * s.letters[2] + k
  let n := s.letters[1] + 5 * s.letters[3] + k
  { s with
    letters := (((s.letters.set 0 (m + n)).set 1 (m - n)).set 2 (3 * m - n)).set 3
      (2 * n + s.letters[0]) }

/-- The first letter brought to the accumulator, and added to the second letter and the last. -/
def spread (s : State) : State :=
  ⟨(s.letters.set 1 (residue (s.letters[1] + s.letters[0]))).set 21
    (residue (s.letters[21] + s.letters[0])), s.letters[0]⟩

/-- The halves of the letters compared by their balanced sums: the sign of the difference goes to
the accumulator, and the greatest letter of the heavier half to the head of that half. -/
def compareHalves (s : State) : State :=
  let first := (Row.balance s.letters).first
  let second := (Row.balance s.letters).second
  let letters :=
    if Row.sum first > Row.sum second then s.letters.set 0 (residue (Row.greatest first))
    else if Row.sum second > Row.sum first then s.letters.set 11 (residue (Row.greatest second))
    else s.letters
  ⟨letters, residue (Row.sum first - Row.sum second).sign⟩

end State

namespace Opcode

/-- What an opcode does by itself. -/
def run (op : Opcode) (s : State) : State :=
  let row : Row := s.letters
  match op with
  | alef => s
  | bet => { s with letters := row.mapSecond fun a b => residue (b + a) }
  | gimel => { s with letters := row.mapSecond fun a b => residue (b * a) }
  | dalet =>
    { s with
      letters := Row.ofHalves (Vector.zipWith (fun a b => residue (b - a)) row.first row.second)
        (Vector.zipWith (fun a b => residue (a - b)) row.first row.second) }
  | hei =>
    let signs := row.map fun x => (balanced x).sign
    ⟨signs, residue (Row.sum signs)⟩
  | vav => { s with letters := Row.ofHalves row.second row.first }
  | zayin => ⟨row.map fun x => residue (x + 1), s.acc + 22⟩
  | chet => ⟨row.map fun x => residue (x - 1), s.acc - 22⟩
  | tet =>
    let squares := row.map fun x => x * x
    ⟨squares.map residue, residue (Row.sum squares)⟩
  -- the letters receive the accumulator unreduced
  | yod => { s with letters := Vector.replicate 22 s.acc }
  | kaf =>
    -- a window of four is two windows of two
    let pairs := Vector.zipWith (· + ·) row (row.turn 1)
    { s with letters := (Vector.zipWith (· + ·) pairs (Row.turn 2 pairs)).map residue }
  | lamed =>
    let total := Row.sum row.balance
    ⟨row.balance.map fun x => residue (x - total.tdiv 22), residue total⟩
  | mem =>
    -- each letter with its two neighbours, and the mean truncated toward zero
    let ring := row.balance
    let sums := Vector.zipWith (· + ·) (Vector.zipWith (· + ·) (ring.turn (-1)) ring) (ring.turn 1)
    let means := sums.map (·.tdiv 3)
    ⟨means.map residue, residue ((Row.sum means).tdiv 22)⟩
  | nun => ⟨row.map fun x => residue (-balanced x), residue (-balanced s.acc)⟩
  -- to the right by the residue of the accumulator
  | samekh => { s with letters := row.turn (-residue s.acc) }
  | ayin => { s with acc := residue (Row.greatest row.correlations) }
  | pe => s.spread
  | tsadi => s.compareHalves
  | qof => { s with letters := row.reverse.mapIdx fun i x => residue (x + i) }
  | resh =>
    -- a stride of zero would give all letters one number
    let stride := if balanced row[1] = 0 then 1 else balanced row[1]
    { s with letters := Vector.ofFn fun i => residue (balanced s.acc + i.val * stride) }
  | shin =>
    let mixed := row.overQuartets fun a b c d =>
      #v[residue (a * a + b), residue (b * b + c), residue (c * c + d), residue (d * d + a)]
    ⟨mixed, residue ((mixed.map fun x => ((balanced x).natAbs : Int)).foldl max 0)⟩
  | tav => { s with letters := row.overQuartets fun a b c d => #v[c, d, a, b] }
  | sovav => s.round 0

/-- What an opcode does with an operand.  Where an opcode takes none, the operand does not
matter. -/
def runWith (op : Opcode) (k : Int) (s : State) : State :=
  let row : Row := s.letters
  match op with
  | bet => { s with letters := row.mapSecond fun a b => residue (b + a + k) }
  | gimel => { s with letters := row.mapSecond fun a b => residue (b * a + k) }
  | tav =>
    { s with
      letters := row.overQuartets fun a b c d =>
        #v[residue (c + k), residue (d + k), residue (a + k), residue (b + k)] }
  | sovav => s.round k
  | _ => op.run s

end Opcode

def State.drift (before after : State) : Int :=
  Row.sum (Vector.zipWith (· - ·) after.letters before.letters) + (after.acc - before.acc)

def Instruction.apply (i : Instruction) (s : State) : State :=
  match i.mode with
  | .plain => i.op.run s
  -- the letters keep what they hold, and the accumulator sums up what would have changed
  | .query => { s with acc := residue (s.drift (i.op.run s)) }
  | .immediate => i.op.runWith i.operand s

def State.after (s : State) (p : Program) : State := p.foldl (fun s i => i.apply s) s

end LetterMachine
