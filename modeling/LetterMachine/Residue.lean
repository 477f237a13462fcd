import LetterMachine.Fault

/-!
# Residues modulo 22

Registers hold whole numbers and are read modulo 22, in one of two ways: as the residue from 0 to
21, or as the balanced representative from -11 to 10.
-/

namespace LetterMachine

/-- The residue of a number, from 0 to 21. -/
def residue (x : Int) : Int := x % 22

def balanced (x : Int) : Int :=
  if residue x < 11 then residue x else residue x - 22

def quotient (n d : Int) : Answer Int :=
  if d = 0 then .error .divisionByZero else .ok (n.tdiv d)

theorem residue_nonneg (x : Int) : 0 ≤ residue x := by unfold residue; omega

theorem residue_lt (x : Int) : residue x < 22 := by unfold residue; omega

theorem neg_eleven_le_balanced (x : Int) : -11 ≤ balanced x := by
  unfold balanced residue; split <;> omega

theorem balanced_le_ten (x : Int) : balanced x ≤ 10 := by
  unfold balanced residue; split <;> omega

theorem balanced_eq_self {x : Int} (hlow : -11 ≤ x) (hhigh : x ≤ 10) : balanced x = x := by
  unfold balanced residue; split <;> omega

theorem residue_balanced (x : Int) : residue (balanced x) = residue x := by
  unfold balanced residue; split <;> omega

end LetterMachine
