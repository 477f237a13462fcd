/-!
# Sets of characters by their boundaries

A large set of characters is written as the increasing list of the code points at which membership
changes: the first boundary opens a run of members, the second closes it, and so on.
-/

namespace LetterMachine.Text

/-- A code point is a member iff an odd number of boundaries lie at or below it. -/
def within (boundaries : List Nat) (c : Char) : Bool :=
  boundaries.countP (· ≤ c.toNat) % 2 == 1

end LetterMachine.Text
