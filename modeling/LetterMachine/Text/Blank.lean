/-!
# Blank characters

The white space of Unicode, together with the four separators `U+001C` to `U+001F`.  A text is
stripped of blanks at both its ends, and split at them into words.
-/

namespace LetterMachine.Text

/-- The separators of files, groups, records and units, `U+001C` to `U+001F`. -/
def isSeparator (c : Char) : Bool :=
  0x1c ≤ c.toNat && c.toNat ≤ 0x1f

/-- Unicode white space and the four separators. -/
def isBlank (c : Char) : Bool :=
  let n := c.toNat
  (9 ≤ n && n ≤ 13) || isSeparator c || n == 0x20 || n == 0x85 || n == 0xa0 || n == 0x1680
    || (0x2000 ≤ n && n ≤ 0x200a) || n == 0x2028 || n == 0x2029 || n == 0x202f || n == 0x205f
    || n == 0x3000

def trim (cs : List Char) : List Char :=
  ((cs.dropWhile isBlank).reverse.dropWhile isBlank).reverse

def strip (s : String) : String :=
  String.ofList (trim s.toList)

/-- The maximal runs of characters that are not blank, in order. -/
def words (cs : List Char) : List (List Char) :=
  match _h : cs.dropWhile isBlank with
  | [] => []
  | c :: rest =>
    (c :: rest.takeWhile (!isBlank ·)) :: words (rest.dropWhile (!isBlank ·))
termination_by cs.length
decreasing_by
  have h₁ := (List.dropWhile_suffix (fun c => isBlank c) (l := cs)).length_le
  have h₂ := (List.dropWhile_suffix (fun c => !isBlank c) (l := rest)).length_le
  rw [_h] at h₁
  simp only [List.length_cons] at h₁
  omega

end LetterMachine.Text
