/-!
# Columns

A text is set in a column by blanks in front of it or behind it.  Widths count characters, so a
combining mark takes a place of its own, and a text wider than its column is left as it is.
-/

namespace LetterMachine.Text

def atRight (width : Nat) (s : String) : String :=
  String.ofList (List.replicate (width - s.length) ' ') ++ s

def atLeft (width : Nat) (s : String) : String :=
  s ++ String.ofList (List.replicate (width - s.length) ' ')

def lines (ls : List String) : String :=
  "\n".intercalate ls

end LetterMachine.Text
