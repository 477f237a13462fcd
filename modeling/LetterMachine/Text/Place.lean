/-!
# Places in a text

Lines and columns count from one.  Only a line feed begins a new line, and every character takes
one column.
-/

namespace LetterMachine.Text

structure Place where
  line : Nat
  column : Nat
  deriving DecidableEq, Repr

def Place.start : Place := ⟨1, 1⟩

def Place.next (p : Place) (c : Char) : Place :=
  if c = '\n' then ⟨p.line + 1, 1⟩ else ⟨p.line, p.column + 1⟩

def Place.after (p : Place) (cs : List Char) : Place := cs.foldl Place.next p

@[simp] theorem Place.after_nil (p : Place) : p.after [] = p := rfl

@[simp] theorem Place.after_cons (p : Place) (c : Char) (cs : List Char) :
    p.after (c :: cs) = (p.next c).after cs := rfl

theorem Place.after_append (p : Place) (cs ds : List Char) :
    p.after (cs ++ ds) = (p.after cs).after ds := List.foldl_append

end LetterMachine.Text
