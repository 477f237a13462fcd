import LetterMachine.Opcode

/-!
# Words

A word is the Latin name of an opcode, in small or capital letters, or a row of Hebrew letters, each
with a vowel mark or without.  A closing `?` or `!` gives a Latin name, or a last letter that has no
mark, the mode of the mark.  The three letters of the composite round, of which only the last may
have a mark, mean the round.
-/

namespace LetterMachine.Word

/-- What a word means: opcodes with their modes. -/
abbrev Meaning := List (Opcode × Mode)

/-- The letters of a row, each with the mode of its mark. -/
def letters? : List Char → Option Meaning
  | [] => some []
  | [c] => (Opcode.ofLetter? c).map fun op => [(op, .plain)]
  | c :: m :: rest =>
    match Opcode.ofLetter? c, Mode.ofMark? m with
    | none, _ => none
    | some op, some mode => (letters? rest).map ((op, mode) :: ·)
    | some op, none => (letters? (m :: rest)).map ((op, .plain) :: ·)

/-- The word without its closing mark, and the mode of that mark.  A closing mark has a word in
front of it. -/
def splitSuffix (cs : List Char) : List Char × Mode :=
  match cs.getLast?.bind Mode.ofSuffix? with
  | some mode => if cs.length > 1 then (cs.dropLast, mode) else (cs, .plain)
  | none => (cs, .plain)

def latin? (cs : List Char) : Option Opcode :=
  if cs.all fun c => c.toNat < 128 then Opcode.ofName? (String.ofList (cs.map Char.toUpper))
  else none

/-- The meaning with the mode of a closing mark at its last letter.  A letter that has a mark takes
no other. -/
def close? (suffix : Mode) : Meaning → Option Meaning
  | [] => none
  | [(op, mode)] =>
    if suffix = .plain then some [(op, mode)]
    else if mode = .plain then some [(op, suffix)]
    else none
  | head :: rest => (close? suffix rest).map (head :: ·)

/-- The meaning with the letters of the composite round read as the round. -/
def contract : Meaning → Meaning
  | [(.samekh, .plain), (.bet, .plain), (.bet, mode)] => [(.sovav, mode)]
  | letters => letters

def meaning? (cs : List Char) : Option Meaning :=
  let (body, suffix) := splitSuffix cs
  match latin? body with
  | some op => some [(op, suffix)]
  -- a mark behind Hebrew letters belongs to the last of them
  | none => ((letters? body).bind (close? suffix)).map contract

end LetterMachine.Word
