import LetterMachine.Fault

/-!
# Tokens

Program text is a row of words and numbers.  Between them stand gaps (space, tab, form feed,
carriage return, line feed) and comments, which run from `;` or `#` to the end of the line.  A token
is a maximal run of characters that are neither blank nor open a comment; a run that begins like a
number has to be one.
-/

namespace LetterMachine

open LetterMachine.Text

inductive TokenKind where
  | word
  | number
  deriving DecidableEq, Repr

def TokenKind.name : TokenKind → String
  | word => "word"
  | number => "number"

structure Token where
  kind : TokenKind
  text : String
  place : Option Place
  deriving DecidableEq, Repr

namespace Token

def value (t : Token) : Answer Int := (Numeral.read t.text).mapError Fault.numeral

def isGap (c : Char) : Bool :=
  c == ' ' || c == '\t' || c == '\x0c' || c == '\r' || c == '\n'

def opensComment (c : Char) : Bool := c == ';' || c == '#'

def isInside (c : Char) : Bool := !isBlank c && !opensComment c

def isSign (c : Char) : Bool := c == '+' || c == '-'

/-- The characters that a number begins with, and a word does not. -/
def opensNumber (c : Char) : Bool := isSign c || isDecimal c

/-- A number is made of digits, at least one, behind a sign or without. -/
def isNumber : List Char → Bool
  | [] => false
  | c :: rest =>
    if isSign c then !rest.isEmpty && rest.all isDecimal else (c :: rest).all isDecimal

/-- What a text is made of: its tokens up to the first stretch that is no token, and that stretch
with its place. -/
structure Scan where
  tokens : List Token
  stuck : Option (List Char × Place)
  deriving DecidableEq, Repr

def Scan.behind (t : Token) (s : Scan) : Scan := { s with tokens := t :: s.tokens }

def scan (p : Place) : List Char → Scan
  | [] => ⟨[], none⟩
  | c :: rest =>
    if isGap c then scan (p.next c) rest
    else if opensComment c then
      scan ((p.next c).after (rest.takeWhile (· != '\n'))) (rest.dropWhile (· != '\n'))
    else if isBlank c then ⟨[], some ([c], p)⟩
    else
      let run := c :: rest.takeWhile isInside
      if !opensNumber c then
        (scan (p.after run) (rest.dropWhile isInside)).behind ⟨.word, String.ofList run, some p⟩
      else if isNumber run then
        (scan (p.after run) (rest.dropWhile isInside)).behind ⟨.number, String.ofList run, some p⟩
      else ⟨[], some (run, p)⟩
termination_by cs => cs.length
decreasing_by
  · simp
  · have := (List.dropWhile_suffix (· != '\n') (l := rest)).length_le
    simp only [List.length_cons]; omega
  · have := (List.dropWhile_suffix isInside (l := rest)).length_le
    simp only [List.length_cons]; omega
  · have := (List.dropWhile_suffix isInside (l := rest)).length_le
    simp only [List.length_cons]; omega

/-- The tokens of a text.  A stretch that is no token is refused, and so many tokens stand before
it. -/
def ofText (s : String) : Answer (List Token) :=
  match scan Place.start s.toList with
  | ⟨tokens, none⟩ => .ok tokens
  | ⟨tokens, some (run, p)⟩ =>
    .error (.assembly ⟨.malformedToken, String.ofList run, tokens.length, some p⟩)

end Token

end LetterMachine
