import LetterMachine.Text.Printable

/-!
# Quoted text

A text is quoted in single quotes, or in double quotes when it holds a single quote and no double
one.  Backslashes, the quote itself and characters that do not print are escaped, so that the quoted
form is one line of printable characters.
-/

namespace LetterMachine.Text

def singleQuote : Char := '\x27'

def doubleQuote : Char := '\x22'

def backslash : Char := '\x5c'

/-- A number in hexadecimal, in small letters, with zeros in front up to the given width. -/
def hex (width n : Nat) : List Char :=
  let digits := Nat.toDigits 16 n
  List.replicate (width - digits.length) '0' ++ digits

def escape (quote c : Char) : List Char :=
  if c == quote || c == backslash then [backslash, c]
  else if c == '\n' then [backslash, 'n']
  else if c == '\r' then [backslash, 'r']
  else if c == '\t' then [backslash, 't']
  -- what does not print is shown by its code point, in the shortest of three widths
  else if isPrintable c then [c]
  else if c.toNat < 0x100 then backslash :: 'x' :: hex 2 c.toNat
  else if c.toNat < 0x10000 then backslash :: 'u' :: hex 4 c.toNat
  else backslash :: 'U' :: hex 8 c.toNat

def quoteFor (cs : List Char) : Char :=
  if cs.contains singleQuote && !cs.contains doubleQuote then doubleQuote else singleQuote

def quoted (s : String) : String :=
  let cs := s.toList
  let quote := quoteFor cs
  String.ofList (quote :: cs.flatMap (escape quote) ++ [quote])

end LetterMachine.Text
