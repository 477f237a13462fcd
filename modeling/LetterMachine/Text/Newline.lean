/-!
# Line ends

A carriage return ends a line, alone or followed by a line feed.  Texts that are read from outside
have every line end written as one line feed.
-/

namespace LetterMachine.Text

def unixLines : List Char → List Char
  | [] => []
  | '\r' :: '\n' :: rest => '\n' :: unixLines rest
  | '\r' :: rest => '\n' :: unixLines rest
  | c :: rest => c :: unixLines rest

end LetterMachine.Text
