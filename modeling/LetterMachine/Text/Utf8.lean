/-!
# Texts from bytes

A text is read from its bytes in UTF-8.  Where the bytes are no text, the fault names the bytes of
the first sequence that breaks off: the longest stretch that could still begin a character.
-/

namespace LetterMachine.Text

inductive Utf8Cause where
  | start
  | continuation
  | cut
  deriving DecidableEq, Repr

/-- The first bytes that are no text: their cause, where they begin, and how many they are. -/
structure Utf8Fault where
  cause : Utf8Cause
  offset : Nat
  byte : UInt8
  length : Nat
  deriving DecidableEq, Repr

/-- One step of reading: a character and the bytes behind it, or a fault of so many bytes. -/
inductive Utf8Step where
  | char (c : Char) (length : Nat)
  | fault (cause : Utf8Cause) (length : Nat)

def continues (b : UInt8) : Bool :=
  0x80 ≤ b && b ≤ 0xbf

/-- The least and the greatest second byte after the first byte of a longer character: the bounds
keep out overlong forms, surrogates and what lies above the last code point. -/
def secondBounds (b : UInt8) : UInt8 × UInt8 :=
  if b == 0xe0 then (0xa0, 0xbf)
  else if b == 0xed then (0x80, 0x9f)
  else if b == 0xf0 then (0x90, 0xbf)
  else if b == 0xf4 then (0x80, 0x8f)
  else (0x80, 0xbf)

/-- The number of bytes that the first byte of a character announces, if it is one. -/
def announced (b : UInt8) : Option Nat :=
  if b < 0x80 then some 1
  else if b < 0xc2 then none
  else if b < 0xe0 then some 2
  else if b < 0xf0 then some 3
  else if b < 0xf5 then some 4
  else none

def leadBits (b : UInt8) : Nat :=
  if b < 0x80 then b.toNat
  else if b < 0xe0 then b.toNat % 0x20
  else if b < 0xf0 then b.toNat % 0x10
  else b.toNat % 0x08

/-- The character that begins with `first` and goes on in `rest`. -/
def readChar (first : UInt8) (rest : List UInt8) : Utf8Step :=
  match announced first with
  | none => .fault .start 1
  | some n =>
    let (low, high) := secondBounds first
    let fits : Nat × UInt8 → Bool := fun (i, b) =>
      if i == 0 then low ≤ b && b ≤ high else continues b
    let behind := rest.take (n - 1)
    -- the longest stretch that could still begin a character
    let good := ((List.range behind.length).zip behind).takeWhile fits
    if good.length == n - 1 then
      .char (Char.ofNat (good.foldl (fun acc (_, b) => acc * 64 + b.toNat % 64) (leadBits first))) n
    else if good.length == behind.length then .fault .cut (good.length + 1)
    else .fault .continuation (good.length + 1)

/-- Reads the bytes, the first of which stands at `offset`; the first `skip` belong to a character
that has been read. -/
def decodeFrom : (offset skip : Nat) → List UInt8 → Except Utf8Fault (List Char)
  | _, _, [] => .ok []
  | offset, skip + 1, _ :: rest => decodeFrom (offset + 1) skip rest
  | offset, 0, b :: rest =>
    match readChar b rest with
    | .char c n => do return c :: (← decodeFrom (offset + 1) (n - 1) rest)
    | .fault cause n => .error ⟨cause, offset, b, n⟩

def decode (bytes : List UInt8) : Except Utf8Fault (List Char) :=
  decodeFrom 0 0 bytes

end LetterMachine.Text
