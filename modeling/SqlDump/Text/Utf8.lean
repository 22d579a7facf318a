import SqlDump.Text.Basic

/-!
# UTF-8

Sizes in bytes, encoding, and two readings of bytes.  The lenient reading puts
one replacement character for every maximal part that begins no character; the
strict one accepts the encodings of texts and nothing else.
-/

namespace SqlDump

abbrev Bytes := List UInt8

namespace Text

/-- Number of bytes of the encoded text. -/
def size (text : Text) : Nat :=
  text.foldr (fun character bytes => character.utf8Size + bytes) 0

def encode (text : Text) : Bytes :=
  text.flatMap String.utf8EncodeChar

end Text

namespace Utf8

def replacement : Char := '\uFFFD'

/-- A character of which some bytes were read: how many are owed, the range the
next one must lie in, and the bits so far. -/
structure Partial where
  owed : Nat
  low : Nat
  high : Nat
  bits : Nat
deriving DecidableEq, Repr

/-- A reading in progress, with the characters read in reverse order. -/
structure Reading where
  read : Text := []
  begun : Option Partial := none
deriving DecidableEq, Repr

def Reading.start (read : Text) (byte : Nat) : Reading :=
  if byte < 0x80 then ⟨Char.ofNat byte :: read, none⟩
  else if 0xC2 ≤ byte ∧ byte ≤ 0xDF then
    ⟨read, some ⟨1, 0x80, 0xBF, byte - 0xC0⟩⟩
  else if byte = 0xE0 then ⟨read, some ⟨2, 0xA0, 0xBF, 0⟩⟩
  else if byte = 0xED then ⟨read, some ⟨2, 0x80, 0x9F, 0xD⟩⟩
  else if 0xE1 ≤ byte ∧ byte ≤ 0xEF then
    ⟨read, some ⟨2, 0x80, 0xBF, byte - 0xE0⟩⟩
  else if byte = 0xF0 then ⟨read, some ⟨3, 0x90, 0xBF, 0⟩⟩
  else if 0xF1 ≤ byte ∧ byte ≤ 0xF3 then
    ⟨read, some ⟨3, 0x80, 0xBF, byte - 0xF0⟩⟩
  else if byte = 0xF4 then ⟨read, some ⟨3, 0x80, 0x8F, 4⟩⟩
  else ⟨replacement :: read, none⟩

def Reading.take (reading : Reading) (byte : UInt8) : Reading :=
  match reading.begun with
  | none => .start reading.read byte.toNat
  | some begun =>
      if begun.low ≤ byte.toNat ∧ byte.toNat ≤ begun.high then
        let bits := begun.bits * 64 + (byte.toNat - 0x80)
        if begun.owed ≤ 1 then ⟨Char.ofNat bits :: reading.read, none⟩
        else ⟨reading.read, some ⟨begun.owed - 1, 0x80, 0xBF, bits⟩⟩
      else .start (replacement :: reading.read) byte.toNat

/-- The text read; a character cut off by the end counts as one bad part. -/
def Reading.finish (reading : Reading) : Text :=
  match reading.begun with
  | none => reading.read.reverse
  | some _ => (replacement :: reading.read).reverse

def decodeLossy (bytes : Bytes) : Text :=
  (bytes.foldl Reading.take {}).finish

def decode? (bytes : Bytes) : Option Text :=
  let text := decodeLossy bytes
  if text.encode = bytes then some text else none

end Utf8

end SqlDump
