import SpendScript.Text.Hex

/-!
# SpendScript.Hash.Display

Identifiers of transactions and blocks. They are 32-byte digests, kept in the order in which
they are hashed and shown byte-reversed, so that the leading zeros of a block identifier come
first in its text.
-/

namespace SpendScript

/-- The identifier of a transaction or block, in the order in which it is hashed. -/
abbrev Identifier := Digest 32

inductive IdentifierError where
  /-- The byte string does not have 32 bytes. -/
  | badLength (length : Nat)
  /-- The text does not have 64 bytes. -/
  | badTextLength (length : Nat)
  /-- The text is not hexadecimal. -/
  | badHex (error : Text.HexError)
deriving DecidableEq

def IdentifierError.message : IdentifierError → String
  | .badLength length => s!"invalid hash: invalid hash length of {length}, want 32"
  | .badTextLength length =>
    s!"invalid hash: hash string must be 64 hex characters, got {length}"
  | .badHex error => "invalid hex: " ++ error.message

namespace Identifier

def ofBytes (bs : Bytes) : Except IdentifierError Identifier :=
  match Digest.ofBytes? 32 bs with
  | some d => .ok d
  | none => .error (.badLength bs.length)

/-- The text of an identifier: hexadecimal, last byte first. -/
def display (d : Identifier) : String := Text.Hex.encode d.reverse.bytes

def parse (s : String) : Except IdentifierError Identifier :=
  let cs := s.toList
  if Text.Hex.utf8Length cs = 64 then
    match Text.Hex.decodeChars cs with
    | .error e => .error (.badHex e)
    | .ok bs =>
      match ofBytes bs with
      | .error e => .error e
      | .ok d => .ok d.reverse
  else .error (.badTextLength (Text.Hex.utf8Length cs))

end Identifier

end SpendScript
