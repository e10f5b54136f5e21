import SpendScript.Hash.Composed
import SpendScript.Text.Quoted

/-!
# SpendScript.Text.Base58

Base-58 text of byte strings, and its form with a checksum of four bytes. A leading zero byte is
a leading `1`; the rest is the number that the bytes spell, in base 58.
-/

namespace SpendScript.Text

/-- Why a text is not the base-58 form of a byte string. -/
inductive Base58Error where
  /-- A character outside ASCII, at this byte of the text. -/
  | nonAscii (position : Nat)
  /-- An ASCII character outside the alphabet. -/
  | badChar (char : Char) (position : Nat)
  /-- Fewer than four bytes, so there is no checksum. -/
  | noChecksum
  /-- The checksum is not that of the bytes before it. -/
  | wrongChecksum
deriving DecidableEq

def Base58Error.message : Base58Error → String
  | .nonAscii position =>
    s!"invalid base58: provided string contained non-ascii character starting at byte {position}"
  | .badChar char position =>
    s!"invalid base58 character {Quoted.char char} at index {position}"
  | .noChecksum => "invalid base58: data too short for checksum"
  | .wrongChecksum => "checksum mismatch"

namespace Base58

/-- The 58 digits: no zero, no capital letters O and I, no small l. -/
def alphabet : List Char :=
  "123456789ABCDEFGHJKLMNPQRSTUVWXYZabcdefghijkmnopqrstuvwxyz".toList

/-- The digit of value `n < 58`. -/
def digit (n : Nat) : Char := alphabet.getD n '1'

def digitValue? (c : Char) : Option Nat := alphabet.idxOf? c

/-- The base-58 digits of `n`, least significant first; `0` has none. -/
def digitsLE (n : Nat) : List Char :=
  if n = 0 then [] else digit (n % 58) :: digitsLE (n / 58)
termination_by n
decreasing_by omega

def encodeChars (bs : Bytes) : List Char :=
  List.replicate (bs.takeWhile (· == 0)).length '1' ++ (digitsLE (Bytes.toNatBE bs)).reverse

def encode (bs : Bytes) : String := String.ofList (encodeChars bs)

/-- The digit values of a text from character `position` on. Every character before the first
fault is ASCII, so character and byte positions agree there. -/
def digitValues (position : Nat) : List Char → Except Base58Error (List Nat)
  | [] => .ok []
  | c :: cs =>
    if 127 < c.toNat then .error (.nonAscii position)
    else
      match digitValue? c with
      | none => .error (.badChar c position)
      | some v =>
        match digitValues (position + 1) cs with
        | .error e => .error e
        | .ok vs => .ok (v :: vs)

def decodeChars (cs : List Char) : Except Base58Error Bytes :=
  match digitValues 0 cs with
  | .error e => .error e
  | .ok vs =>
    .ok (List.replicate (vs.takeWhile (· == 0)).length 0 ++
      Bytes.magnitudeBE (vs.foldl (fun n v => 58 * n + v) 0))

def decode (s : String) : Except Base58Error Bytes := decodeChars s.toList

def checkEncode (bs : Bytes) : String := encode (bs ++ Hash.checksum bs)

/-- Reads a text with a checksum and returns the bytes before it. -/
def checkDecode (s : String) : Except Base58Error Bytes :=
  match decode s with
  | .error e => .error e
  | .ok bs =>
    if bs.length < 4 then .error .noChecksum
    else
      let payload := bs.take (bs.length - 4)
      if bs.drop (bs.length - 4) = Hash.checksum payload then .ok payload
      else .error .wrongChecksum

end Base58

end SpendScript.Text
