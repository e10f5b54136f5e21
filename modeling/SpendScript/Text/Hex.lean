import SpendScript.Bytes
import SpendScript.Text.Quoted

/-!
# SpendScript.Text.Hex

Hexadecimal text of byte strings. Writing uses lower case; reading takes either case, two digits
a byte, and reports the first byte of the text that is no digit.
-/

namespace SpendScript.Text

/-- Why a text is not the hexadecimal form of a byte string. -/
inductive HexError where
  /-- The text has an odd number of bytes. -/
  | oddLength
  /-- The byte at `position` of the UTF-8 text is not a hexadecimal digit. -/
  | badByte (byte : UInt8) (position : Nat)
deriving DecidableEq

/-- The wording of a fault; a byte is shown as the character of that code point. -/
def HexError.message : HexError → String
  | .oddLength => "Odd number of digits"
  | .badByte byte position =>
    s!"Invalid character {Quoted.char (Char.ofNat byte.toNat)} at position {position}"

namespace Hex

/-- The digit for `n < 16`, in lower case. -/
def digit (n : Nat) : Char :=
  if n < 10 then Char.ofNat (0x30 + n) else Char.ofNat (0x57 + n)

/-- The value of a hexadecimal digit of either case. -/
def digitValue? (c : Char) : Option Nat :=
  if '0' ≤ c ∧ c ≤ '9' then some (c.toNat - 0x30)
  else if 'a' ≤ c ∧ c ≤ 'f' then some (c.toNat - 0x57)
  else if 'A' ≤ c ∧ c ≤ 'F' then some (c.toNat - 0x37)
  else none

def byteDigits (b : UInt8) : List Char := [digit (b.toNat / 16), digit (b.toNat % 16)]

/-- A number literal without leading zeros. -/
def shortLiteral (n : Nat) : String := "0x" ++ Quoted.hexNumber n

/-- One byte as a number literal of two digits. -/
def literal (b : UInt8) : String := "0x" ++ String.ofList (byteDigits b)

def digits (bs : Bytes) : List Char := bs.flatMap byteDigits

def encode (bs : Bytes) : String := String.ofList (digits bs)

def leadByte (c : Char) : UInt8 := (String.utf8EncodeChar c).headD 0

/-- Reads digit pairs from character `position` on. Every character before the first fault is a
digit, so character and byte positions agree there. -/
def decodePairs (position : Nat) : List Char → Except HexError Bytes
  | [] => .ok []
  | [c] =>
    match digitValue? c with
    | none => .error (.badByte (leadByte c) position)
    | some _ => .error .oddLength
  | c :: d :: rest =>
    match digitValue? c with
    | none => .error (.badByte (leadByte c) position)
    | some high =>
      match digitValue? d with
      | none => .error (.badByte (leadByte d) (position + 1))
      | some low =>
        match decodePairs (position + 2) rest with
        | .error e => .error e
        | .ok bs => .ok (UInt8.ofNat (16 * high + low) :: bs)

def utf8Length (cs : List Char) : Nat := cs.foldr (fun c n => c.utf8Size + n) 0

/-- Reads hexadecimal text; an odd length is reported before a bad digit. -/
def decodeChars (cs : List Char) : Except HexError Bytes :=
  if utf8Length cs % 2 = 1 then .error .oddLength else decodePairs 0 cs

def decode (s : String) : Except HexError Bytes := decodeChars s.toList

end Hex

end SpendScript.Text
