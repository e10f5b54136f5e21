import SpendScript.Opcode

/-!
# SpendScript.Script.Chunk

The elements of a script. A push keeps the opcode byte that introduced it, so that a script that
was read is written back byte for byte, in whatever form its pushes were.
-/

namespace SpendScript

inductive Chunk where
  /-- A byte that stands alone. -/
  | op (code : UInt8)
  /-- Data behind the opcode byte `code`. -/
  | push (code : UInt8) (data : Bytes)
deriving DecidableEq

namespace Chunk

def pushData1 : UInt8 := 0x4c

def pushData2 : UInt8 := 0x4d

def pushData4 : UInt8 := 0x4e

def ofOpcode (o : Opcode) : Chunk := .op o.byte

/-- The shortest push of `data`; the opcode for zero if there is none, and nothing for data
whose length does not fit four bytes. -/
def ofData? (data : Bytes) : Option Chunk :=
  let n := data.length
  if n = 0 then some (ofOpcode .zero)
  else if n ≤ 0x4b then some (.push (UInt8.ofNat n) data)
  else if n ≤ 0xff then some (.push pushData1 data)
  else if n ≤ 0xffff then some (.push pushData2 data)
  else if n ≤ 0xffffffff then some (.push pushData4 data)
  else none

def code : Chunk → UInt8
  | .op code => code
  | .push code _ => code

def data? : Chunk → Option Bytes
  | .op _ => none
  | .push _ data => some data

/-- What the chunk puts on the stack when it is executed as a push. -/
def payload (c : Chunk) : Bytes := c.data?.getD []

/-- How many length bytes follow an opcode byte. -/
def lengthWidth (code : UInt8) : Nat :=
  if code = pushData1 then 1
  else if code = pushData2 then 2
  else if code = pushData4 then 4
  else 0

/-- The bytes of a chunk. A length that does not fit its width loses its high bytes. -/
def encode : Chunk → Bytes
  | .op code => [code]
  | .push code data => code :: Bytes.ofNatLE (lengthWidth code) data.length ++ data

def encodedLength : Chunk → Nat
  | .op _ => 1
  | .push code data => 1 + lengthWidth code + data.length

/-- Whether the opcode byte is that of a push, of a small number or of `OP_RESERVED`. -/
def isPushOnly (c : Chunk) : Bool := c.code ≤ Opcode.sixteen.byte

/-- Whether a push is in the shortest form for its data. Data that an opcode of its own pushes
has none. -/
def isMinimalPush : Chunk → Bool
  | .op _ => true
  | .push _ [] => false
  | .push code [b] => !((1 ≤ b && b ≤ 16) || b == 0x81) && code == 1
  | .push code data =>
    if data.length ≤ 0x4b then code.toNat == data.length
    else if data.length ≤ 0xff then code == pushData1
    else if data.length ≤ 0xffff then code == pushData2
    else true

def token : Chunk → List Char
  | .push _ [] => ['0']
  | .push _ data => Text.Hex.digits data
  | .op code =>
    if code = Opcode.zero.byte then ['0']
    else if code = Opcode.oneNegate.byte then ['-', '1']
    else (Opcode.describe code).toList

@[simp] theorem length_encode (c : Chunk) : c.encode.length = c.encodedLength := by
  cases c with
  | op code => rfl
  | push code data => simp [encode, encodedLength]; omega

end Chunk

end SpendScript
