import SpendScript.Script.Chunk
import SpendScript.Hash.Composed

/-!
# SpendScript.Script.Basic

Scripts as lists of chunks, and their byte form. Reading fails only where a push runs past the
end, and the fault names the place where that push began.

* `length_toBytes` — the length of the byte form is the sum of the lengths of the chunks.
-/

namespace SpendScript

/-- Why a script cannot be read or built. -/
inductive ScriptError where
  /-- The push at `offset` needs more bytes than are left. -/
  | truncatedPush (offset needed available : Nat)
  | dataTooBig (length : Nat)
  /-- A word of assembly text that is neither a name nor data. -/
  | badToken (token : String)
  | badHex (error : Text.HexError)
  | noSmallInt (n : Nat)
  | badKeyCount (keys : Nat)
  | badThreshold (signatures keys : Nat)
deriving DecidableEq

/-- The most keys that the template for several signatures lists. -/
def maxTemplateKeys : Nat := 16

def ScriptError.message : ScriptError → String
  | .truncatedPush offset needed available =>
    s!"truncated push at offset {offset}: needed {needed} bytes, {available} available"
  | .dataTooBig length => s!"push data of {length} bytes is too big"
  | .badToken token => "invalid asm token '" ++ token ++ "'"
  | .badHex error => "hex decode error: " ++ error.message
  | .noSmallInt n => s!"invalid multisig template: {n} does not fit a small integer opcode"
  | .badKeyCount keys =>
    s!"invalid multisig template: {keys} public keys, expected 1..={maxTemplateKeys}"
  | .badThreshold signatures keys =>
    s!"invalid multisig template: {signatures} required signatures with {keys} public keys"

structure Script where
  chunks : List Chunk
deriving DecidableEq

namespace Script

def empty : Script := ⟨[]⟩

instance : Inhabited Script := ⟨empty⟩

def length (s : Script) : Nat := s.chunks.length

def isEmpty (s : Script) : Bool := s.chunks.isEmpty

def toBytes (s : Script) : Bytes := s.chunks.flatMap Chunk.encode

/-- The length of the byte form, counted without writing it. -/
def encodedLength (s : Script) : Nat := s.chunks.foldr (fun c n => c.encodedLength + n) 0

/-- Reads the data of a push of `n` bytes. -/
def readData (offset : Nat) (code : UInt8) (n : Nat) (bs : Bytes) :
    Except ScriptError (Chunk × Bytes) :=
  let data := bs.take n
  if data.length = n then .ok (.push code data, bs.drop n)
  else .error (.truncatedPush offset n bs.length)

/-- Reads what follows the opcode byte of the chunk at `offset`. -/
def readChunk (offset : Nat) (code : UInt8) (bs : Bytes) : Except ScriptError (Chunk × Bytes) :=
  let width := Chunk.lengthWidth code
  if 1 ≤ code ∧ code ≤ Opcode.maxDirectPush then readData offset code code.toNat bs
  else if width = 0 then .ok (.op code, bs)
  else if (bs.take width).length = width then
    readData offset code (Bytes.toNatLE (bs.take width)) (bs.drop width)
  else .error (.truncatedPush offset width bs.length)

theorem length_le_of_readData {offset n : Nat} {code : UInt8} {bs rest : Bytes} {c : Chunk}
    (h : readData offset code n bs = .ok (c, rest)) : rest.length ≤ bs.length := by
  simp only [readData] at h
  split at h
  · cases h
    rw [List.length_drop]
    omega
  · cases h

theorem length_le_of_readChunk {offset : Nat} {code : UInt8} {bs rest : Bytes} {c : Chunk}
    (h : readChunk offset code bs = .ok (c, rest)) : rest.length ≤ bs.length := by
  simp only [readChunk] at h
  split at h
  · exact length_le_of_readData h
  · split at h
    · cases h
      exact Nat.le_refl _
    · split at h
      · have hle := length_le_of_readData h
        rw [List.length_drop] at hle
        omega
      · cases h

/-- Reads the chunks of a byte string that begins at `offset`. -/
def decodeFrom (offset : Nat) (bs : Bytes) : Except ScriptError (List Chunk) :=
  match bs with
  | [] => .ok []
  | code :: rest =>
    match h : readChunk offset code rest with
    | .error e => .error e
    | .ok (c, rest') =>
      have := length_le_of_readChunk h
      match decodeFrom (offset + c.encodedLength) rest' with
      | .error e => .error e
      | .ok cs => .ok (c :: cs)
termination_by bs.length
decreasing_by simp only [List.length_cons]; omega

def ofBytes (bs : Bytes) : Except ScriptError Script :=
  match decodeFrom 0 bs with
  | .error e => .error e
  | .ok cs => .ok ⟨cs⟩

def ofHex (s : String) : Except ScriptError Script :=
  match Text.Hex.decode s with
  | .error e => .error (.badHex e)
  | .ok bs => ofBytes bs

/-- The script followed by the shortest push of `data`. -/
def pushData (s : Script) (data : Bytes) : Except ScriptError Script :=
  match Chunk.ofData? data with
  | some c => .ok ⟨s.chunks ++ [c]⟩
  | none => .error (.dataTooBig data.length)

def pushAll (s : Script) : List Bytes → Except ScriptError Script
  | [] => .ok s
  | data :: rest =>
    match s.pushData data with
    | .error e => .error e
    | .ok s' => s'.pushAll rest

def pushOpcode (s : Script) (op : Opcode) : Script := ⟨s.chunks ++ [Chunk.ofOpcode op]⟩

/-- The script followed by the opcode for a number from 0 to 16. -/
def pushSmallInt (s : Script) (n : Nat) : Except ScriptError Script :=
  match Opcode.smallInt? n with
  | some op => .ok (s.pushOpcode op)
  | none => .error (.noSmallInt n)

def isPushOnly (s : Script) : Bool := s.chunks.all Chunk.isPushOnly

def withoutSeparators (s : Script) : Script :=
  ⟨s.chunks.filter (· ≠ Chunk.ofOpcode .codeSeparator)⟩

@[simp] theorem length_toBytes (s : Script) : s.toBytes.length = s.encodedLength := by
  cases s with
  | mk chunks =>
    induction chunks with
    | nil => rfl
    | cons c cs ih => simpa [toBytes, encodedLength] using ih

end Script

end SpendScript
