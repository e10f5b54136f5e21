import SpendScript.Script.Basic

/-!
# SpendScript.Script.Template

Builders for the usual locking scripts.
-/

namespace SpendScript.Script

/-- The direct push of a 20-byte hash. -/
def hashPush (hash : Digest 20) : Chunk := .push 20 hash.bytes

/-- `OP_DUP OP_HASH160 hash OP_EQUALVERIFY OP_CHECKSIG`. -/
def pubkeyHashOut (hash : Digest 20) : Script :=
  ⟨[.ofOpcode .dup, .ofOpcode .hash160, hashPush hash, .ofOpcode .equalVerify,
    .ofOpcode .checkSig]⟩

/-- `OP_HASH160 hash OP_EQUAL`. -/
def scriptHashOut (hash : Digest 20) : Script :=
  ⟨[.ofOpcode .hash160, hashPush hash, .ofOpcode .equal]⟩

/-- The locking script that is spent by showing this script and satisfying it. -/
def toScriptHashOut (s : Script) : Script := scriptHashOut (Hash.hash160 s.toBytes)

/-- `OP_m key ... key OP_n OP_CHECKMULTISIG` with the keys as they are given. -/
def multisigChunks (keys : List Bytes) (m : Nat) : Except ScriptError Script :=
  match empty.pushSmallInt m with
  | .error e => .error e
  | .ok s =>
    match s.pushAll keys with
    | .error e => .error e
    | .ok s' =>
      match s'.pushSmallInt keys.length with
      | .error e => .error e
      | .ok s'' => .ok (s''.pushOpcode .checkMultiSig)

/-- The script that `m` of the keys have to sign for. With `sorted` the keys are put in ascending
byte order first, so that the order in which they are given does not matter. -/
def multisigOut (keys : List Bytes) (m : Nat) (sorted : Bool) : Except ScriptError Script :=
  let n := keys.length
  if n = 0 ∨ maxTemplateKeys < n then .error (.badKeyCount n)
  else if m = 0 ∨ n < m then .error (.badThreshold m n)
  else multisigChunks (if sorted then keys.mergeSort Bytes.dictionaryLE else keys) m

/-- `OP_RETURN payload`, or `OP_RETURN` alone for an empty payload. -/
def dataOut (payload : Bytes) : Except ScriptError Script :=
  let s := empty.pushOpcode .returnOp
  if payload.isEmpty then .ok s else s.pushData payload

end SpendScript.Script
