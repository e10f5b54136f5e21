import SpendScript.Script.Template
import SpendScript.Signature.Der

/-!
# SpendScript.Script.Class

Recognition of the usual scripts by their shape. The same bytes can be one thing as a locking
script and another as an unlocking script, so each side has its own classification, which takes
the first template that fits.
-/

namespace SpendScript

inductive ScriptClass where
  | pubkeyHashOut
  | pubkeyHashIn
  | scriptHashOut
  | scriptHashIn
  | multisigOut
  | multisigIn
  | dataOut
  | pubkeyOut
  | pubkeyIn
  /-- No template fits, which is no fault. -/
  | unknown
deriving DecidableEq

def ScriptClass.label : ScriptClass → String
  | .pubkeyHashOut => "pubkeyhash-out"
  | .pubkeyHashIn => "pubkeyhash-in"
  | .scriptHashOut => "scripthash-out"
  | .scriptHashIn => "scripthash-in"
  | .multisigOut => "multisig-out"
  | .multisigIn => "multisig-in"
  | .dataOut => "data-out"
  | .pubkeyOut => "pubkey-out"
  | .pubkeyIn => "pubkey-in"
  | .unknown => "unknown"

/-- The shape of a written public key; whether it is on the curve is not looked at. -/
def looksLikePublicKey (bs : Bytes) : Bool :=
  match bs with
  | [] => false
  | tag :: _ =>
    ((tag == 2 || tag == 3) && bs.length == 33) || (tag == 4 && bs.length == 65)

/-- The first byte of a DER sequence. -/
def looksLikeSignature (bs : Bytes) : Bool := bs.head? == some Der.sequenceTag

namespace Chunk

/-- Whether the chunk is a push whose data has a property. -/
def pushes (p : Bytes → Bool) : Chunk → Bool
  | .op _ => false
  | .push _ data => p data

/-- The number that an opcode standing alone pushes. -/
def smallCount? : Chunk → Option Nat
  | .op code => Opcode.smallIntValue? code
  | .push _ _ => none

end Chunk

namespace Script

def isPubkeyHashOut (s : Script) : Bool :=
  match s.chunks with
  | [a, b, c, d, e] =>
    a == .ofOpcode .dup && b == .ofOpcode .hash160 && c.pushes (·.length == 20) &&
      d == .ofOpcode .equalVerify && e == .ofOpcode .checkSig
  | _ => false

def isPubkeyHashIn (s : Script) : Bool :=
  match s.chunks with
  | [a, b] => a.pushes looksLikeSignature && b.pushes looksLikePublicKey
  | _ => false

def isScriptHashOut (s : Script) : Bool :=
  match s.chunks with
  | [a, b, c] => a == .ofOpcode .hash160 && b.pushes (·.length == 20) && c == .ofOpcode .equal
  | _ => false

/-- A number of signatures, the keys, their number, and the check; no key is empty. -/
def isMultisigOut (s : Script) : Bool :=
  match s.chunks with
  | [] => false
  | first :: rest =>
    match rest.reverse with
    | last :: count :: keys =>
      match first.smallCount?, count.smallCount? with
      | some m, some n =>
        last == .ofOpcode .checkMultiSig && decide (1 ≤ m ∧ m ≤ n ∧ keys.length = n) &&
          keys.all (Chunk.pushes (fun data => !data.isEmpty))
      | _, _ => false
    | _ => false

/-- The opcode for zero and canonical signatures. -/
def isMultisigIn (s : Script) : Bool :=
  match s.chunks with
  | dummy :: sig :: sigs =>
    dummy == .ofOpcode .zero && (sig :: sigs).all (Chunk.pushes Der.isCanonicalTx)
  | _ => false

def isDataOut (s : Script) : Bool :=
  match s.chunks with
  | [a] => a == .ofOpcode .returnOp
  | [a, b] => a == .ofOpcode .returnOp && b.pushes (fun _ => true)
  | _ => false

def isPubkeyOut (s : Script) : Bool :=
  match s.chunks with
  | [a, b] => a.pushes looksLikePublicKey && b == .ofOpcode .checkSig
  | _ => false

def isPubkeyIn (s : Script) : Bool :=
  match s.chunks with
  | [a] => a.pushes looksLikeSignature
  | _ => false

/-- The template that the script fits as a locking script. -/
def classOut (s : Script) : ScriptClass :=
  if s.isPubkeyHashOut then .pubkeyHashOut
  else if s.isScriptHashOut then .scriptHashOut
  else if s.isMultisigOut then .multisigOut
  else if s.isDataOut then .dataOut
  else if s.isPubkeyOut then .pubkeyOut
  else .unknown

/-- The script in the last push, if there is a chunk before it and the script in it fits a
template for locking scripts. -/
def redeemScript? (s : Script) : Option Script :=
  match s.chunks.reverse with
  | .push _ data :: _ :: _ =>
    match ofBytes data with
    | .error _ => none
    | .ok redeem => if redeem.classOut = .unknown then none else some redeem
  | _ => none

/-- Whether the script ends in a push of a recognized locking script. -/
def isScriptHashIn (s : Script) : Bool := s.redeemScript?.isSome

/-- The template that the script fits as an unlocking script. -/
def classIn (s : Script) : ScriptClass :=
  if s.isPubkeyIn then .pubkeyIn
  else if s.isPubkeyHashIn then .pubkeyHashIn
  else if s.isMultisigIn then .multisigIn
  else if s.isScriptHashIn then .scriptHashIn
  else .unknown

def dataOutPayload? (s : Script) : Option Bytes :=
  if s.isDataOut then
    match s.chunks with
    | [_, b] => b.data?
    | _ => none
  else none

def isStandardDataOut (s : Script) (max : Nat) : Bool :=
  s.isDataOut && (s.dataOutPayload?.getD []).length ≤ max

end Script

end SpendScript
