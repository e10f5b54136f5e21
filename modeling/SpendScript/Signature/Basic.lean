import SpendScript.Signature.Der
import SpendScript.Curve.Secp256k1
import SpendScript.Text.Hex

/-!
# SpendScript.Signature.Basic

Signatures in their three written forms: DER, DER with a hash-type byte as a transaction carries
it, and the 65-byte compact form from which a public key can be recovered. A signature keeps the
DER body as it was read, without the sequence tag, and writes it back unchanged behind a proper
tag.
-/

namespace SpendScript

/-- Hash types: what a transaction signature commits to. -/
abbrev HashType := UInt8

namespace HashType

def all : HashType := 0x01
def none : HashType := 0x02
def single : HashType := 0x03

/-- The bit that leaves the other inputs open. -/
def anyoneCanPay : HashType := 0x80

/-- The bits that tell `all`, `none` and `single` apart when a digest is made. -/
def baseMask : HashType := 0x1f

/-- The base type that selects what is hashed. -/
def base (t : HashType) : HashType := t &&& baseMask

/-- One of the three base types, with or without `anyoneCanPay`, and no other bit. -/
def isDefined (t : HashType) : Bool :=
  let rest := t &&& ~~~anyoneCanPay
  all ≤ rest && rest ≤ single

end HashType

/-- Why a signature cannot be read, written or made. -/
inductive SignatureError where
  | emptyDer
  | emptyTx
  | malformedDer (fault : Der.BodyFault)
  | notCanonical
  | undefinedHashType (hashType : HashType)
  | compactLength (length : Nat)
  | badRecovery (value : UInt8)
  | noHashType
  | noRecovery
  | tooLarge
  /-- No usable nonce was found. -/
  | noNonce
deriving DecidableEq

def SignatureError.message : SignatureError → String
  | .emptyDer => "invalid signature: empty DER signature"
  | .emptyTx => "invalid signature: empty tx signature"
  | .malformedDer fault => "invalid signature: malformed DER: " ++ fault.message
  | .notCanonical =>
    "signature is not canonically encoded: DER envelope fails the canonical structure check"
  | .undefinedHashType t =>
    "signature is not canonically encoded: undefined hash type " ++ Text.Hex.literal t
  | .compactLength length =>
    s!"invalid signature: compact signature must be 65 bytes, got {length}"
  | .badRecovery value => s!"invalid recovery id: {value.toNat}"
  | .noHashType => "invalid signature: signature has no hash type"
  | .noRecovery => "invalid signature: signature has no recovery id"
  | .tooLarge => "invalid signature: integer value too large for 32 bytes"
  | .noNonce => "invalid signature: signature error"

structure Signature where
  /-- The DER form without its sequence tag. -/
  body : Bytes
  hashType : Option HashType
  /-- Whether the public key is meant in its compressed form. -/
  compressed : Bool
  /-- Which of the four candidate keys made it. -/
  recovery : Option (Fin 4)
deriving DecidableEq

namespace Signature

def ofBody (body : Bytes) : Signature := ⟨body, none, false, none⟩

/-- Reads a DER form; the first byte is dropped unseen. -/
def ofDer : Bytes → Except SignatureError Signature
  | [] => .error .emptyDer
  | _ :: body => .ok (ofBody body)

/-- The canonical signature with these unsigned big-endian magnitudes. -/
def ofComponents (r s : Bytes) : Signature := ofBody (Der.body r s)

/-- Reads a DER form with a hash-type byte at its end. -/
def ofTx (bs : Bytes) : Except SignatureError Signature :=
  match bs.getLast? with
  | none => .error .emptyTx
  | some t =>
    match ofDer bs.dropLast with
    | .error e => .error e
    | .ok sig => .ok { sig with hashType := some t }

def hasDefinedHashType (sig : Signature) : Bool :=
  match sig.hashType with
  | some t => HashType.isDefined t
  | none => false

/-- Reads a DER form with a hash-type byte, if it is canonical and its hash type defined. -/
def ofCanonicalTx (bs : Bytes) : Except SignatureError Signature :=
  if Der.isCanonicalTx bs then
    match ofTx bs with
    | .error e => .error e
    | .ok sig =>
      if sig.hasDefinedHashType then .ok sig
      else .error (.undefinedHashType (sig.hashType.getD 0))
  else .error .notCanonical

/-- The first byte of a compact form with recovery number 0 and an uncompressed key. -/
def compactBase : Nat := 27

/-- Reads a compact form: a byte from 27 to 34, and R and S in 32 bytes each. -/
def ofCompact (bs : Bytes) : Except SignatureError Signature :=
  if bs.length = 65 then
    let header := (bs.byteAt 0).toNat
    if compactBase ≤ header ∧ header < compactBase + 8 then
      .ok { ofComponents (bs.slice 1 32) (bs.slice 33 32) with
        compressed := compactBase + 4 ≤ header
        recovery := some (Fin.ofNat 4 (header - compactBase)) }
    else .error (.badRecovery (bs.byteAt 0))
  else .error (.compactLength bs.length)

def toDer (sig : Signature) : Bytes := Der.sequenceTag :: sig.body

/-- The DER form with the hash-type byte at its end. -/
def toTx (sig : Signature) : Except SignatureError Bytes :=
  match sig.hashType with
  | none => .error .noHashType
  | some t => .ok (sig.toDer ++ [t])

def components (sig : Signature) : Except SignatureError (Bytes × Bytes) :=
  match Der.components sig.body with
  | .error e => .error (.malformedDer e)
  | .ok rs => .ok rs

/-- An integer's content as an unsigned number of 32 bytes. -/
def to32 (v : Bytes) : Except SignatureError Bytes :=
  let short := v.stripZeros
  if short.length ≤ 32 then .ok (List.replicate (32 - short.length) 0 ++ short)
  else .error .tooLarge

def toCompact (sig : Signature) : Except SignatureError Bytes :=
  match sig.recovery with
  | none => .error .noRecovery
  | some recovery =>
    match sig.components with
    | .error e => .error e
    | .ok (r, s) =>
      match to32 r with
      | .error e => .error e
      | .ok r32 =>
        match to32 s with
        | .error e => .error e
        | .ok s32 =>
          let header := compactBase + recovery.val + if sig.compressed then 4 else 0
          .ok (UInt8.ofNat header :: r32 ++ s32)

/-- Whether S is between 1 and half the group order. -/
def hasLowS (sig : Signature) : Bool :=
  match sig.components with
  | .error _ => false
  | .ok (_, s) => 0 < Bytes.toNatBE s && Bytes.toNatBE s ≤ Curve.halfOrder

def withHashType (sig : Signature) (t : HashType) : Signature :=
  { sig with hashType := some t }

def withCompressed (sig : Signature) (compressed : Bool) : Signature :=
  { sig with compressed := compressed }

def withRecovery (sig : Signature) (value : UInt8) : Except SignatureError Signature :=
  if h : value.toNat < 4 then .ok { sig with recovery := some ⟨value.toNat, h⟩ }
  else .error (.badRecovery value)

end Signature

/-- Makes signatures over digests with one key. -/
structure Signer where
  sign : Digest 32 → Except SignatureError Signature
  /-- The written public key that the signatures belong to. -/
  publicKey : Bytes

/-- Whether a signature over a digest belongs to a written public key. -/
abbrev Verifier := Bytes → Digest 32 → Signature → Bool

end SpendScript
