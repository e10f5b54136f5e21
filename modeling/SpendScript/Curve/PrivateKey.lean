import SpendScript.Curve.PublicKey

/-!
# SpendScript.Curve.PrivateKey

Private keys and deterministic signing: the nonce is drawn from a keyed hash of the key and the
digest, so that the same key signs the same digest in the same way, and of the two S values that
verify the lower one is given.
-/

namespace SpendScript

/-- A number from 1 to the group order less one. -/
structure PrivateKey where
  scalar : Nat
  pos : 0 < scalar
  lt_order : scalar < Curve.groupOrder
deriving DecidableEq

namespace PrivateKey

def ofBytes (bs : Bytes) : Except KeyError PrivateKey :=
  if bs.length = 32 then
    if h : 0 < Bytes.toNatBE bs ∧ Bytes.toNatBE bs < Curve.groupOrder then
      .ok ⟨Bytes.toNatBE bs, h.1, h.2⟩
    else .error .outOfRange
  else .error (.badLength bs.length)

def ofHex (s : String) : Except KeyError PrivateKey :=
  match Text.Hex.decode s with
  | .error e => .error (.badHex e)
  | .ok bs => ofBytes bs

def toBytes (k : PrivateKey) : Bytes := Bytes.ofNatBE 32 k.scalar

def publicKey (k : PrivateKey) : PublicKey :=
  match (Curve.generator.scale k.scalar).affine? with
  | some (x, y) => ⟨x, y⟩
  | none => ⟨0, 0⟩

/-- The state of the nonce generator: a hash key and a running value. -/
structure NonceState where
  key : Bytes
  value : Bytes

namespace NonceState

/-- Mixes a tag byte and data into the state. -/
def mix (s : NonceState) (tag : UInt8) (data : Bytes) : NonceState :=
  let key := Hash.hmacSha256 s.key (s.value ++ tag :: data)
  ⟨key, Hash.hmacSha256 key s.value⟩

/-- The state for a key and a digest; the digest enters byte for byte. -/
def start (k : PrivateKey) (digest : Digest 32) : NonceState :=
  let seed := k.toBytes ++ digest.bytes
  ((⟨List.replicate 32 0, List.replicate 32 1⟩ : NonceState).mix 0 seed).mix 1 seed

/-- The first of at most `tries` draws that is a usable nonce. -/
def draw? : Nat → NonceState → Option Nat
  | 0, _ => none
  | tries + 1, s =>
    let value := Hash.hmacSha256 s.key s.value
    let k := Bytes.toNatBE value
    if 0 < k ∧ k < Curve.groupOrder then some k
    else draw? tries ((⟨s.key, value⟩ : NonceState).mix 0 [])

end NonceState

/-- The number of draws after which the search for a nonce is given up; each draw fails with
probability below `2 ^ -127`. -/
def nonceTries : Nat := 16

def signWith (k : PrivateKey) (digest : Digest 32) (nonce : Nat) : Option (Nat × Nat) :=
  match (Curve.generator.scale nonce).affine? with
  | none => none
  | some (x, _) =>
    let n := Curve.groupOrder
    let r := x % n
    let z := Bytes.toNatBE digest.bytes % n
    let s := Curve.inverseMod n nonce * (z + r * k.scalar) % n
    if r = 0 ∨ s = 0 then none
    else some (r, if s ≤ Curve.halfOrder then s else n - s)

/-- Signs a digest; the signature has no hash type yet. -/
def sign (k : PrivateKey) (digest : Digest 32) : Except SignatureError Signature :=
  match NonceState.draw? nonceTries (NonceState.start k digest) with
  | none => .error .noNonce
  | some nonce =>
    match k.signWith digest nonce with
    | none => .error .noNonce
    | some (r, s) =>
      .ok ((Signature.ofComponents (Bytes.magnitudeBE r) (Bytes.magnitudeBE s)).withCompressed true)

def signer (k : PrivateKey) : Signer := ⟨k.sign, k.publicKey.toCompressed⟩

end PrivateKey

end SpendScript
