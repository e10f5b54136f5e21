import SpendScript.Hash.Composed
import SpendScript.Text.Hex
import SpendScript.Signature.Basic

/-!
# SpendScript.Curve.PublicKey

Public keys: points of the curve in their SEC 1 forms, and the check of a signature against them.
-/

namespace SpendScript

/-- Why a byte string or text is not a key. -/
inductive KeyError where
  /-- The bytes are no point of the curve in a known form. -/
  | notAPoint
  /-- The private number is zero or not below the group order. -/
  | outOfRange
  | badLength (length : Nat)
  | badHex (error : Text.HexError)
deriving DecidableEq

def KeyError.message : KeyError → String
  | .notAPoint => "invalid public key: signature error"
  | .outOfRange => "invalid private key: signature error"
  | .badLength length => s!"invalid private key: expected 32 bytes, got {length}"
  | .badHex error => "invalid hex: " ++ error.message

/-- A point of the curve other than the one at infinity, in affine coordinates. -/
structure PublicKey where
  x : Nat
  y : Nat
deriving DecidableEq

namespace PublicKey

/-- The point with this `x` and an even or odd `y`. -/
def ofX? (x : Nat) (odd : Bool) : Option PublicKey :=
  let rhs := Curve.curveRhs x
  let root := Curve.powMod Curve.fieldPrime rhs ((Curve.fieldPrime + 1) / 4)
  if x < Curve.fieldPrime ∧ root * root % Curve.fieldPrime = rhs then
    if (root % 2 == 1) = odd then some ⟨x, root⟩ else some ⟨x, Curve.fieldPrime - root⟩
  else none

def ofXY? (x y : Nat) : Option PublicKey :=
  if x < Curve.fieldPrime ∧ y < Curve.fieldPrime ∧ y * y % Curve.fieldPrime = Curve.curveRhs x then
    some ⟨x, y⟩
  else none

/-- Reads a point: tag 2 or 3 and `x`, tag 4 and both coordinates, or tag 5 and the `x` of a point
with even `y`. -/
def ofSec1? : Bytes → Option PublicKey
  | [] => none
  | tag :: rest =>
    if rest.length = 32 then
      if tag = 2 ∨ tag = 5 then ofX? (Bytes.toNatBE rest) false
      else if tag = 3 then ofX? (Bytes.toNatBE rest) true
      else none
    else if rest.length = 64 ∧ tag = 4 then
      ofXY? (Bytes.toNatBE (rest.take 32)) (Bytes.toNatBE (rest.drop 32))
    else none

def ofBytes (bs : Bytes) : Except KeyError PublicKey :=
  match ofSec1? bs with
  | some k => .ok k
  | none => .error .notAPoint

def ofHex (s : String) : Except KeyError PublicKey :=
  match Text.Hex.decode s with
  | .error e => .error (.badHex e)
  | .ok bs => ofBytes bs

def toCompressed (k : PublicKey) : Bytes :=
  (if k.y % 2 = 1 then 3 else 2) :: Bytes.ofNatBE 32 k.x

def toUncompressed (k : PublicKey) : Bytes :=
  4 :: Bytes.ofNatBE 32 k.x ++ Bytes.ofNatBE 32 k.y

/-- The hash that an address of this key shows. -/
def hash160 (k : PublicKey) : Digest 20 := Hash.hash160 k.toCompressed

/-- R and S of a signature in strict DER, each between 1 and the group order. -/
def strictValues? (sig : Signature) : Option (Nat × Nat) :=
  match sig.components with
  | .error _ => none
  | .ok (rb, sb) =>
    let r := Bytes.toNatBE rb
    let s := Bytes.toNatBE sb
    if Der.isCanonicalInt rb && Der.isCanonicalInt sb && 0 < r && r < Curve.groupOrder &&
        0 < s && s < Curve.groupOrder then some (r, s)
    else none

/-- Whether the signature over the digest was made with this key. Either of the two S values of a
signature is taken. -/
def verify (k : PublicKey) (digest : Digest 32) (sig : Signature) : Bool :=
  match strictValues? sig with
  | none => false
  | some (r, s) =>
    let n := Curve.groupOrder
    let z := Bytes.toNatBE digest.bytes % n
    let w := Curve.inverseMod n s
    let point := (Curve.generator.scale (z * w % n)).add
      (Curve.Jacobian.scale (r * w % n) ⟨k.x, k.y, 1⟩)
    match point.affine? with
    | none => false
    | some (x, _) => x % n = r

/-- Verification with a key in one of its written forms; a key that does not parse verifies
nothing. -/
def verifier : Verifier := fun key digest sig =>
  match ofSec1? key with
  | none => false
  | some k => k.verify digest sig

end PublicKey

end SpendScript
