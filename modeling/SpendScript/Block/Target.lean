import SpendScript.Text.Hex

/-!
# SpendScript.Block.Target

Proof-of-work targets and their compact form of 32 bits: a byte that counts the bytes of the target,
a sign bit, and the three leading bytes of it in the other 23 bits.
-/

namespace SpendScript.Target

def signBit : Nat := 0x00800000

/-- The compact form of a negative number, which is no target. -/
structure Negative where
  bits : UInt32
deriving DecidableEq

def Negative.message (e : Negative) : String :=
  "invalid compact target bits 0x" ++
    String.ofList (Text.Hex.digits (Bytes.ofNatBE 4 e.bits.toNat))

/-- The target that a mantissa and a byte count stand for. -/
def scale (mantissa size : Nat) : Nat :=
  if size ≤ 3 then mantissa >>> (8 * (3 - size)) else mantissa <<< (8 * (size - 3))

/-- The target that compact bits stand for. -/
def ofCompact (bits : UInt32) : Except Negative Nat :=
  let mantissa := bits.toNat % signBit
  if bits.toNat &&& signBit ≠ 0 ∧ mantissa ≠ 0 then .error ⟨bits⟩
  else .ok (scale mantissa (bits.toNat >>> 24))

def byteCount (target : Nat) : Nat := (Bytes.magnitudeLE target).length

/-- The three leading bytes of a target of that many bytes. -/
def leading (target size : Nat) : Nat :=
  if size ≤ 3 then target <<< (8 * (3 - size)) else target >>> (8 * (size - 3))

/-- The compact form of a target. A leading byte that would take the sign bit counts as two; of a
byte count above 255 the low 8 bits are kept. -/
def toCompact (target : Nat) : UInt32 :=
  let size := byteCount target
  let mantissa := leading target size
  if mantissa &&& signBit = 0 then UInt32.ofNat (mantissa ||| size <<< 24)
  else UInt32.ofNat (mantissa >>> 8 ||| (size + 1) <<< 24)

end SpendScript.Target
