import SpendScript.Bytes

/-!
# SpendScript.Wire.Writer

The written forms of the values that a reader reads: fixed-width little-endian numbers, compact-size
integers in their shortest form, and byte strings behind their length.
-/

namespace SpendScript.Wire

def u8 (n : UInt8) : Bytes := Bytes.ofNatLE 1 n.toNat

def u16 (n : UInt16) : Bytes := Bytes.ofNatLE 2 n.toNat

def u32 (n : UInt32) : Bytes := Bytes.ofNatLE 4 n.toNat

def u64 (n : UInt64) : Bytes := Bytes.ofNatLE 8 n.toNat

/-- The shortest compact-size form of `n < 2 ^ 64`. -/
def compactSize (n : Nat) : Bytes :=
  if n < 0xfd then Bytes.ofNatLE 1 n
  else if n ≤ 0xffff then 0xfd :: Bytes.ofNatLE 2 n
  else if n ≤ 0xffffffff then 0xfe :: Bytes.ofNatLE 4 n
  else 0xff :: Bytes.ofNatLE 8 n

def prefixed (bs : Bytes) : Bytes := compactSize bs.length ++ bs

theorem length_compactSize (n : Nat) :
    (compactSize n).length =
      if n < 0xfd then 1 else if n ≤ 0xffff then 3 else if n ≤ 0xffffffff then 5 else 9 := by
  unfold compactSize
  split
  · simp
  · split
    · simp
    · split <;> simp

end SpendScript.Wire
