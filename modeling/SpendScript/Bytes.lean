/-!
# SpendScript.Bytes

Byte strings as lists, and the numbers they spell in either byte order.

* `ofNatLE_toNatLE` — every byte string is the fixed-width form of the number it spells.
* `toNatLE_magnitudeLE` — the shortest little-endian form spells its number.
* `forall_byte` — a property of bytes, checked on all of them.
-/

namespace SpendScript

abbrev Bytes := List UInt8

namespace Bytes

/-- The number that `bs` spells in base 256, least significant byte first. -/
def toNatLE : Bytes → Nat
  | [] => 0
  | b :: bs => b.toNat + 256 * toNatLE bs

/-- The number that `bs` spells in base 256, most significant byte first. -/
def toNatBE (bs : Bytes) : Nat := toNatLE bs.reverse

/-- The `k` lowest base-256 digits of `n`, least significant first. -/
def ofNatLE : Nat → Nat → Bytes
  | 0, _ => []
  | k + 1, n => UInt8.ofNat n :: ofNatLE k (n / 256)

/-- The `k` lowest base-256 digits of `n`, most significant first. -/
def ofNatBE (k n : Nat) : Bytes := (ofNatLE k n).reverse

/-- The base-256 digits of `n` without leading zeros, least significant first; `0` has none. -/
def magnitudeLE (n : Nat) : Bytes :=
  if n = 0 then [] else UInt8.ofNat n :: magnitudeLE (n / 256)
termination_by n
decreasing_by omega

/-- The base-256 digits of `n` without leading zeros, most significant first. -/
def magnitudeBE (n : Nat) : Bytes := (magnitudeLE n).reverse

def stripZeros (bs : Bytes) : Bytes := bs.dropWhile (· == 0)

/-- Byte number `i`, and zero past the end. -/
def byteAt (bs : Bytes) (i : Nat) : UInt8 := bs.getD i 0

/-- The `n` bytes from byte number `i` on, or those that there are. -/
def slice (bs : Bytes) (i n : Nat) : Bytes := (bs.drop i).take n

/-- `a` comes no later than `b` in the dictionary order of their bytes. -/
def dictionaryLE : Bytes → Bytes → Bool
  | [], _ => true
  | _ :: _, [] => false
  | a :: as, b :: bs => a < b || (a == b && dictionaryLE as bs)

theorem toNat_ofNat_byte (n : Nat) : (UInt8.ofNat n).toNat = n % 256 := UInt8.toNat_ofNat'

@[simp] theorem length_ofNatLE (k n : Nat) : (ofNatLE k n).length = k := by
  induction k generalizing n with
  | zero => rfl
  | succ k ih => simp [ofNatLE, ih]

@[simp] theorem length_ofNatBE (k n : Nat) : (ofNatBE k n).length = k := by
  simp [ofNatBE]

/-- The lowest digit of a number. -/
theorem ofNat_add_mul (b : UInt8) (n : Nat) : UInt8.ofNat (b.toNat + 256 * n) = b := by
  have hb : b.toNat < 256 := b.toNat_lt
  apply UInt8.toNat_inj.1
  rw [toNat_ofNat_byte]
  omega

theorem ofNatLE_toNatLE (bs : Bytes) : ofNatLE bs.length (toNatLE bs) = bs := by
  induction bs with
  | nil => rfl
  | cons b bs ih =>
    have hb : b.toNat < 256 := b.toNat_lt
    have htail : (b.toNat + 256 * toNatLE bs) / 256 = toNatLE bs := by omega
    simp only [toNatLE, List.length_cons, ofNatLE, ofNat_add_mul, htail, ih]

theorem toNatLE_magnitudeLE (n : Nat) : toNatLE (magnitudeLE n) = n := by
  induction n using Nat.strongRecOn with
  | ind n ih =>
    rw [magnitudeLE]
    split
    · next h => simp [toNatLE, h]
    · next h =>
      rw [toNatLE, ih (n / 256) (by omega), toNat_ofNat_byte]
      omega

end Bytes

/-- What holds of each of the 256 bytes holds of every byte. -/
theorem forall_byte {p : UInt8 → Prop} (h : ∀ n : Fin 256, p (UInt8.ofFin n)) (b : UInt8) : p b :=
  h b.toFin

/-- The sign bit of a byte. -/
theorem and_signBit_eq_zero_iff {b : UInt8} : b &&& 0x80 = 0 ↔ b < 0x80 :=
  forall_byte (p := fun b => b &&& 0x80 = 0 ↔ b < 0x80) (by decide +kernel) b

/-- A byte string of exactly `n` bytes. -/
structure Digest (n : Nat) where
  bytes : Bytes
  length_eq : bytes.length = n
deriving DecidableEq

namespace Digest

/-- The byte string as a digest, if it has the right length. -/
def ofBytes? (n : Nat) (bs : Bytes) : Option (Digest n) :=
  if h : bs.length = n then some ⟨bs, h⟩ else none

def zero (n : Nat) : Digest n := ⟨List.replicate n 0, List.length_replicate⟩

def reverse {n : Nat} (d : Digest n) : Digest n :=
  ⟨d.bytes.reverse, by rw [List.length_reverse]; exact d.length_eq⟩

instance {n : Nat} : Inhabited (Digest n) := ⟨zero n⟩

theorem eq_of_bytes {n : Nat} {d e : Digest n} (h : d.bytes = e.bytes) : d = e := by
  cases d; cases e; cases h; rfl

@[simp] theorem ofBytes?_bytes {n : Nat} (d : Digest n) : ofBytes? n d.bytes = some d := by
  simp [ofBytes?, d.length_eq]

@[simp] theorem reverse_reverse {n : Nat} (d : Digest n) : d.reverse.reverse = d := by
  cases d; simp [reverse]

end Digest

end SpendScript
