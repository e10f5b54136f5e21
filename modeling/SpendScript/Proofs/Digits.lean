import Mathlib
import SpendScript.Bytes

/-!
# SpendScript.Proofs.Digits

Byte strings as digits in base 256: their range, and what a fixed number of digits keeps.

* `toNatLE_lt` — `k` bytes spell a number below `256 ^ k`.
* `toNatLE_ofNatLE` — writing `k` little-endian digits and reading them back keeps the value
  modulo `256 ^ k`.
* `length_magnitudeLE_le` — a number below `256 ^ k` has at most `k` digits.
* `magnitudeLE_toNatLE` — digits without a leading zero are those of the number that they spell.
* `and_two_pow_eq_zero_iff` — a mask of one bit looks at that bit.
-/

namespace SpendScript

theorem and_two_pow_eq_zero_iff {n k : Nat} : n &&& 2 ^ k = 0 ↔ n.testBit k = false := by
  rw [Nat.and_two_pow]
  cases n.testBit k <;> simp

namespace Bytes

theorem toNatLE_lt (bs : Bytes) : toNatLE bs < 256 ^ bs.length := by
  induction bs with
  | nil => simp [toNatLE]
  | cons b bs ih =>
    have hb : b.toNat < 256 := b.toNat_lt
    simp only [toNatLE, List.length_cons, Nat.pow_succ]
    omega

theorem toNatLE_ofNatLE (k n : Nat) : toNatLE (ofNatLE k n) = n % 256 ^ k := by
  induction k generalizing n with
  | zero => simp [toNatLE, ofNatLE, Nat.mod_one]
  | succ k ih =>
    rw [ofNatLE, toNatLE, ih, toNat_ofNat_byte, Nat.pow_succ, Nat.mul_comm (256 ^ k) 256,
      Nat.mod_mul]

theorem length_magnitudeLE_le {k n : Nat} (h : n < 256 ^ k) : (magnitudeLE n).length ≤ k := by
  induction k generalizing n with
  | zero =>
    have hn : n = 0 := by simpa using h
    simp [magnitudeLE, hn]
  | succ k ih =>
    rw [magnitudeLE]
    split
    · exact Nat.zero_le _
    · rw [Nat.pow_succ] at h
      have htail := ih (n := n / 256) (by omega)
      simp only [List.length_cons]
      omega

theorem toNatLE_append (as bs : Bytes) :
    toNatLE (as ++ bs) = toNatLE as + 256 ^ as.length * toNatLE bs := by
  induction as with
  | nil => simp [toNatLE]
  | cons a as ih =>
    rw [List.cons_append, toNatLE, ih, toNatLE, List.length_cons, Nat.pow_succ]
    ring

theorem toNatLE_concat (bs : Bytes) (b : UInt8) :
    toNatLE (bs ++ [b]) = toNatLE bs + 256 ^ bs.length * b.toNat := by
  rw [toNatLE_append]
  simp [toNatLE]

theorem toNatBE_append (as bs : Bytes) :
    toNatBE (as ++ bs) = 256 ^ bs.length * toNatBE as + toNatBE bs := by
  rw [toNatBE, List.reverse_append, toNatLE_append, List.length_reverse, Nat.add_comm]
  rfl

/-! ## Digits without a leading zero -/

theorem magnitudeLE_eq_nil_iff {n : Nat} : magnitudeLE n = [] ↔ n = 0 := by
  rw [magnitudeLE]
  split
  · rename_i h
    simp [h]
  · rename_i h
    simp [h]

theorem getLast?_magnitudeLE_ne_zero (n : Nat) : (magnitudeLE n).getLast? ≠ some 0 := by
  induction n using Nat.strongRecOn with
  | ind n ih =>
    rw [magnitudeLE]
    split
    · simp
    · rename_i hn
      rw [List.getLast?_cons]
      cases hrest : (magnitudeLE (n / 256)).getLast? with
      | some last =>
        have hlast := ih (n / 256) (by omega)
        rw [hrest] at hlast
        simpa using hlast
      | none =>
        -- `n` is its only digit.
        have hsmall : n / 256 = 0 := by
          rw [← magnitudeLE_eq_nil_iff]
          exact List.getLast?_eq_none_iff.1 hrest
        intro hzero
        have hdigit := congrArg UInt8.toNat (Option.some.inj hzero)
        rw [Option.getD_none, toNat_ofNat_byte, UInt8.toNat_zero] at hdigit
        omega

theorem magnitudeLE_toNatLE {bs : Bytes} (h : bs.getLast? ≠ some 0) :
    magnitudeLE (toNatLE bs) = bs := by
  induction bs with
  | nil => exact magnitudeLE_eq_nil_iff.2 rfl
  | cons b bs ih =>
    have hb : b.toNat < 256 := b.toNat_lt
    have htail : (b.toNat + 256 * toNatLE bs) / 256 = toNatLE bs := by omega
    have hrest : magnitudeLE (toNatLE bs) = bs := by
      apply ih
      intro hzero
      apply h
      rw [List.getLast?_cons, hzero, Option.getD_some]
    have hne : b.toNat + 256 * toNatLE bs ≠ 0 := by
      intro hzero
      have hbs : bs = [] := by
        rw [← hrest, magnitudeLE_eq_nil_iff]
        omega
      apply h
      rw [hbs, List.getLast?_singleton, Option.some.injEq]
      apply UInt8.toNat_inj.1
      rw [UInt8.toNat_zero]
      omega
    rw [toNatLE, magnitudeLE, if_neg hne, ofNat_add_mul, htail, hrest]

end Bytes
end SpendScript
