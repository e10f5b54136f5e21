import Mathlib
import SpendScript.Text.Hex

/-!
# SpendScript.Proofs.Text.Hex

Hexadecimal text read back.

* `decodeChars_digits`: the digits of a byte string are read as that byte string.
* `forall_mem_digits`: what a text of digits is made of.
* `eq_digit_of_digitValue?`: which characters are read as a digit.
-/

namespace SpendScript.Text.Hex

theorem digitValue?_digit {n : Nat} (h : n < 16) : digitValue? (digit n) = some n := by
  have hall : ∀ n : Fin 16, digitValue? (digit n) = some n.val := by decide
  exact hall ⟨n, h⟩

theorem toNat_lt_of_digitValue? {c : Char} {n : Nat} (h : digitValue? c = some n) :
    c.toNat < 128 := by
  have hle : ∀ {high : Char}, c ≤ high → c.toNat ≤ high.toNat := fun hc => hc
  simp only [digitValue?] at h
  split_ifs at h with hnumeral hlower hupper
  · exact Nat.lt_of_le_of_lt (hle hnumeral.2) (by decide)
  · exact Nat.lt_of_le_of_lt (hle hlower.2) (by decide)
  · exact Nat.lt_of_le_of_lt (hle hupper.2) (by decide)

/-- A digit that is read is the one that would be written, or that one in upper case. -/
theorem eq_digit_of_digitValue? {c : Char} {n : Nat} (h : digitValue? c = some n) :
    n < 16 ∧ (c = digit n ∨ c = (digit n).toUpper) := by
  have hall : ∀ k : Fin 128, ∀ n ∈ digitValue? (Char.ofNat k),
      n < 16 ∧ (Char.ofNat k = digit n ∨ Char.ofNat k = (digit n).toUpper) := by decide
  have hc := hall ⟨c.toNat, toNat_lt_of_digitValue? h⟩ n
  rw [Char.ofNat_toNat] at hc
  exact hc h

theorem digits_cons (b : UInt8) (bs : Bytes) :
    digits (b :: bs) = digit (b.toNat / 16) :: digit (b.toNat % 16) :: digits bs := rfl

/-- What holds of the sixteen digits holds of every character of hexadecimal text. -/
theorem forall_mem_digits {p : Char → Prop} (h : ∀ n : Fin 16, p (digit n)) (bs : Bytes) :
    ∀ c ∈ digits bs, p c := by
  induction bs with
  | nil => exact nofun
  | cons b bs ih =>
    have hb : b.toNat < 256 := b.toNat_lt
    have hhigh : p (digit (b.toNat / 16)) := h ⟨b.toNat / 16, by omega⟩
    have hlow : p (digit (b.toNat % 16)) := h ⟨b.toNat % 16, by omega⟩
    rw [digits_cons, List.forall_mem_cons, List.forall_mem_cons]
    exact ⟨hhigh, hlow, ih⟩

theorem ofNat_digits (b : UInt8) :
    UInt8.ofNat (16 * (b.toNat / 16) + b.toNat % 16) = b := by
  rw [Nat.div_add_mod, UInt8.ofNat_toNat]

theorem decodePairs_digits (bs : Bytes) (position : Nat) :
    decodePairs position (digits bs) = .ok bs := by
  induction bs generalizing position with
  | nil => rfl
  | cons b bs ih =>
    have hb : b.toNat < 256 := b.toNat_lt
    have hhigh := digitValue?_digit (n := b.toNat / 16) (by omega)
    have hlow := digitValue?_digit (n := b.toNat % 16) (by omega)
    simp only [digits_cons, decodePairs, hhigh, hlow, ih, ofNat_digits]

theorem utf8Length_digits (bs : Bytes) : utf8Length (digits bs) = 2 * bs.length := by
  have hsize : ∀ n : Fin 16, (digit n).utf8Size = 1 := by decide
  induction bs with
  | nil => rfl
  | cons b bs ih =>
    have hb : b.toNat < 256 := b.toNat_lt
    have hhigh := hsize ⟨b.toNat / 16, by omega⟩
    have hlow := hsize ⟨b.toNat % 16, by omega⟩
    simp only [utf8Length] at ih
    simp only [digits_cons, utf8Length, List.foldr_cons, ih, hhigh, hlow, List.length_cons]
    omega

theorem decodeChars_digits (bs : Bytes) : decodeChars (digits bs) = .ok bs := by
  rw [decodeChars, utf8Length_digits, if_neg (by omega), decodePairs_digits]

end SpendScript.Text.Hex
