import SpendScript.Block.Target
import SpendScript.Proofs.Digits

/-!
# SpendScript.Proofs.Block.Target

Targets in their compact form. The form states a byte count and the three leading bytes of that
many, the first of them below `0x80`; so it stands for the multiples of `256 ^ (size - 3)`, and a
target that is no such multiple goes down to the next one.

* `statedSize`, `statedSize_le_iff`: the byte count that the form of a target states.
* `scale_leading`: what the leading bytes stand for.
* `toNat_toCompact`, `ofCompact_toCompact`: the form of a target below `2 ^ 2039`, and its target.
* `ofCompact_cases`: what bits stand for.
* `compact_rounds_down`: there and back.
-/

namespace SpendScript.Target

/-! ## The byte count -/

theorem byteCount_le_iff {target n : Nat} : byteCount target ≤ n ↔ target < 256 ^ n := by
  constructor
  · intro h
    have hlt := Bytes.toNatLE_lt (Bytes.magnitudeLE target)
    rw [Bytes.toNatLE_magnitudeLE] at hlt
    exact Nat.lt_of_lt_of_le hlt (Nat.pow_le_pow_right (by decide) h)
  · exact Bytes.length_magnitudeLE_le

/-- The byte count that the compact form of a target states: one more than the target has if its
first byte would take the sign bit. -/
def statedSize (target : Nat) : Nat :=
  if leading target (byteCount target) &&& signBit = 0 then byteCount target
  else byteCount target + 1

/-- Compact forms that state this byte count stand for multiples of this number. -/
def unit (size : Nat) : Nat := 256 ^ (size - 3)

variable {target mantissa size n : Nat}

theorem unit_pos (size : Nat) : 0 < unit size := Nat.pow_pos (by decide)

theorem unit_of_le (h : size ≤ 3) : unit size = 1 := by
  rw [unit, Nat.sub_eq_zero_of_le h, Nat.pow_zero]

theorem unit_dvd_unit (h : size ≤ n) : unit size ∣ unit n :=
  Nat.pow_dvd_pow 256 (Nat.sub_le_sub_right h 3)

theorem pow_eq_unit (h : 3 ≤ size) : 256 ^ size = 256 ^ 3 * unit size := by
  rw [unit, ← Nat.pow_add, Nat.add_sub_cancel' h]

theorem pow_mul_pow (h : size ≤ 3) : 256 ^ size * 256 ^ (3 - size) = 256 ^ 3 := by
  rw [← Nat.pow_add, Nat.add_sub_cancel' h]

theorem two_pow_eight_mul (n : Nat) : 2 ^ (8 * n) = 256 ^ n := Nat.pow_mul 2 8 n

theorem leading_of_le (h : size ≤ 3) : leading target size = target * 256 ^ (3 - size) := by
  rw [leading, if_pos h, Nat.shiftLeft_eq, two_pow_eight_mul]

theorem leading_of_ge (h : 3 ≤ size) : leading target size = target / unit size := by
  obtain rfl | hlt := Nat.eq_or_lt_of_le h
  · rw [leading_of_le h, unit_of_le h, Nat.sub_self, Nat.pow_zero, Nat.mul_one, Nat.div_one]
  · rw [leading, if_neg (Nat.not_le.2 hlt), Nat.shiftRight_eq_div_pow, two_pow_eight_mul, unit]

theorem scale_of_le (h : size ≤ 3) : scale mantissa size = mantissa / 256 ^ (3 - size) := by
  rw [scale, if_pos h, Nat.shiftRight_eq_div_pow, two_pow_eight_mul]

theorem scale_of_ge (h : 3 ≤ size) : scale mantissa size = mantissa * unit size := by
  obtain rfl | hlt := Nat.eq_or_lt_of_le h
  · rw [scale_of_le h, unit_of_le h, Nat.sub_self, Nat.pow_zero, Nat.mul_one, Nat.div_one]
  · rw [scale, if_neg (Nat.not_le.2 hlt), Nat.shiftLeft_eq, two_pow_eight_mul, unit]

theorem leading_mono {other : Nat} (h : target ≤ other) (size : Nat) :
    leading target size ≤ leading other size := by
  rcases Nat.le_total size 3 with hle | hge
  · rw [leading_of_le hle, leading_of_le hle]
    exact Nat.mul_le_mul_right _ h
  · rw [leading_of_ge hge, leading_of_ge hge]
    exact Nat.div_le_div_right h

/-- The leading bytes are below `bound` as the target is below the same share of all its bytes. -/
theorem leading_lt_iff {bound : Nat} :
    leading target size < bound ↔ target * 256 ^ 3 < bound * 256 ^ size := by
  rcases Nat.le_total size 3 with h | h
  · rw [leading_of_le h, ← pow_mul_pow h]
    rw [Nat.mul_comm (256 ^ size), ← Nat.mul_assoc]
    exact (Nat.mul_lt_mul_right (Nat.pow_pos (by decide))).symm
  · rw [leading_of_ge h, Nat.div_lt_iff_lt_mul (unit_pos size), pow_eq_unit h]
    rw [Nat.mul_left_comm, Nat.mul_comm target]
    exact (Nat.mul_lt_mul_left (by decide)).symm

/-! ## The form of a target -/

theorem sign_clear_iff : n &&& signBit = 0 ↔ n / signBit % 2 = 0 := by
  have hbit : signBit = 2 ^ 23 := rfl
  rw [hbit, and_two_pow_eq_zero_iff, Nat.testBit_eq_decide_div_mod_eq]
  simp

theorem leading_succ (target size : Nat) :
    leading target (size + 1) = leading target size >>> 8 := by
  rw [Nat.shiftRight_eq_div_pow]
  rcases Nat.lt_or_ge size 3 with h | h
  · have hexp : 3 - size = (3 - (size + 1)) + 1 := by omega
    rw [leading_of_le h, leading_of_le (Nat.le_of_lt h), hexp, Nat.pow_succ, ← Nat.mul_assoc]
    exact (Nat.mul_div_cancel _ (by decide)).symm
  · rw [leading_of_ge (Nat.le_succ_of_le h), leading_of_ge h, unit, unit, Nat.succ_sub h,
      Nat.pow_succ, ← Nat.div_div_eq_div_mul]

theorem toCompact_eq (target : Nat) : toCompact target =
    UInt32.ofNat (leading target (statedSize target) ||| statedSize target <<< 24) := by
  simp only [toCompact, statedSize]
  split
  · rfl
  · rw [leading_succ]

theorem statedSize_le_iff : statedSize target ≤ n ↔ 2 * target < 256 ^ n := by
  have hcount : target < 256 ^ byteCount target := byteCount_le_iff.1 (Nat.le_refl _)
  have hthree : leading target (byteCount target) < 2 ^ 24 := by
    rw [leading_lt_iff]
    omega
  have hsign : leading target (byteCount target) &&& signBit = 0 ↔
      2 * target < 256 ^ byteCount target := by
    calc leading target (byteCount target) &&& signBit = 0
      _ ↔ leading target (byteCount target) < signBit := by
        rw [sign_clear_iff, signBit]
        omega
      _ ↔ 2 * target < 256 ^ byteCount target := by
        rw [leading_lt_iff, signBit]
        omega
  rw [statedSize]
  split
  · rename_i hclear
    have hroom := hsign.1 hclear
    constructor
    · intro h
      exact Nat.lt_of_lt_of_le hroom (Nat.pow_le_pow_right (by decide) h)
    · intro h
      exact byteCount_le_iff.2 (by omega)
  · rename_i hset
    have hfull := Nat.not_lt.1 (mt hsign.2 hset)
    constructor
    · intro h
      have hmore : 256 ^ (byteCount target + 1) ≤ 256 ^ n := Nat.pow_le_pow_right (by decide) h
      rw [Nat.pow_succ] at hmore
      omega
    · intro h
      exact (Nat.pow_lt_pow_iff_right (by decide)).1 (Nat.lt_of_le_of_lt hfull h)

theorem statedSize_mono {other : Nat} (h : target ≤ other) :
    statedSize target ≤ statedSize other := by
  have hother := statedSize_le_iff.1 (Nat.le_refl (statedSize other))
  exact statedSize_le_iff.2 (by omega)

/-- The leading bytes leave the sign bit clear. -/
theorem leading_statedSize_lt (target : Nat) : leading target (statedSize target) < 2 ^ 23 := by
  have hroom := statedSize_le_iff.1 (Nat.le_refl (statedSize target))
  rw [leading_lt_iff]
  omega

/-- The targets whose stated byte count fits a byte. -/
theorem statedSize_le_255_iff : statedSize target ≤ 255 ↔ target < 2 ^ 2039 := by
  rw [statedSize_le_iff, ← two_pow_eight_mul, show 8 * 255 = 2039 + 1 from rfl, Nat.pow_succ]
  omega

theorem toNat_toCompact (h : statedSize target ≤ 255) : (toCompact target).toNat =
    statedSize target * 2 ^ 24 + leading target (statedSize target) := by
  have hleading := leading_statedSize_lt target
  rw [toCompact_eq, Nat.or_comm, ← Nat.shiftLeft_add_eq_or_of_lt (by omega), Nat.shiftLeft_eq,
    UInt32.toNat_ofNat']
  omega

/-! ## What bits stand for -/

theorem ofCompact_of_toNat {bits : UInt32} (hbits : bits.toNat = size * 2 ^ 24 + mantissa)
    (h : mantissa < 2 ^ 23) : ofCompact bits = .ok (scale mantissa size) := by
  have hclear : bits.toNat &&& signBit = 0 := by
    rw [sign_clear_iff, hbits, signBit]
    omega
  have hmantissa : bits.toNat % signBit = mantissa := by
    rw [hbits, signBit]
    omega
  have hsize : bits.toNat >>> 24 = size := by
    rw [hbits, Nat.shiftRight_eq_div_pow]
    omega
  simp only [ofCompact, hmantissa, hsize]
  rw [if_neg]
  exact fun hset => hset.1 hclear

/-- Bits that stand for a target state a byte count and leading bytes. -/
theorem ofCompact_cases {bits : UInt32} (h : ofCompact bits = .ok target) :
    ∃ mantissa size, mantissa < 2 ^ 23 ∧ size ≤ 255 ∧ target = scale mantissa size := by
  simp only [ofCompact] at h
  split at h
  · cases h
  · cases h
    refine ⟨_, _, Nat.mod_lt _ (by decide), ?_, rfl⟩
    have hword := bits.toNat_lt
    rw [Nat.shiftRight_eq_div_pow]
    omega

/-- The leading bytes stand for the next lower multiple of the unit. -/
theorem scale_leading (target size : Nat) :
    scale (leading target size) size = target / unit size * unit size := by
  rcases Nat.le_total size 3 with h | h
  · rw [leading_of_le h, scale_of_le h, unit_of_le h, Nat.div_one, Nat.mul_one]
    exact Nat.mul_div_cancel _ (Nat.pow_pos (by decide))
  · rw [leading_of_ge h, scale_of_ge h]

theorem unit_dvd_scale (mantissa size : Nat) : unit size ∣ scale mantissa size := by
  rcases Nat.le_total size 3 with h | h
  · rw [unit_of_le h]
    exact Nat.one_dvd _
  · rw [scale_of_ge h]
    exact Nat.dvd_mul_left _ _

theorem two_mul_scale_lt (h : mantissa < 2 ^ 23) (size : Nat) :
    2 * scale mantissa size < 256 ^ size := by
  rcases Nat.le_total size 3 with hle | hge
  · have hpos : 0 < 256 ^ (3 - size) := Nat.pow_pos (by decide)
    have hfit : 2 * mantissa < 256 ^ size * 256 ^ (3 - size) := by
      rw [pow_mul_pow hle]
      omega
    rw [scale_of_le hle]
    calc 2 * (mantissa / 256 ^ (3 - size)) ≤ 2 * mantissa / 256 ^ (3 - size) :=
          Nat.mul_div_le_mul_div_assoc _ _ _
      _ < 256 ^ size := (Nat.div_lt_iff_lt_mul hpos).2 hfit
  · rw [scale_of_ge hge, pow_eq_unit hge, ← Nat.mul_assoc]
    exact (Nat.mul_lt_mul_right (unit_pos size)).2 (by omega)

/-! ## There and back -/

theorem ofCompact_toCompact (h : target < 2 ^ 2039) : ofCompact (toCompact target) =
    .ok (target / unit (statedSize target) * unit (statedSize target)) := by
  rw [← scale_leading]
  exact ofCompact_of_toNat (toNat_toCompact (statedSize_le_255_iff.2 h))
    (leading_statedSize_lt target)

/-- A target has at least 16 bits in front of those that its form leaves out. -/
theorem mod_unit_mul_le (target : Nat) : target % unit (statedSize target) * 2 ^ 15 ≤ target := by
  rcases Nat.lt_or_ge 3 (statedSize target) with hgt | hle
  · have hfull : 256 ^ (statedSize target - 1) ≤ 2 * target := by
      rw [← Nat.not_lt, ← statedSize_le_iff]
      omega
    have hpow : 256 ^ (statedSize target - 1) = 256 ^ 2 * unit (statedSize target) := by
      rw [unit, ← Nat.pow_add]
      congr 1
      omega
    have hmod := Nat.mod_lt target (unit_pos (statedSize target))
    omega
  · rw [unit_of_le hle, Nat.mod_one, Nat.zero_mul]
    exact Nat.zero_le _

theorem toNat_toCompact_mono {other : Nat} (h : target ≤ other) (hother : other < 2 ^ 2039) :
    (toCompact target).toNat ≤ (toCompact other).toNat := by
  rw [toNat_toCompact (statedSize_le_255_iff.2 (Nat.lt_of_le_of_lt h hother)),
    toNat_toCompact (statedSize_le_255_iff.2 hother)]
  obtain hlt | heq := Nat.lt_or_eq_of_le (statedSize_mono h)
  · have hleading := leading_statedSize_lt target
    omega
  · rw [heq]
    exact Nat.add_le_add_left (leading_mono h _) _

theorem ofCompact_toCompact_of_ofCompact {bits : UInt32} (h : ofCompact bits = .ok target) :
    target < 2 ^ 2039 ∧ ofCompact (toCompact target) = .ok target := by
  obtain ⟨mantissa, size, hmantissa, hsize, rfl⟩ := ofCompact_cases h
  have hstated : statedSize (scale mantissa size) ≤ size :=
    statedSize_le_iff.2 (two_mul_scale_lt hmantissa size)
  have hlt : scale mantissa size < 2 ^ 2039 :=
    statedSize_le_255_iff.1 (Nat.le_trans hstated hsize)
  -- The unit of the form that is written divides the unit of the form that was read.
  have hdvd : unit (statedSize (scale mantissa size)) ∣ scale mantissa size :=
    Nat.dvd_trans (unit_dvd_unit hstated) (unit_dvd_scale mantissa size)
  refine ⟨hlt, ?_⟩
  rw [ofCompact_toCompact hlt, Nat.div_mul_cancel hdvd]

/-- **Compact forms round down.** The form of a target below `2 ^ 2039` has a clear sign bit. What it
stands for is not above the target, and what is left out is no more than one part in `2 ^ 15` of it.
Forms are in the order of their targets, and a target that bits stand for is what its own form stands
for. -/
theorem compact_rounds_down :
    (∀ target, target < 2 ^ 2039 →
      (∃ rounded, ofCompact (toCompact target) = .ok rounded ∧ rounded ≤ target ∧
        (target - rounded) * 2 ^ 15 ≤ target) ∧
      (toCompact target).toNat &&& signBit = 0) ∧
    (∀ target other, target ≤ other → other < 2 ^ 2039 →
      (toCompact target).toNat ≤ (toCompact other).toNat) ∧
    ∀ bits target, ofCompact bits = .ok target →
      target < 2 ^ 2039 ∧ ofCompact (toCompact target) = .ok target := by
  refine ⟨fun target h => ⟨?_, ?_⟩, fun _ _ => toNat_toCompact_mono,
    fun _ _ => ofCompact_toCompact_of_ofCompact⟩
  · refine ⟨_, ofCompact_toCompact h, Nat.div_mul_le_self _ _, ?_⟩
    rw [← Nat.mod_eq_sub_div_mul]
    exact mod_unit_mul_le target
  · have hleading := leading_statedSize_lt target
    rw [sign_clear_iff, toNat_toCompact (statedSize_le_255_iff.2 h), signBit]
    omega

/-- A first byte that would take the sign bit, with a byte left out; and bits that state more bytes
than the target has. -/
theorem compact_rounds_down_signByte :
    0x7fffff ≤ 0x80ffff ∧ 0x80ffff < 2 ^ 2039 ∧ ofCompact 0x05000012 = .ok 0x120000 ∧
      (∃ rounded, ofCompact (toCompact 0x80ffff) = .ok rounded ∧ rounded ≤ 0x80ffff ∧
        (0x80ffff - rounded) * 2 ^ 15 ≤ 0x80ffff) ∧
      (toCompact 0x80ffff).toNat &&& signBit = 0 ∧
      (toCompact 0x7fffff).toNat ≤ (toCompact 0x80ffff).toNat ∧
      ofCompact (toCompact 0x120000) = .ok 0x120000 := by
  obtain ⟨hround, hmono, himage⟩ := compact_rounds_down
  have hle : 0x7fffff ≤ 0x80ffff := by decide
  have hlt : 0x80ffff < 2 ^ 2039 :=
    statedSize_le_255_iff.1 (statedSize_le_iff.2 (by decide))
  have hread : ofCompact 0x05000012 = .ok 0x120000 := rfl
  exact ⟨hle, hlt, hread, (hround _ hlt).1, (hround _ hlt).2, hmono _ _ hle hlt,
    (himage _ _ hread).2⟩

end SpendScript.Target
