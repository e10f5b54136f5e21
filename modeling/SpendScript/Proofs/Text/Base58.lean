import SpendScript.Proofs.Digits
import SpendScript.Text.Base58

/-!
# SpendScript.Proofs.Text.Base58

Base-58 text stands for exactly one byte string. Bytes and base-58 digits are two numerals for the
same thing, a count of leading zeros and a number behind them. A numeral is fixed by these two, in
any base, so going from one base to the other and back changes nothing.

* `numeral_leadingZeros`: digits are the numeral of their zeros and their value.
* `digitValues_eq_ok_iff`: which texts have digit values, and which ones.
* `decodeChars_eq_ok_iff`: a text is read as a byte string exactly if it is its written form.
-/

namespace SpendScript
namespace Text
namespace Base58

/-! ## Numerals with leading zeros -/

/-- The zeros that digits begin with. -/
def leadingZeros (ds : List Nat) : Nat := (ds.takeWhile (· == 0)).length

/-- The number that digits spell in base `b`, most significant first. -/
def value (b : Nat) (ds : List Nat) : Nat := Nat.ofDigits b ds.reverse

/-- Zeros, and behind them the digits of `n` without any of its own. -/
def numeral (b zeros n : Nat) : List Nat := List.replicate zeros 0 ++ (Nat.digits b n).reverse

theorem takeWhile_digits_reverse (b n : Nat) :
    (Nat.digits b n).reverse.takeWhile (· == 0) = [] := by
  rw [List.takeWhile_eq_nil_iff]
  intro hpos
  have hn : n ≠ 0 := by
    rintro rfl
    simp at hpos
  have hlast := Nat.getLast_digit_ne_zero b hn
  rw [List.getLast_eq_getElem] at hlast
  simpa [List.getElem_reverse] using hlast

@[simp] theorem leadingZeros_numeral (b zeros n : Nat) :
    leadingZeros (numeral b zeros n) = zeros := by
  have hzeros : ∀ d ∈ List.replicate zeros 0, (d == 0) = true := by
    intro d hd
    rw [List.eq_of_mem_replicate hd]
    rfl
  rw [leadingZeros, numeral, List.takeWhile_append_of_pos hzeros, takeWhile_digits_reverse,
    List.append_nil, List.length_replicate]

@[simp] theorem value_numeral (b zeros n : Nat) : value b (numeral b zeros n) = n := by
  rw [value, numeral, List.reverse_append, List.reverse_reverse, List.reverse_replicate,
    Nat.ofDigits_append_replicate_zero, Nat.ofDigits_digits]

theorem lt_of_mem_numeral {b : Nat} (hb : 1 < b) {zeros n d : Nat} (h : d ∈ numeral b zeros n) :
    d < b := by
  rw [numeral, List.mem_append, List.mem_reverse] at h
  cases h with
  | inl hzero =>
    rw [List.eq_of_mem_replicate hzero]
    omega
  | inr hdigit => exact Nat.digits_lt_base hb hdigit

/-- Digits are the numeral of the zeros that they begin with and of their value. -/
theorem numeral_leadingZeros {b : Nat} (hb : 1 < b) {ds : List Nat} (h : ∀ d ∈ ds, d < b) :
    numeral b (leadingZeros ds) (value b ds) = ds := by
  have hzeros : ds.takeWhile (· == 0) = List.replicate (leadingZeros ds) 0 := by
    apply List.eq_replicate_of_mem
    intro d hd
    simpa using List.mem_takeWhile_imp hd
  have hsplit : List.replicate (leadingZeros ds) 0 ++ ds.dropWhile (· == 0) = ds := by
    rw [← hzeros, List.takeWhile_append_dropWhile]
  have hvalue : value b ds = Nat.ofDigits b (ds.dropWhile (· == 0)).reverse := by
    conv_lhs => rw [value, ← hsplit]
    rw [List.reverse_append, List.reverse_replicate, Nat.ofDigits_append_replicate_zero]
  have hdigits : Nat.digits b (value b ds) = (ds.dropWhile (· == 0)).reverse := by
    rw [hvalue]
    refine Nat.digits_ofDigits b hb _ ?_ ?_
    · intro d hd
      exact h d ((List.dropWhile_sublist _).subset (List.mem_reverse.1 hd))
    · intro hne
      rw [List.getLast_reverse]
      have hhead := List.head_dropWhile_not (· == 0) (List.reverse_ne_nil_iff.1 hne)
      simpa using hhead
  rw [numeral, hdigits, List.reverse_reverse, hsplit]

/-! ## Bytes as digits -/

/-- The bytes of a byte string as digits in base 256. -/
def byteDigits (bs : Bytes) : List Nat := bs.map UInt8.toNat

theorem byteDigits_lt (bs : Bytes) : ∀ d ∈ byteDigits bs, d < 256 := by
  intro d hd
  obtain ⟨b, -, rfl⟩ := List.mem_map.1 hd
  exact b.toNat_lt

theorem byteDigits_inj {as bs : Bytes} : byteDigits as = byteDigits bs ↔ as = bs :=
  (List.map_injective_iff.2 fun _ _ => UInt8.toNat_inj.1).eq_iff

theorem toNatLE_eq_ofDigits (bs : Bytes) : Bytes.toNatLE bs = Nat.ofDigits 256 (byteDigits bs) := by
  induction bs with
  | nil => rfl
  | cons b bs ih =>
    rw [Bytes.toNatLE, ih, byteDigits, byteDigits, List.map_cons, Nat.ofDigits_cons]

theorem toNatBE_eq_value (bs : Bytes) : Bytes.toNatBE bs = value 256 (byteDigits bs) := by
  rw [Bytes.toNatBE, toNatLE_eq_ofDigits, value, byteDigits, byteDigits, List.map_reverse]

theorem leadingZeros_byteDigits (bs : Bytes) :
    leadingZeros (byteDigits bs) = (bs.takeWhile (· == 0)).length := by
  have hzero : ((· == 0) : Nat → Bool) ∘ UInt8.toNat = (· == 0) := by
    funext b
    rw [Function.comp, Bool.eq_iff_iff, beq_iff_eq, beq_iff_eq]
    exact UInt8.toNat_inj (b := 0)
  rw [leadingZeros, byteDigits, List.takeWhile_map, List.length_map, hzero]

theorem byteDigits_magnitudeLE (n : Nat) : byteDigits (Bytes.magnitudeLE n) = Nat.digits 256 n := by
  induction n using Nat.strongRecOn with
  | ind n ih =>
    rw [Bytes.magnitudeLE]
    split
    · rename_i h
      rw [h, Nat.digits_zero]
      rfl
    · rename_i h
      rw [Nat.digits_def' (by decide) (Nat.pos_of_ne_zero h), ← ih (n / 256) (by omega), byteDigits,
        List.map_cons, Bytes.toNat_ofNat_byte]
      rfl

/-- Zero bytes and a number behind them, as digits. -/
theorem byteDigits_zeros_magnitudeBE (zeros n : Nat) :
    byteDigits (List.replicate zeros 0 ++ Bytes.magnitudeBE n) = numeral 256 zeros n := by
  rw [Bytes.magnitudeBE, byteDigits, List.map_append, List.map_replicate, List.map_reverse, numeral,
    ← byteDigits_magnitudeLE]
  rfl

/-! ## The digits of a text -/

theorem digitValue?_digit : ∀ v < 58, digitValue? (digit v) = some v := by decide

/-- The digits lie between `1` and `z`. -/
theorem toNat_digit : ∀ v < 58, 0x31 ≤ (digit v).toNat ∧ (digit v).toNat ≤ 0x7a := by decide

theorem digit_of_digitValue? {c : Char} {v : Nat} (h : digitValue? c = some v) :
    v < 58 ∧ digit v = c := by
  obtain ⟨hv, hc, -⟩ := List.idxOf?_eq_some_iff.1 h
  refine ⟨hv, ?_⟩
  rw [digit, List.getD_eq_getElem _ _ hv, hc]

/-- The texts that have digit values are the digits of those values. -/
theorem digitValues_eq_ok_iff {position : Nat} {cs : List Char} {vs : List Nat} :
    digitValues position cs = .ok vs ↔ (∀ v ∈ vs, v < 58) ∧ cs = vs.map digit := by
  induction cs generalizing position vs with
  | nil =>
    rw [digitValues]
    constructor
    · intro h
      cases h
      simp
    · rintro ⟨-, h⟩
      rw [List.map_eq_nil_iff.1 h.symm]
  | cons c cs ih =>
    rw [digitValues]
    constructor
    · intro h
      split at h
      · cases h
      · split at h
        · cases h
        · rename_i v hv
          split at h
          · cases h
          · rename_i vs' hvs
            cases h
            obtain ⟨hlt, hdigit⟩ := digit_of_digitValue? hv
            obtain ⟨hrest, rfl⟩ := ih.1 hvs
            refine ⟨?_, by rw [List.map_cons, hdigit]⟩
            simpa using ⟨hlt, hrest⟩
    · rintro ⟨hlt, hcs⟩
      obtain ⟨v, vs, rfl, rfl, rfl⟩ := List.map_eq_cons_iff.1 hcs.symm
      have hv : v < 58 := hlt v List.mem_cons_self
      have hrest : digitValues (position + 1) (vs.map digit) = .ok vs :=
        ih.2 ⟨fun v' hv' => hlt v' (List.mem_cons_of_mem v hv'), rfl⟩
      have hascii : ¬127 < (digit v).toNat := by
        have hrange := toNat_digit v hv
        omega
      rw [if_neg hascii, digitValue?_digit v hv]
      simp only [hrest]

theorem digitsLE_eq (n : Nat) : digitsLE n = (Nat.digits 58 n).map digit := by
  induction n using Nat.strongRecOn with
  | ind n ih =>
    rw [digitsLE]
    split
    · rename_i h
      rw [h, Nat.digits_zero, List.map_nil]
    · rename_i h
      rw [Nat.digits_def' (by decide) (Nat.pos_of_ne_zero h), List.map_cons, ih (n / 58) (by omega)]

theorem foldl_eq_value (vs : List Nat) : vs.foldl (fun n v => 58 * n + v) 0 = value 58 vs := by
  rw [value, Nat.ofDigits_eq_foldr, List.foldr_reverse]
  congr 1
  funext n v
  rw [Nat.cast_id, Nat.add_comm]

/-! ## Reading and writing -/

/-- The text of a byte string is the numeral in base 58 with its zeros and its value. -/
theorem encodeChars_eq (bs : Bytes) :
    encodeChars bs =
      (numeral 58 (leadingZeros (byteDigits bs)) (value 256 (byteDigits bs))).map digit := by
  rw [encodeChars, digitsLE_eq, ← leadingZeros_byteDigits, toNatBE_eq_value, numeral,
    List.map_append, List.map_replicate, List.map_reverse]
  rfl

/-- A text is read as the byte string with the zeros and the value of its digits. -/
theorem decodeChars_eq_ok_iff_digits {cs : List Char} {bs : Bytes} :
    decodeChars cs = .ok bs ↔ ∃ vs : List Nat, (∀ v ∈ vs, v < 58) ∧ cs = vs.map digit ∧
      byteDigits bs = numeral 256 (leadingZeros vs) (value 58 vs) := by
  rw [decodeChars]
  constructor
  · intro h
    split at h
    · cases h
    · rename_i vs hvs
      cases h
      obtain ⟨hlt, hcs⟩ := digitValues_eq_ok_iff.1 hvs
      exact ⟨vs, hlt, hcs, by rw [byteDigits_zeros_magnitudeBE, foldl_eq_value, leadingZeros]⟩
  · rintro ⟨vs, hlt, hcs, hbytes⟩
    rw [digitValues_eq_ok_iff.2 ⟨hlt, hcs⟩]
    rw [← foldl_eq_value, leadingZeros, ← byteDigits_zeros_magnitudeBE, byteDigits_inj] at hbytes
    exact congrArg Except.ok hbytes.symm

/-- A text is read as a byte string exactly if it is the text that is written for it. -/
theorem decodeChars_eq_ok_iff {cs : List Char} {bs : Bytes} :
    decodeChars cs = .ok bs ↔ cs = encodeChars bs := by
  rw [decodeChars_eq_ok_iff_digits, encodeChars_eq]
  constructor
  · rintro ⟨vs, hlt, rfl, hbytes⟩
    rw [hbytes, leadingZeros_numeral, value_numeral, numeral_leadingZeros (by decide) hlt]
  · rintro rfl
    refine ⟨_, fun v hv => lt_of_mem_numeral (by decide) hv, rfl, ?_⟩
    rw [leadingZeros_numeral, value_numeral, numeral_leadingZeros (by decide) (byteDigits_lt bs)]

theorem encodeChars_injective : Function.Injective encodeChars := by
  intro as bs h
  have hread := decodeChars_eq_ok_iff.2 h
  rw [decodeChars_eq_ok_iff.2 rfl, Except.ok.injEq] at hread
  exact hread

theorem encodeChars_nil : encodeChars [] = [] := by
  rw [encodeChars_eq]
  rfl

/-- A written text consists of digits. -/
theorem exists_digit_of_mem_encodeChars {bs : Bytes} {c : Char} (h : c ∈ encodeChars bs) :
    ∃ v < 58, digit v = c := by
  rw [encodeChars_eq, List.mem_map] at h
  obtain ⟨v, hv, hc⟩ := h
  exact ⟨v, lt_of_mem_numeral (by decide) hv, hc⟩

end Base58
end Text
end SpendScript
