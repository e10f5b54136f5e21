import SpendScript.Proofs.Eval.StackOutcomes

/-!
# SpendScript.Proofs.Eval.Number

Numbers and the items that spell them. An item is digits whose last byte has room for a sign; it is
taken apart here into the bytes before that one, the sign and the rest of that byte.

* `value_concat_signed`, `isMinimal_concat_signed`: what such an item spells, and when it is minimal.
* `exists_encode_eq`: the shortest item of a number in these parts.
* `value_encode`, `encode_value_of_isMinimal`: numbers and minimal items are in bijection.
* `length_encode_le_iff`: the numbers that items of some length spell.
* `decode_inverts_encode`: the same with the limits that operands are under.
-/

namespace SpendScript.Number

/-! ## The byte with the sign -/

/-- A byte below `0x80` with a sign in its highest bit. -/
def signed (negative : Bool) (b : UInt8) : UInt8 := if negative then b ||| 0x80 else b

theorem signed_and_magnitude {b : UInt8} (h : b < 0x80) (negative : Bool) :
    signed negative b &&& 0x7f = b :=
  forall_byte (p := fun b => b < 0x80 → ∀ negative, signed negative b &&& 0x7f = b)
    (by decide +kernel) b h negative

theorem signed_and_sign {b : UInt8} (h : b < 0x80) (negative : Bool) :
    signed negative b &&& 0x80 = 0 ↔ negative = false :=
  forall_byte
    (p := fun b => b < 0x80 → ∀ negative, signed negative b &&& 0x80 = 0 ↔ negative = false)
    (by decide +kernel) b h negative

theorem exists_eq_signed (b : UInt8) :
    ∃ negative magnitude, magnitude < 0x80 ∧ signed negative magnitude = b :=
  ⟨b &&& 0x80 != 0, b &&& 0x7f, forall_byte
    (p := fun b => b &&& 0x7f < 0x80 ∧ signed (b &&& 0x80 != 0) (b &&& 0x7f) = b)
    (by decide +kernel) b⟩

/-! ## Items in parts -/

section Parts

variable {body : Bytes} {b : UInt8} {negative : Bool}

/-- The byte `b` behind `body` is needed, whatever its sign: it is more than a sign, or the byte
before it has no room for one. -/
def Needed (body : Bytes) (b : UInt8) : Prop :=
  b ≠ 0 ∨ ∃ last, body.getLast? = some last ∧ 0x80 ≤ last

theorem value_concat_signed (h : b < 0x80) :
    value (body ++ [signed negative b]) =
      if negative then -(Bytes.toNatLE (body ++ [b]) : Int) else Bytes.toNatLE (body ++ [b]) := by
  simp only [value, List.getLast?_concat, List.dropLast_concat, signed_and_magnitude h,
    signed_and_sign h]
  cases negative <;> rfl

theorem natAbs_value_concat_signed (h : b < 0x80) :
    (value (body ++ [signed negative b])).natAbs = Bytes.toNatLE (body ++ [b]) := by
  rw [value_concat_signed h]
  cases negative <;> simp

theorem isMinimal_concat_signed (h : b < 0x80) :
    isMinimal (body ++ [signed negative b]) = true ↔ Needed body b := by
  rw [isMinimal, List.reverse_append, List.reverse_singleton, List.singleton_append, Needed]
  rcases List.eq_nil_or_concat body with rfl | ⟨init, last, rfl⟩
  · simp [signed_and_magnitude h]
  · simp [signed_and_magnitude h, and_signBit_eq_zero_iff]

/-- The magnitude of the shortest item, and the item itself, for a number that is not zero. -/
theorem exists_encode_eq {n : Int} (h : n ≠ 0) :
    ∃ body b, b < 0x80 ∧ Needed body b ∧ Bytes.toNatLE (body ++ [b]) = n.natAbs ∧
      encode n = body ++ [signed (decide (n < 0)) b] := by
  have hvalue := Bytes.toNatLE_magnitudeLE n.natAbs
  have hlast := Bytes.getLast?_magnitudeLE_ne_zero n.natAbs
  have hne : Bytes.magnitudeLE n.natAbs ≠ [] := by
    rw [Ne, Bytes.magnitudeLE_eq_nil_iff]
    omega
  rw [encode]
  obtain ⟨init, last, hdigits⟩ := (List.eq_nil_or_concat _).resolve_left hne
  rw [List.concat_eq_append] at hdigits
  rw [hdigits] at hvalue hlast ⊢
  rw [List.getLast?_concat] at hlast
  simp only [List.getLast?_concat, List.dropLast_concat]
  by_cases hfull : last &&& 0x80 ≠ 0
  · -- The sign takes a byte of its own.
    refine ⟨init ++ [last], 0, by decide, .inr ⟨last, List.getLast?_concat, ?_⟩, ?_, ?_⟩
    · rwa [Ne, and_signBit_eq_zero_iff, UInt8.not_lt] at hfull
    · rw [Bytes.toNatLE_concat, hvalue]
      simp
    · rw [if_pos hfull]
      by_cases hneg : n < 0 <;> simp [hneg, signed]
  · have hroom : last < 0x80 := and_signBit_eq_zero_iff.1 (Decidable.not_not.1 hfull)
    refine ⟨init, last, hroom, .inl (by simpa using hlast), hvalue, ?_⟩
    rw [if_neg hfull]
    by_cases hneg : n < 0 <;> simp [hneg, signed]

end Parts

/-! ## The bijection -/

theorem value_encode (n : Int) : value (encode n) = n := by
  by_cases hn : n = 0
  · simp [hn, encode, Bytes.magnitudeLE, value]
  · obtain ⟨body, b, hb, -, hvalue, hitem⟩ := exists_encode_eq hn
    rw [hitem, value_concat_signed hb, hvalue]
    by_cases hneg : n < 0
    · simp only [hneg, decide_true, if_true]
      omega
    · simp only [hneg, decide_false, Bool.false_eq_true, if_false]
      omega

theorem isMinimal_encode (n : Int) : isMinimal (encode n) = true := by
  by_cases hn : n = 0
  · simp [hn, encode, Bytes.magnitudeLE, isMinimal]
  · obtain ⟨body, b, hb, hneeded, -, hitem⟩ := exists_encode_eq hn
    rw [hitem]
    exact (isMinimal_concat_signed hb).2 hneeded

/-- A needed byte is the last digit, or a zero behind it that makes room for the sign. -/
theorem magnitudeLE_of_needed {body : Bytes} {b : UInt8} (h : Needed body b) :
    Bytes.magnitudeLE (Bytes.toNatLE (body ++ [b])) = if b = 0 then body else body ++ [b] := by
  split
  · rename_i hzero
    have hspells : Bytes.toNatLE (body ++ [b]) = Bytes.toNatLE body := by
      rw [Bytes.toNatLE_concat, hzero]
      simp
    obtain ⟨last, hlast, hfull⟩ := h.resolve_left (fun hne => hne hzero)
    rw [hspells]
    apply Bytes.magnitudeLE_toNatLE
    rw [hlast, Ne, Option.some.injEq]
    rintro rfl
    exact absurd hfull (by decide)
  · rename_i hne
    apply Bytes.magnitudeLE_toNatLE
    simpa using hne

theorem toNatLE_ne_zero_of_needed {body : Bytes} {b : UInt8} (h : Needed body b) :
    Bytes.toNatLE (body ++ [b]) ≠ 0 := by
  intro hzero
  have hdigits := magnitudeLE_of_needed h
  rw [hzero, Bytes.magnitudeLE_eq_nil_iff.2 rfl] at hdigits
  split at hdigits
  · rename_i hb
    obtain ⟨last, hlast, -⟩ := h.resolve_left (fun hne => hne hb)
    rw [← hdigits] at hlast
    cases hlast
  · simp at hdigits

/-- The magnitude fixes the parts of a minimal item. -/
theorem needed_inj {body body' : Bytes} {b b' : UInt8} (h : Needed body b) (h' : Needed body' b')
    (hb : b < 0x80) (hb' : b' < 0x80)
    (hvalue : Bytes.toNatLE (body ++ [b]) = Bytes.toNatLE (body' ++ [b'])) :
    body = body' ∧ b = b' := by
  have hdigits := magnitudeLE_of_needed h
  rw [hvalue, magnitudeLE_of_needed h'] at hdigits
  -- A zero that makes room for the sign stands behind a byte without room.
  have hroom : ∀ {body body' : Bytes} {b b' : UInt8}, Needed body b → b' < 0x80 → b = 0 →
      body ≠ body' ++ [b'] := by
    rintro body body' b b' h hb' hzero rfl
    obtain ⟨last, hlast, hfull⟩ := h.resolve_left (fun hne => hne hzero)
    rw [List.getLast?_concat, Option.some.injEq] at hlast
    rw [hlast] at hb'
    exact absurd hfull (UInt8.not_le.2 hb')
  split at hdigits
  · rename_i hzero'
    split at hdigits
    · rename_i hzero
      exact ⟨hdigits.symm, hzero.trans hzero'.symm⟩
    · exact absurd hdigits (hroom h' hb hzero')
  · split at hdigits
    · rename_i hzero
      exact absurd hdigits.symm (hroom h hb' hzero)
    · obtain ⟨hbody, hlast⟩ := List.append_inj' hdigits rfl
      exact ⟨hbody.symm, (List.singleton_inj.1 hlast).symm⟩

theorem encode_value_of_isMinimal {bs : Bytes} (h : isMinimal bs = true) :
    encode (value bs) = bs := by
  rcases List.eq_nil_or_concat bs with rfl | ⟨body, last, rfl⟩
  · simp [value, encode, Bytes.magnitudeLE]
  · rw [List.concat_eq_append] at h ⊢
    obtain ⟨negative, b, hb, rfl⟩ := exists_eq_signed last
    have hneeded := (isMinimal_concat_signed hb).1 h
    have hpos := toNatLE_ne_zero_of_needed hneeded
    have hsize : (value (body ++ [signed negative b])).natAbs = Bytes.toNatLE (body ++ [b]) :=
      natAbs_value_concat_signed hb
    obtain ⟨body', b', hb', hneeded', hvalue', hitem⟩ :=
      exists_encode_eq (n := value (body ++ [signed negative b])) (by omega)
    obtain ⟨rfl, rfl⟩ := needed_inj hneeded' hneeded hb' hb (hvalue'.trans hsize)
    have hsign : decide (value (body' ++ [signed negative b']) < 0) = negative := by
      rw [value_concat_signed hb]
      cases negative with
      | false => simp
      | true =>
        rw [if_pos rfl, decide_eq_true_eq]
        omega
    rw [hitem, hsign]

theorem encode_value_eq_iff {bs : Bytes} : encode (value bs) = bs ↔ isMinimal bs = true := by
  constructor
  · intro h
    rw [← h]
    exact isMinimal_encode _
  · exact encode_value_of_isMinimal

/-! ## Lengths -/

/-- The number that an item spells, by its length. -/
theorem natAbs_value_lt {bs : Bytes} {k : Nat} (hk : 0 < k) (h : bs.length ≤ k) :
    (value bs).natAbs < 2 ^ (8 * k - 1) := by
  rcases List.eq_nil_or_concat bs with rfl | ⟨body, last, rfl⟩
  · simp [value]
  · rw [List.concat_eq_append] at h ⊢
    obtain ⟨negative, b, hb, rfl⟩ := exists_eq_signed last
    have hdigits := Bytes.toNatLE_lt body
    have hlow : b.toNat < 128 := hb
    rw [List.length_append, List.length_singleton] at h
    rw [natAbs_value_concat_signed hb, Bytes.toNatLE_concat]
    calc Bytes.toNatLE body + 256 ^ body.length * b.toNat
        < 256 ^ body.length * (b.toNat + 1) := by rw [Nat.mul_add]; omega
      _ ≤ 256 ^ body.length * 128 := Nat.mul_le_mul_left _ hlow
      _ = 2 ^ (8 * body.length + 7) := by rw [Nat.pow_add, Nat.pow_mul]
      _ ≤ 2 ^ (8 * k - 1) := Nat.pow_le_pow_right (by decide) (by omega)

theorem le_toNatLE_of_needed {body : Bytes} {b : UInt8} (h : Needed body b) :
    2 ^ (8 * body.length) ≤ 2 * Bytes.toNatLE (body ++ [b]) := by
  have hbase : ∀ m, 2 ^ (8 * m) = 256 ^ m := Nat.pow_mul 2 8
  rw [Bytes.toNatLE_concat, hbase]
  obtain hne | ⟨last, hlast, hfull⟩ := h
  · have hpos : 1 ≤ b.toNat := by
      rw [Nat.one_le_iff_ne_zero, Ne, ← UInt8.toNat_zero, UInt8.toNat_inj]
      exact hne
    have hle := Nat.mul_le_mul_left (256 ^ body.length) hpos
    omega
  · obtain ⟨init, rfl⟩ := List.getLast?_eq_some_iff.1 hlast
    have hhigh : 128 ≤ last.toNat := hfull
    have hle := Nat.mul_le_mul_left (256 ^ init.length) hhigh
    rw [Bytes.toNatLE_concat, List.length_append, List.length_singleton, Nat.pow_succ]
    omega

theorem length_encode_le_iff {k : Nat} (hk : 0 < k) (n : Int) :
    (encode n).length ≤ k ↔ n.natAbs < 2 ^ (8 * k - 1) := by
  constructor
  · intro h
    rw [← value_encode n]
    exact natAbs_value_lt hk h
  · intro h
    by_cases hn : n = 0
    · simp [hn, encode, Bytes.magnitudeLE]
    · obtain ⟨body, b, hb, hneeded, hvalue, hitem⟩ := exists_encode_eq hn
      have hlow := le_toNatLE_of_needed hneeded
      have hlt : 2 ^ (8 * body.length) < 2 ^ (8 * k) := by
        calc 2 ^ (8 * body.length) ≤ 2 * n.natAbs := by rw [← hvalue]; exact hlow
          _ < 2 * 2 ^ (8 * k - 1) := by omega
          _ = 2 ^ (8 * k) := by
            rw [← Nat.pow_succ', Nat.succ_eq_add_one, Nat.sub_add_cancel (by omega)]
      have hlen := (Nat.pow_lt_pow_iff_right (by decide)).1 hlt
      rw [hitem, List.length_append, List.length_singleton]
      omega

/-! ## Operands -/

theorem decode_eq_ok_iff {rule : NumberRule} {bs : Bytes} {n : Int} :
    decode rule bs = .ok n ↔
      bs.length ≤ min rule.maxLength maxWidth ∧ (rule.minimal = true → isMinimal bs = true) ∧
        value bs = n := by
  unfold decode
  by_cases hlong : min rule.maxLength maxWidth < bs.length
  · simp only [hlong, if_true, reduceCtorEq, Nat.not_le.2 hlong, false_and]
  · cases hrule : rule.minimal <;> cases hmin : isMinimal bs <;>
      simp [hlong, Nat.not_lt.1 hlong]

/-- An operand has a fault of two kinds: it is too long, or it is longer than it needs to be. -/
theorem decode_eq_error_iff {rule : NumberRule} {bs : Bytes} {f : Fault} :
    decode rule bs = .error f ↔
      min rule.maxLength maxWidth < bs.length ∧
          f = .numberTooLong bs (min rule.maxLength maxWidth) ∨
        bs.length ≤ min rule.maxLength maxWidth ∧ rule.minimal = true ∧ isMinimal bs = false ∧
          f = .longNumber bs := by
  unfold decode
  by_cases hlong : min rule.maxLength maxWidth < bs.length
  · simp only [hlong, if_true, Except.error.injEq, eq_comm (b := f), Nat.not_le.2 hlong, true_and,
      false_and, or_false]
  · cases hrule : rule.minimal <;> cases hmin : isMinimal bs <;>
      simp [hlong, Nat.not_lt.1 hlong, eq_comm (b := f)]

/-- What is refused as not minimal is what would be written in another way. -/
theorem exists_minimalData_iff {k : Nat} {bs : Bytes} :
    (∃ f, decode ⟨k, true⟩ bs = .error f ∧ f.code = .minimalData) ↔
      ∃ n, decode ⟨k, false⟩ bs = .ok n ∧ encode n ≠ bs := by
  constructor
  · rintro ⟨f, hf, hcode⟩
    obtain ⟨-, rfl⟩ | ⟨hlen, -, hmin, -⟩ := decode_eq_error_iff.1 hf
    · cases hcode
    · refine ⟨value bs, decode_eq_ok_iff.2 ⟨hlen, nofun, rfl⟩, ?_⟩
      rw [Ne, encode_value_eq_iff, hmin]
      exact Bool.false_ne_true
  · rintro ⟨n, hn, hother⟩
    obtain ⟨hlen, -, rfl⟩ := decode_eq_ok_iff.1 hn
    rw [Ne, encode_value_eq_iff, Bool.not_eq_true] at hother
    exact ⟨_, decode_eq_error_iff.2 (.inr ⟨hlen, rfl, hother, rfl⟩), rfl⟩

/-- **Numbers and operands of every width are in bijection.** A number has an item of at most `k`
bytes exactly where its size is below half of `256 ^ k`, and then the item is read back as that
number, whether minimal items are asked for or not; any other number has an item that is too long.
No operand of that width spells such a number. What is read as a minimal operand is the item of its
number, and what is refused there as not minimal is what would be written in another way. -/
theorem decode_inverts_encode {k : Nat} (hpos : 1 ≤ k) (hmax : k ≤ 8) :
    (∀ n : Int,
      ((encode n).length ≤ k ↔ n.natAbs ≤ 2 ^ (8 * k - 1) - 1) ∧
      (n.natAbs ≤ 2 ^ (8 * k - 1) - 1 → ∀ minimal, decode ⟨k, minimal⟩ (encode n) = .ok n) ∧
      (2 ^ (8 * k - 1) - 1 < n.natAbs → ∀ minimal,
        ∃ f, decode ⟨k, minimal⟩ (encode n) = .error f ∧ f.code = .numberTooBig)) ∧
    (∀ bs n minimal, decode ⟨k, minimal⟩ bs = .ok n → n.natAbs ≤ 2 ^ (8 * k - 1) - 1) ∧
    (∀ bs n, decode ⟨k, true⟩ bs = .ok n → encode n = bs) ∧
    (∀ bs, (∃ f, decode ⟨k, true⟩ bs = .error f ∧ f.code = .minimalData) ↔
      bs.length ≤ k ∧ ∃ n, decode ⟨k, false⟩ bs = .ok n ∧ encode n ≠ bs) := by
  have hwidth : min k maxWidth = k := Nat.min_eq_left hmax
  have hsize : 0 < 2 ^ (8 * k - 1) := Nat.two_pow_pos _
  refine ⟨fun n => ?_, ?_, ?_, ?_⟩
  · have hlength := length_encode_le_iff hpos n
    refine ⟨by omega, ?_, ?_⟩
    · intro hsmall minimal
      refine decode_eq_ok_iff.2 ⟨?_, fun _ => isMinimal_encode n, value_encode n⟩
      simp only [hwidth]
      omega
    · intro hlarge minimal
      refine ⟨_, decode_eq_error_iff.2 (.inl ⟨?_, rfl⟩), rfl⟩
      simp only [hwidth]
      omega
  · intro bs n minimal h
    obtain ⟨hshort, -, rfl⟩ := decode_eq_ok_iff.1 h
    simp only [hwidth] at hshort
    exact Nat.le_sub_one_of_lt (natAbs_value_lt hpos hshort)
  · intro bs n h
    obtain ⟨-, hmin, rfl⟩ := decode_eq_ok_iff.1 h
    exact encode_value_of_isMinimal (hmin rfl)
  · intro bs
    rw [exists_minimalData_iff, iff_and_self]
    rintro ⟨n, hn, -⟩
    obtain ⟨hshort, -, -⟩ := decode_eq_ok_iff.1 hn
    simpa only [hwidth] using hshort

/-- The number of 64 bits whose size has no number of the other sign has an item of nine bytes. -/
theorem decode_inverts_encode_lowest :
    (1 ≤ 8 ∧ 8 ≤ 8 ∧ 2 ^ (8 * 8 - 1) - 1 < (-0x8000000000000000 : Int).natAbs) ∧
      ∀ minimal, ∃ f, decode ⟨8, minimal⟩ (encode (-0x8000000000000000)) = .error f ∧
        f.code = .numberTooBig := by
  have hlarge : 2 ^ (8 * 8 - 1) - 1 < (-0x8000000000000000 : Int).natAbs := by decide
  exact ⟨⟨by decide, by decide, hlarge⟩,
    ((decode_inverts_encode (by decide) (by decide)).1 (-0x8000000000000000)).2.2 hlarge⟩

end SpendScript.Number
