import SpendScript.Proofs.Eval.Arithmetic

/-!
# SpendScript.Proofs.Eval.Truth

Items as conditions, and items as numbers. An item is judged by its first byte that is not zero,
whereas its number is put together from all of its bytes. What does not count on either side is a
sign in the last byte, however many zeros stand before it.

* `truth_cons`: truth byte by byte, up to the first byte that decides.
* `natAbs_value_cons`: the size of a number byte by byte.
* `truth_iff_value_ne_zero`: an item of any length is true if its number is not zero.
* `exec_judges_number`: the opcodes that take a condition, beside the one that compares to zero.
-/

namespace SpendScript

namespace Number

/-! ## Byte by byte -/

theorem truth_concat (body : Bytes) (last : UInt8) :
    truth (body ++ [last]) = (body.any (· != 0) || last &&& 0x7f != 0) := by
  rw [truth, List.reverse_append, List.reverse_singleton, List.singleton_append]
  simp only [List.any_reverse]

/-- The first byte that is not zero decides. It makes the item true unless it is a sign alone, that
is `0x80` in the last place. -/
theorem truth_cons (b : UInt8) (bs : Bytes) :
    truth (b :: bs) = if b = 0 then truth bs else !(bs.isEmpty && b == 0x80) := by
  rcases List.eq_nil_or_concat bs with rfl | ⟨body, last, rfl⟩
  · exact forall_byte
      (p := fun b => truth [b] = if b = 0 then truth [] else !([].isEmpty && b == 0x80))
      (by decide +kernel) b
  · have hbehind : (body ++ [last]).isEmpty = false := by simp
    rw [List.concat_eq_append, hbehind, ← List.cons_append, truth_concat, truth_concat]
    by_cases hb : b = 0 <;> simp [hb]

theorem natAbs_value_singleton (b : UInt8) : (value [b]).natAbs = (b &&& 0x7f).toNat := by
  obtain ⟨negative, magnitude, hlow, rfl⟩ := exists_eq_signed b
  rw [signed_and_magnitude hlow, ← List.nil_append [signed negative magnitude],
    natAbs_value_concat_signed hlow]
  rfl

theorem natAbs_value_cons (b : UInt8) {bs : Bytes} (h : bs ≠ []) :
    (value (b :: bs)).natAbs = b.toNat + 256 * (value bs).natAbs := by
  obtain ⟨body, last, rfl⟩ := (List.eq_nil_or_concat bs).resolve_left h
  obtain ⟨negative, magnitude, hlow, rfl⟩ := exists_eq_signed last
  rw [List.concat_eq_append, natAbs_value_concat_signed hlow, ← List.cons_append,
    natAbs_value_concat_signed hlow]
  rfl

/-! ## Truth and number -/

theorem truth_iff_value_ne_zero (bs : Bytes) : truth bs = true ↔ value bs ≠ 0 := by
  rw [← Int.natAbs_ne_zero]
  induction bs with
  | nil => decide
  | cons b bs ih =>
    obtain rfl | hne := eq_or_ne bs []
    · -- The last byte, in which the sign is left out on both sides.
      rw [natAbs_value_singleton]
      exact forall_byte (p := fun b => truth [b] = true ↔ (b &&& 0x7f).toNat ≠ 0)
        (by decide +kernel) b
    · rw [truth_cons, natAbs_value_cons b hne]
      by_cases hb : b = 0
      · rw [if_pos hb, ih, hb, UInt8.toNat_zero]
        omega
      · have hpos : b.toNat ≠ 0 := fun hzero => hb (UInt8.toNat_inj.1 hzero)
        simp [hb, hne, hpos]

theorem truth_of_decode {rule : NumberRule} {x : Bytes} {n : Int} (h : decode rule x = .ok n) :
    truth x = (n != 0) := by
  obtain ⟨-, -, rfl⟩ := decode_eq_ok_iff.1 h
  rw [Bool.eq_iff_iff, truth_iff_value_ne_zero, bne_iff_ne]

/-- A truth value that is pushed as a number is the same item. -/
theorem encode_ite_eq_ofBool (n : Int) : encode (if n = 0 then 0 else 1) = ofBool (n != 0) := by
  by_cases hn : n = 0
  · rw [if_pos hn, hn]
    exact encode_value_of_isMinimal (rfl : isMinimal [] = true)
  · rw [if_neg hn, bne_iff_ne.2 hn]
    exact encode_value_of_isMinimal (by decide : isMinimal [1] = true)

end Number

/-! ## Conditions -/

namespace Machine

section Conditions

variable {env : Env} {m : Machine} {x : Bytes} {rest : Stack} {n : Int}

theorem perform_notZero (hdata : m.data = x :: rest) (hn : Number.decode env.numberRule x = .ok n)
    (chunks : List Chunk) (offset : Nat) :
    m.perform env chunks offset .notZero =
      .ok { m with data := Number.ofBool (n != 0) :: rest } := by
  have hpush : m.data.unary env.numberRule (fun n => if n = 0 then 0 else 1) =
      rest.pushFitting (if n = 0 then 0 else 1) := by
    rw [hdata, Stack.unary_of_decode _ hn]
  have hfits : -2 ^ 63 ≤ (if n = 0 then 0 else 1 : Int) ∧
      (if n = 0 then 0 else 1 : Int) < 2 ^ 63 := by
    split <;> decide
  rw [perform, onData_of_pushFitting hpush, if_pos hfits, Number.encode_ite_eq_ofBool]

theorem openBranch_of_decode {rule : NumberRule} (hdata : m.data = x :: rest)
    (hn : Number.decode rule x = .ok n) (hx : m.executing = true) (wanted : Bool) :
    m.openBranch wanted =
      .ok { m with data := rest, branches := ((n != 0) == wanted) :: m.branches } := by
  rw [openBranch, if_pos hx, hdata]
  simp only [Number.truth_of_decode hn]

theorem verifyTop_of_decode {rule : NumberRule} (hdata : m.data = x :: rest)
    (hn : Number.decode rule x = .ok n) (op : Opcode) :
    m.verifyTop op = if n ≠ 0 then .ok { m with data := rest } else .error (.notTrue op) := by
  simp only [verifyTop, Stack.popBool, Stack.pop, hdata, Number.truth_of_decode hn]
  by_cases hzero : n = 0
  · rw [if_neg (not_not.2 hzero), hzero]
    rfl
  · rw [if_pos hzero, bne_iff_ne.2 hzero]

end Conditions

/-- **Truth and number agree.** An item of any length is true exactly if the number that it spells
is not zero, and so an item of at most eight bytes is true exactly if it is read as such a number.
The opcodes judge a number on top of the stack alike: the one that compares it to zero leaves the
truth value by which the two that open a branch take it or not, and the one that verifies fails
where that value is false. -/
theorem exec_judges_number :
    (∀ bs, Number.truth bs = true ↔ Number.value bs ≠ 0) ∧
    (∀ bs : Bytes, bs.length ≤ 8 →
      ∃ n, Number.decode ⟨8, false⟩ bs = .ok n ∧ (Number.truth bs = true ↔ n ≠ 0)) ∧
    ∀ (env : Env) (m : Machine) (x : Bytes) (rest : Stack) (n : Int),
      m.data = x :: rest → Number.decode env.numberRule x = .ok n → m.executing = true →
      m.opCount + 1 ≤ env.limits.maxOps → ∀ (chunks : List Chunk) (offset : Nat),
        m.exec env chunks offset (.ofOpcode .notZero) =
          .ok { m with data := Number.ofBool (n != 0) :: rest, opCount := m.opCount + 1 } ∧
        m.exec env chunks offset (.ofOpcode .ifOp) =
          .ok { m with
            data := rest, branches := (n != 0) :: m.branches, opCount := m.opCount + 1 } ∧
        m.exec env chunks offset (.ofOpcode .notIf) =
          .ok { m with
            data := rest, branches := (n == 0) :: m.branches, opCount := m.opCount + 1 } ∧
        m.exec env chunks offset (.ofOpcode .verify) =
          if n ≠ 0 then .ok { m with data := rest, opCount := m.opCount + 1 }
          else .error (.notTrue .verify) := by
  refine ⟨Number.truth_iff_value_ne_zero, fun bs hlen => ?_, ?_⟩
  · exact ⟨Number.value bs, Number.decode_eq_ok_iff.2 ⟨hlen, nofun, rfl⟩,
      Number.truth_iff_value_ne_zero bs⟩
  · intro env m x rest n hdata hn hx hops chunks offset
    let counted : Machine := { m with opCount := m.opCount + 1 }
    have hcounted : counted.data = x :: rest := hdata
    refine ⟨?_, ?_, ?_, ?_⟩
    · rw [exec_ofOpcode_of_le (by decide) rfl hx hops]
      exact perform_notZero hcounted hn chunks offset
    · rw [exec_ofOpcode_of_le (by decide) rfl hx hops, perform,
        openBranch_of_decode hcounted hn hx true, beq_true]
    · rw [exec_ofOpcode_of_le (by decide) rfl hx hops, perform,
        openBranch_of_decode hcounted hn hx false, beq_false, bne, Bool.not_not]
    · rw [exec_ofOpcode_of_le (by decide) rfl hx hops, perform,
        verifyTop_of_decode hcounted hn .verify]

/-- A sign alone is zero behind any number of zeros; with a zero behind it, it is a digit. -/
theorem exec_judges_number_signByte :
    let env : Env := ⟨.none, {}, none, 0⟩
    let negativeZero : Machine := ⟨[[0, 0, 0, 0x80]], [], [], 0, 0⟩
    let digit : Machine := ⟨[[0, 0x80, 0]], [], [], 0, 0⟩
    Number.truth [0, 0, 0, 0, 0, 0, 0, 0x80] = false ∧
      negativeZero.exec env [] 0 (.ofOpcode .notZero) = .ok ⟨[[]], [], [], 1, 0⟩ ∧
      negativeZero.exec env [] 0 (.ofOpcode .ifOp) = .ok ⟨[], [], [false], 1, 0⟩ ∧
      negativeZero.exec env [] 0 (.ofOpcode .verify) = .error (.notTrue .verify) ∧
      digit.exec env [] 0 (.ofOpcode .notZero) = .ok ⟨[[1]], [], [], 1, 0⟩ ∧
      digit.exec env [] 0 (.ofOpcode .ifOp) = .ok ⟨[], [], [true], 1, 0⟩ ∧
      digit.exec env [] 0 (.ofOpcode .verify) = .ok ⟨[], [], [], 1, 0⟩ := by
  intro env negativeZero digit
  obtain ⟨-, hwidest, hexec⟩ := exec_judges_number
  obtain ⟨n, hn, htruth⟩ := hwidest [0, 0, 0, 0, 0, 0, 0, 0x80] (by decide)
  obtain ⟨hzero, hif, -, hverify⟩ :=
    hexec env negativeZero [0, 0, 0, 0x80] [] 0 rfl (by decide) rfl (by decide) [] 0
  obtain ⟨hone, hif', -, hverify'⟩ :=
    hexec env digit [0, 0x80, 0] [] 0x8000 rfl (by decide) rfl (by decide) [] 0
  refine ⟨?_, hzero, hif, hverify, hone, hif', hverify'⟩
  have hspelled : Number.decode ⟨8, false⟩ [0, 0, 0, 0, 0, 0, 0, 0x80] = .ok 0 := by decide
  rw [hspelled, Except.ok.injEq] at hn
  rw [← Bool.not_eq_true, htruth, ← hn]
  decide

end Machine

end SpendScript
