import SpendScript.Proofs.Eval.Number
import SpendScript.Proofs.Eval.Success

/-!
# SpendScript.Proofs.Eval.Arithmetic

The opcodes that compute. The sign of an operand takes a bit of its last byte, so the exact result
of one operation on operands of some width needs at most one bit more than that width has.

* `Computes`: the exact result of an opcode on the operands that it finds.
* `perform_of_computes`: the result is pushed if it fits 64 bits, and the opcode fails otherwise.
* `Computes.natAbs_le`: how large a result is, by the width of the operands.
* `arithmetic_exact`: an opcode as a chunk of a script.
-/

namespace SpendScript

/-- The exact result of an opcode on the operands on top of a stack, and the stack below them. -/
inductive Computes (rule : NumberRule) : Opcode → Stack → Int → Stack → Prop where
  | add1 {x : Bytes} {rest : Stack} {a : Int} (ha : Number.decode rule x = .ok a) :
    Computes rule .add1 (x :: rest) (a + 1) rest
  | sub1 {x : Bytes} {rest : Stack} {a : Int} (ha : Number.decode rule x = .ok a) :
    Computes rule .sub1 (x :: rest) (a - 1) rest
  | negate {x : Bytes} {rest : Stack} {a : Int} (ha : Number.decode rule x = .ok a) :
    Computes rule .negate (x :: rest) (-a) rest
  | abs {x : Bytes} {rest : Stack} {a : Int} (ha : Number.decode rule x = .ok a) :
    Computes rule .abs (x :: rest) |a| rest
  | add {x y : Bytes} {rest : Stack} {a b : Int} (ha : Number.decode rule x = .ok a)
    (hb : Number.decode rule y = .ok b) : Computes rule .add (y :: x :: rest) (a + b) rest
  | sub {x y : Bytes} {rest : Stack} {a b : Int} (ha : Number.decode rule x = .ok a)
    (hb : Number.decode rule y = .ok b) : Computes rule .sub (y :: x :: rest) (a - b) rest

namespace Number

theorem fits_iff {n : Int} : fits n = true ↔ -2 ^ 63 ≤ n ∧ n < 2 ^ 63 := by
  simp [fits]

/-- An operand of `w` bytes: its sign takes a bit. -/
theorem two_mul_natAbs_lt_of_decode {rule : NumberRule} {x : Bytes} {a : Int}
    (h : decode rule x = .ok a) : 2 * a.natAbs < 2 ^ (8 * min rule.maxLength maxWidth) := by
  obtain ⟨hlength, -, rfl⟩ := decode_eq_ok_iff.1 h
  obtain hzero | hpos := Nat.eq_zero_or_pos (min rule.maxLength maxWidth)
  · rw [hzero] at hlength ⊢
    rw [List.length_eq_zero_iff.1 (Nat.le_zero.1 hlength)]
    decide
  · have hlt := natAbs_value_lt hpos hlength
    calc 2 * (value x).natAbs < 2 * 2 ^ (8 * min rule.maxLength maxWidth - 1) := by omega
      _ = 2 ^ (8 * min rule.maxLength maxWidth) := by
        rw [← Nat.pow_succ', Nat.succ_eq_add_one, Nat.sub_add_cancel (by omega)]

/-- No item that spells a number is shorter than the one that is written. -/
theorem length_encode_le_of_value {x : Bytes} {n : Int} (h : value x = n) :
    (encode n).length ≤ x.length := by
  obtain rfl | hne := eq_or_ne x []
  · rw [← h]
    simp [value, encode, Bytes.magnitudeLE]
  · have hpos := List.length_pos_of_ne_nil hne
    rw [length_encode_le_iff hpos, ← h]
    exact natAbs_value_lt hpos (Nat.le_refl _)

end Number

namespace Computes

variable {rule : NumberRule} {op : Opcode} {s rest : Stack} {n : Int}

theorem counted (h : Computes rule op s n rest) : Opcode.sixteen.byte < op.byte := by
  cases h
  all_goals decide

theorem enabled (h : Computes rule op s n rest) : op.isDisabled = false := by
  cases h
  all_goals rfl

/-- A result needs at most one bit more than the operands. -/
theorem natAbs_le (h : Computes rule op s n rest) :
    n.natAbs ≤ 2 ^ (8 * min rule.maxLength Number.maxWidth) := by
  cases h with
  | add1 ha | sub1 ha | negate ha =>
    have hsize := Number.two_mul_natAbs_lt_of_decode ha
    omega
  | abs ha =>
    have hsize := Number.two_mul_natAbs_lt_of_decode ha
    rw [Int.natAbs_abs]
    omega
  | add ha hb | sub ha hb =>
    have hsize := Number.two_mul_natAbs_lt_of_decode ha
    have hsize' := Number.two_mul_natAbs_lt_of_decode hb
    omega

end Computes

namespace Stack

variable {rule : NumberRule} {s : Stack}

theorem unary_of_decode {x : Bytes} {a : Int} (f : Int → Int) (ha : Number.decode rule x = .ok a) :
    unary rule f (x :: s) = s.pushFitting (f a) := by
  simp only [unary, popNumber, pop, ha]

theorem binary_of_decode {x y : Bytes} {a b : Int} (f : Int → Int → Int)
    (ha : Number.decode rule x = .ok a) (hb : Number.decode rule y = .ok b) :
    binary rule f (y :: x :: s) = s.pushFitting (f a b) := by
  simp only [binary, popTwo, popNumber, pop, ha, hb]

end Stack

namespace Machine

variable {env : Env} {m : Machine} {op : Opcode} {n : Int} {rest : Stack}

theorem onData_of_pushFitting {f : Stack → Except Fault Stack}
    (h : f m.data = rest.pushFitting n) :
    m.onData f = if -2 ^ 63 ≤ n ∧ n < 2 ^ 63 then .ok { m with data := Number.encode n :: rest }
      else .error .overflow := by
  by_cases hfits : -2 ^ 63 ≤ n ∧ n < 2 ^ 63
  · simp only [onData, h, Stack.pushFitting, Number.fits_iff.2 hfits, hfits, if_true]
    rfl
  · simp only [onData, h, Stack.pushFitting, Number.fits_iff, hfits, if_false]

theorem perform_of_computes (h : Computes env.numberRule op m.data n rest) (chunks : List Chunk)
    (offset : Nat) :
    m.perform env chunks offset op =
      if -2 ^ 63 ≤ n ∧ n < 2 ^ 63 then .ok { m with data := Number.encode n :: rest }
      else .error .overflow := by
  generalize hdata : m.data = data at h
  cases h with
  | add1 ha =>
    apply onData_of_pushFitting
    rw [hdata, Stack.unary_of_decode _ ha]
  | sub1 ha =>
    apply onData_of_pushFitting
    rw [hdata, Stack.unary_of_decode _ ha]
  | negate ha =>
    apply onData_of_pushFitting
    rw [hdata, Stack.unary_of_decode _ ha]
  | abs ha =>
    apply onData_of_pushFitting
    rw [hdata, Stack.unary_of_decode _ ha, Int.natCast_natAbs]
  | add ha hb =>
    apply onData_of_pushFitting
    rw [hdata, Stack.binary_of_decode _ ha hb]
  | sub ha hb =>
    apply onData_of_pushFitting
    rw [hdata, Stack.binary_of_decode _ ha hb]

/-- **Arithmetic does not wrap.** An opcode that computes pushes the shortest item of the exact
result, or fails because the number is too big, and it fails exactly for a result that no signed
word of 64 bits holds. Operands of at most seven bytes have no such result, and the item that is
pushed is at most one byte longer than they may be. -/
theorem arithmetic_exact (h : Computes env.numberRule op m.data n rest) (hx : m.executing = true)
    (hops : m.opCount + 1 ≤ env.limits.maxOps) (chunks : List Chunk) (offset : Nat) :
    (-2 ^ 63 ≤ n ∧ n < 2 ^ 63 → m.exec env chunks offset (.ofOpcode op) =
      .ok { m with data := Number.encode n :: rest, opCount := m.opCount + 1 }) ∧
    (¬(-2 ^ 63 ≤ n ∧ n < 2 ^ 63) →
      ∃ f, m.exec env chunks offset (.ofOpcode op) = .error f ∧ f.code = .numberTooBig) ∧
    (env.limits.maxNumberLength ≤ 7 →
      m.exec env chunks offset (.ofOpcode op) =
          .ok { m with data := Number.encode n :: rest, opCount := m.opCount + 1 } ∧
        (Number.encode n).length ≤ env.limits.maxNumberLength + 1) ∧
    Number.value (Number.encode n) = n ∧
      ∀ x, Number.value x = n → (Number.encode n).length ≤ x.length := by
  have hexec : m.exec env chunks offset (.ofOpcode op) =
      if -2 ^ 63 ≤ n ∧ n < 2 ^ 63 then
        .ok { m with data := Number.encode n :: rest, opCount := m.opCount + 1 }
      else .error .overflow := by
    rw [exec_ofOpcode h.counted h.enabled hx, if_neg (Nat.not_lt.2 hops)]
    exact perform_of_computes (m := { m with opCount := m.opCount + 1 }) h chunks offset
  have hsize : n.natAbs ≤ 2 ^ (8 * min env.limits.maxNumberLength Number.maxWidth) := h.natAbs_le
  refine ⟨fun hfits => ?_, fun hlarge => ?_, fun hwidth => ?_, Number.value_encode n,
    fun x => Number.length_encode_le_of_value⟩
  · rw [hexec, if_pos hfits]
  · exact ⟨.overflow, by rw [hexec, if_neg hlarge], rfl⟩
  · have hmin : min env.limits.maxNumberLength Number.maxWidth = env.limits.maxNumberLength :=
      Nat.min_eq_left (Nat.le_trans hwidth (by decide))
    rw [hmin] at hsize
    have hword : 2 ^ (8 * env.limits.maxNumberLength) ≤ 2 ^ 56 :=
      Nat.pow_le_pow_right (by decide) (by omega)
    have hroom : 2 ^ (8 * env.limits.maxNumberLength) <
        2 ^ (8 * (env.limits.maxNumberLength + 1) - 1) :=
      Nat.pow_lt_pow_right (by decide) (by omega)
    refine ⟨by rw [hexec, if_pos (by omega)], ?_⟩
    exact (Number.length_encode_le_iff (Nat.succ_pos _) n).2 (Nat.lt_of_le_of_lt hsize hroom)

/-- With operands of eight bytes, there is one more number of 64 bits below the lowest that eight
bytes spell, whose item has nine, and none above the highest. -/
theorem arithmetic_exact_widest :
    let env : Env := ⟨.none, { maxNumberLength := 8 }, none, 0⟩
    let lowest : Machine :=
      ⟨[[0xff, 0xff, 0xff, 0xff, 0xff, 0xff, 0xff, 0xff]], [], [], 0, 0⟩
    let highest : Machine :=
      ⟨[[0xff, 0xff, 0xff, 0xff, 0xff, 0xff, 0xff, 0x7f]], [], [], 0, 0⟩
    lowest.exec env [] 0 (.ofOpcode .sub1) =
        .ok ⟨[[0, 0, 0, 0, 0, 0, 0, 0x80, 0x80]], [], [], 1, 0⟩ ∧
      ∃ f, highest.exec env [] 0 (.ofOpcode .add1) = .error f ∧ f.code = .numberTooBig := by
  intro env lowest highest
  have hlow : Computes env.numberRule .sub1 lowest.data (-0x7fffffffffffffff - 1) [] :=
    .sub1 (by decide)
  have hhigh : Computes env.numberRule .add1 highest.data (0x7fffffffffffffff + 1) [] :=
    .add1 (by decide)
  have hitem : Number.encode (-0x7fffffffffffffff - 1) = [0, 0, 0, 0, 0, 0, 0, 0x80, 0x80] :=
    Number.encode_value_of_isMinimal
      (by decide : Number.isMinimal [0, 0, 0, 0, 0, 0, 0, 0x80, 0x80] = true)
  constructor
  · rw [(arithmetic_exact hlow rfl (by decide) [] 0).1 (by decide), hitem]
  · exact (arithmetic_exact hhigh rfl (by decide) [] 0).2.1 (by decide)

end Machine

end SpendScript
