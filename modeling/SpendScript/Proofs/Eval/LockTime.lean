import SpendScript.Proofs.Eval.Number
import SpendScript.Proofs.Eval.Success

/-!
# SpendScript.Proofs.Eval.LockTime

What a script can ask about the time of its spend. The two opcodes hold the top number against the
transaction, one against its lock time and the other against the sequence number of the input, and
the comparison is one function with a border between the two kinds of value. Here the conditions are
stated as BIP 65 and BIP 112 state them, bit by bit, and each opcode is shown to succeed on exactly
these.

* `LockTime.Operand`, `LockTime.Reached`, `LockTime.Matured`: the conditions.
* `LockTime.check_eq_ok_iff`, `LockTime.check_comparedPart_eq_ok_iff`: the comparison.
* `Machine.checkLockTime_eq_ok_iff`, `Machine.checkSequence_eq_ok_iff`: one opcode.
* `Machine.lockTimes_decide`: both, by themselves and as a chunk of a script.
-/

namespace SpendScript

namespace LockTime

/-- `n` is the number on top of a stack, spelled with at most five bytes, and with no more of them
than it needs where the flags ask for that. -/
def Operand (env : Env) (data : Stack) (n : Int) : Prop :=
  ∃ top rest, data = top :: rest ∧ top.length ≤ 5 ∧
    (env.flags.has .minimalData = true → Number.encode n = top) ∧ Number.value top = n

/-- The lock time of a transaction has come to `n`, both of them block heights or both of them
times, and counts for an input with this sequence number. -/
structure Reached (lockTime sequence : UInt32) (n : Int) : Prop where
  nonneg : 0 ≤ n
  kind : n < 500000000 ↔ lockTime.toNat < 500000000
  le : n ≤ lockTime.toNat
  live : sequence ≠ 0xffffffff

/-- A sequence number has come to `n`: their units, in bit 22, are the same, and so many of them
have passed, in the low 16 bits. Bit 31 takes the meaning from either number. -/
structure Passed (version sequence : UInt32) (n : Nat) : Prop where
  version : 2 ≤ version
  enabled : sequence.toNat.testBit 31 = false
  unit : n.testBit 22 = sequence.toNat.testBit 22
  le : n % 2 ^ 16 ≤ sequence.toNat % 2 ^ 16

/-- Nothing is asked by `n`, or it has passed. -/
def Matured (version sequence : UInt32) (n : Int) : Prop :=
  0 ≤ n ∧ (n.toNat.testBit 31 = true ∨ Passed version sequence n.toNat)

/-! ## The comparison -/

theorem check_eq_ok_iff {tx border operand : Nat} :
    check tx border operand = .ok () ↔ (operand < border ↔ tx < border) ∧ operand ≤ tx := by
  unfold check
  by_cases htx : tx < border <;> by_cases hop : operand < border <;> simp [htx, hop]

theorem comparedPart_eq (n : Nat) :
    comparedPart n = 2 ^ 22 * (n.testBit 22).toNat + n % 2 ^ 16 := by
  have hlow : n % 2 ^ 16 < 2 ^ 22 := by omega
  have hmask : secondsBit ||| 0xffff = 2 ^ 22 ||| (2 ^ 16 - 1) := by decide
  rw [comparedPart, hmask, Nat.and_or_distrib_left, Nat.and_two_pow, Nat.and_two_pow_sub_one_eq_mod,
    Nat.mul_comm, Nat.two_pow_add_eq_or_of_lt hlow]

/-- With the border at the bit for the unit, values of the same kind are of the same unit. -/
theorem check_comparedPart_eq_ok_iff {tx operand : Nat} :
    check (comparedPart tx) secondsBit (comparedPart operand) = .ok () ↔
      operand.testBit 22 = tx.testBit 22 ∧ operand % 2 ^ 16 ≤ tx % 2 ^ 16 := by
  have hborder : secondsBit = 2 ^ 22 := rfl
  rw [check_eq_ok_iff, comparedPart_eq, comparedPart_eq, hborder]
  cases operand.testBit 22 <;> cases tx.testBit 22 <;> simp <;> omega

/-! ## The conditions as they are checked -/

section Conditions

variable {lockTime version q : UInt32} {n : Int}

theorem reached_iff :
    Reached lockTime q n ↔
      0 ≤ n ∧ check lockTime.toNat threshold n.toNat = .ok () ∧ q ≠ finalSequence := by
  have hborder : threshold = 500000000 := rfl
  rw [check_eq_ok_iff, hborder]
  constructor
  · rintro ⟨hpos, hkind, hle, hlive⟩
    exact ⟨hpos, ⟨by omega, by omega⟩, hlive⟩
  · rintro ⟨hpos, ⟨hkind, hle⟩, hlive⟩
    exact ⟨hpos, by omega, by omega, hlive⟩

theorem matured_iff :
    Matured version q n ↔
      0 ≤ n ∧ (n.toNat &&& disabledBit ≠ 0 ∨ 2 ≤ version ∧ q.toNat &&& disabledBit = 0 ∧
        check (comparedPart q.toNat) secondsBit (comparedPart n.toNat) = .ok ()) := by
  have hbit : disabledBit = 2 ^ 31 := rfl
  rw [check_comparedPart_eq_ok_iff, hbit, Ne, and_two_pow_eq_zero_iff, and_two_pow_eq_zero_iff,
    Bool.not_eq_false]
  constructor
  · rintro ⟨hpos, hoff | ⟨hversion, hon, hunit, hle⟩⟩
    · exact ⟨hpos, .inl hoff⟩
    · exact ⟨hpos, .inr ⟨hversion, hon, hunit, hle⟩⟩
  · rintro ⟨hpos, hoff | ⟨hversion, hon, hunit, hle⟩⟩
    · exact ⟨hpos, .inl hoff⟩
    · exact ⟨hpos, .inr ⟨hversion, hon, hunit, hle⟩⟩

end Conditions

end LockTime

namespace Machine

open LockTime

variable {env : Env} {ctx : Context} {q : UInt32} {m m' : Machine}

/-! ## One opcode -/

theorem lockOperand_eq_ok_iff {n : Int} : m.lockOperand env = .ok n ↔ Operand env m.data n := by
  unfold lockOperand Stack.peekNumber Stack.peek Operand
  cases hdata : m.data with
  | nil => simp
  | cons top rest =>
    have hminimal : Number.value top = n →
        (Number.isMinimal top = true ↔ Number.encode n = top) := by
      rintro rfl
      exact Number.encode_value_eq_iff.symm
    simp only [List.getElem?_cons_zero, Number.decode_eq_ok_iff, List.cons.injEq]
    constructor
    · rintro ⟨hlen, hmin, hn⟩
      exact ⟨top, rest, ⟨rfl, rfl⟩, hlen, fun hflag => (hminimal hn).1 (hmin hflag), hn⟩
    · rintro ⟨top, rest, ⟨rfl, rfl⟩, hlen, hmin, hn⟩
      exact ⟨hlen, fun hflag => (hminimal hn).2 (hmin hflag), hn⟩

theorem checkLockTime_eq_ok_iff (hctx : env.context = some ctx)
    (hq : ctx.sequence env.input = .ok q) (hflag : env.flags.has .checkLockTimeVerify = true) :
    m.checkLockTime env = .ok m' ↔
      m' = m ∧ ∃ n, Operand env m.data n ∧ Reached ctx.lockTime q n := by
  simp only [← lockOperand_eq_ok_iff, reached_iff, checkLockTime, hflag, hctx, hq]
  cases m.lockOperand env with
  | error f => simp
  | ok n =>
    by_cases hneg : n < 0
    · simp [hneg, Int.not_le.2 hneg]
    · cases hcheck : check ctx.lockTime.toNat threshold n.toNat with
      | error f => simp [hneg, hcheck]
      | ok u =>
        by_cases hfinal : q = finalSequence
        · simp [hneg, hcheck, hfinal]
        · simp [hneg, Int.not_lt.1 hneg, hcheck, hfinal, eq_comm]

theorem checkSequence_eq_ok_iff (hctx : env.context = some ctx)
    (hq : ctx.sequence env.input = .ok q) (hflag : env.flags.has .checkSequenceVerify = true) :
    m.checkSequence env = .ok m' ↔
      m' = m ∧ ∃ n, Operand env m.data n ∧ Matured ctx.version q n := by
  simp only [← lockOperand_eq_ok_iff, matured_iff, checkSequence, hflag, hctx, hq]
  cases m.lockOperand env with
  | error f => simp
  | ok n =>
    by_cases hneg : n < 0
    · simp [hneg, Int.not_le.2 hneg]
    · by_cases hoff : n.toNat &&& disabledBit = 0
      · by_cases hold : ctx.version < 2
        · simp [hneg, hoff, hold]
        · by_cases hdisabled : q.toNat &&& disabledBit = 0
          · cases hcheck : check (comparedPart q.toNat) secondsBit (comparedPart n.toNat) with
            | error f => simp [hneg, hoff, hold, hdisabled, hcheck]
            | ok u =>
              simp [hneg, Int.not_lt.1 hneg, hoff, hold, UInt32.not_lt.1 hold, hdisabled, hcheck,
                eq_comm]
          · simp [hneg, hoff, hold, hdisabled]
      · simp [hneg, Int.not_lt.1 hneg, hoff, eq_comm]

/-! ## Both opcodes -/

/-- **The opcodes for lock times decide exactly the conditions of BIP 65 and BIP 112.** With its
flag set, each of them succeeds if and only if the top item is a number that the transaction has
come to, and then the machine is the one from before. As a chunk in a taken branch it takes its place
among the opcodes that are counted, and changes nothing else. -/
theorem lockTimes_decide (hctx : env.context = some ctx) (hq : ctx.sequence env.input = .ok q)
    (chunks : List Chunk) (offset : Nat) (m m' : Machine) :
    (env.flags.has .checkLockTimeVerify = true →
      (m.perform env chunks offset .checkLockTimeVerify = .ok m' ↔
        m' = m ∧ ∃ n, Operand env m.data n ∧ Reached ctx.lockTime q n) ∧
      (m.executing = true →
        (m.exec env chunks offset (.ofOpcode .checkLockTimeVerify) = .ok m' ↔
          m.opCount + 1 ≤ env.limits.maxOps ∧ m' = { m with opCount := m.opCount + 1 } ∧
            ∃ n, Operand env m.data n ∧ Reached ctx.lockTime q n))) ∧
    (env.flags.has .checkSequenceVerify = true →
      (m.perform env chunks offset .checkSequenceVerify = .ok m' ↔
        m' = m ∧ ∃ n, Operand env m.data n ∧ Matured ctx.version q n) ∧
      (m.executing = true →
        (m.exec env chunks offset (.ofOpcode .checkSequenceVerify) = .ok m' ↔
          m.opCount + 1 ≤ env.limits.maxOps ∧ m' = { m with opCount := m.opCount + 1 } ∧
            ∃ n, Operand env m.data n ∧ Matured ctx.version q n))) := by
  constructor
  · intro hflag
    refine ⟨checkLockTime_eq_ok_iff hctx hq hflag, fun hx => ?_⟩
    refine (exec_ofOpcode_eq_ok_iff (by decide) rfl hx).trans (and_congr_right fun _ => ?_)
    exact checkLockTime_eq_ok_iff hctx hq hflag
  · intro hflag
    refine ⟨checkSequence_eq_ok_iff hctx hq hflag, fun hx => ?_⟩
    refine (exec_ofOpcode_eq_ok_iff (by decide) rfl hx).trans (and_congr_right fun _ => ?_)
    exact checkSequence_eq_ok_iff hctx hq hflag

/-- A block height that the lock time has come to, and a number of units of 512 seconds that the
sequence number has come to. -/
theorem lockTimes_decide_both :
    let ctx : Context := ⟨fun _ => .ok false, 500, 2, fun _ => .ok 0x400010⟩
    let env : Env := ⟨Flags.checkLockTimeVerify.union .checkSequenceVerify, {}, some ctx, 0⟩
    let m : Machine := ⟨[[0xf4, 0x01]], [], [], 0, 0⟩
    let m' : Machine := ⟨[[0x0f, 0x00, 0x40]], [], [], 0, 0⟩
    m.perform env [] 0 .checkLockTimeVerify = .ok m ∧
      m'.perform env [] 0 .checkSequenceVerify = .ok m' := by
  intro ctx env m m'
  have hheight : Operand env m.data 500 := ⟨_, _, rfl, by decide, by decide, by decide⟩
  have hreached : Reached ctx.lockTime 0x400010 500 :=
    ⟨by decide, by decide, by decide, by decide⟩
  have hunits : Operand env m'.data 0x40000f := ⟨_, _, rfl, by decide, by decide, by decide⟩
  have hmatured : Matured ctx.version 0x400010 0x40000f :=
    ⟨by decide, .inr ⟨by decide, by decide, by decide, by decide⟩⟩
  have hctx : env.context = some ctx := rfl
  have hq : ctx.sequence env.input = .ok 0x400010 := rfl
  constructor
  · exact ((lockTimes_decide hctx hq [] 0 m m).1 (by decide)).1.2 ⟨rfl, 500, hheight, hreached⟩
  · exact ((lockTimes_decide hctx hq [] 0 m' m').2 (by decide)).1.2
      ⟨rfl, 0x40000f, hunits, hmatured⟩

end Machine

end SpendScript
