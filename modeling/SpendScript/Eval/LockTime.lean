import SpendScript.Eval.Machine

/-!
# SpendScript.Eval.LockTime

The two opcodes by which a script asks that its spend is not too early. Both look at the top number
and leave the stack as it is.
-/

namespace SpendScript

namespace LockTime

/-- Lock times below this are block heights, the others are times. -/
def threshold : Nat := 500000000

/-- Bit 31 of a sequence number: it carries no lock time. -/
def disabledBit : Nat := 0x80000000

/-- Bit 22 of a sequence number: the lock time is in units of 512 seconds. -/
def secondsBit : Nat := 0x400000

/-- The sequence number of an input that is final. -/
def finalSequence : UInt32 := 0xffffffff

/-- The bits of a sequence number that are compared: the low 16 bits and the unit. -/
def comparedPart (n : Nat) : Nat := n &&& (secondsBit ||| 0xffff)

/-- The longest operand of either opcode, in bytes. -/
def operandLength : Nat := 5

/-- The operand must be of the same kind as the transaction's value, and not above it. -/
def check (tx border operand : Nat) : Except Fault Unit :=
  if decide (tx < border) ≠ decide (operand < border) then .error (.lockTimeKinds tx operand)
  else if tx < operand then .error (.lockTimeLater operand tx)
  else .ok ()

end LockTime

namespace Machine

/-- Opcodes that mean nothing so far. -/
def upgradableNop (m : Machine) (env : Env) (op : Opcode) : Except Fault Machine :=
  if env.flags.has .discourageUpgradableNops then .error (.upgradableNop op) else .ok m

def lockOperand (m : Machine) (env : Env) : Except Fault Int :=
  m.data.peekNumber ⟨LockTime.operandLength, env.flags.has .minimalData⟩ 0

/-- Asks that the lock time of the transaction has come to the operand, and that the lock time
counts for the input. -/
def checkLockTime (m : Machine) (env : Env) : Except Fault Machine :=
  if !env.flags.has .checkLockTimeVerify then m.upgradableNop env .checkLockTimeVerify
  else
    match env.context with
    | none => .error (.noContext .lockTime)
    | some ctx =>
      match m.lockOperand env with
      | .error e => .error e
      | .ok n =>
        if n < 0 then .error (.negativeLockTime n)
        else
          match LockTime.check ctx.lockTime.toNat LockTime.threshold n.toNat with
          | .error e => .error e
          | .ok _ =>
            match ctx.sequence env.input with
            | .error e => .error e
            | .ok q => if q = LockTime.finalSequence then .error .inputFinal else .ok m

/-- Asks that the sequence number of the input has come to the operand. An operand with the
disabling bit asks nothing. -/
def checkSequence (m : Machine) (env : Env) : Except Fault Machine :=
  if !env.flags.has .checkSequenceVerify then m.upgradableNop env .checkSequenceVerify
  else
    match env.context with
    | none => .error (.noContext .sequence)
    | some ctx =>
      match m.lockOperand env with
      | .error e => .error e
      | .ok n =>
        if n < 0 then .error (.negativeSequence n)
        else if n.toNat &&& LockTime.disabledBit ≠ 0 then .ok m
        else if ctx.version < 2 then .error (.oldVersion ctx.version)
        else
          match ctx.sequence env.input with
          | .error e => .error e
          | .ok q =>
            if q.toNat &&& LockTime.disabledBit ≠ 0 then .error (.sequenceDisabled q)
            else
              match LockTime.check (LockTime.comparedPart q.toNat) LockTime.secondsBit
                  (LockTime.comparedPart n.toNat) with
              | .error e => .error e
              | .ok _ => .ok m

end Machine

end SpendScript
