import SpendScript.Eval.Flags
import SpendScript.Eval.Stack

/-!
# SpendScript.Eval.Machine

What the opcodes of one script act on, and what they are given to act with: the flags, the limits,
and the spending transaction as far as it can be seen from a script.
-/

namespace SpendScript

/-- A question to the context: whether a signature belongs to a key. -/
structure SigQuery where
  /-- The whole item, whose last byte is the hash type. -/
  signature : Bytes
  key : Bytes
  /-- The part of the script that the signature covers. -/
  code : Script
  input : Nat
  hashType : UInt8
deriving DecidableEq

/-- What a script can see of the spending transaction. -/
structure Context where
  verify : SigQuery → Except Fault Bool
  lockTime : UInt32
  version : UInt32
  sequence : Nat → Except Fault UInt32

/-- What stays the same throughout an evaluation. -/
structure Env where
  flags : Flags
  limits : Limits
  context : Option Context
  /-- The number of the input that is spent. -/
  input : Nat

/-- How an operand has to look to be taken for a number. -/
def Env.numberRule (env : Env) : NumberRule :=
  ⟨env.limits.maxNumberLength, env.flags.has .minimalData⟩

structure Machine where
  data : Stack
  alt : Stack
  /-- Whether each open branch is taken, the innermost first. -/
  branches : List Bool
  opCount : Nat
  /-- The first chunk that signatures cover. -/
  codeStart : Nat
deriving DecidableEq

namespace Machine

def initial : Machine := ⟨[], [], [], 0, 0⟩

/-- Every open branch is taken. -/
def executing (m : Machine) : Bool := m.branches.all id

/-- The items on both stacks together. -/
def depth (m : Machine) : Nat := m.data.length + m.alt.length

def onData (m : Machine) (f : Stack → Except Fault Stack) : Except Fault Machine :=
  match f m.data with
  | .error e => .error e
  | .ok data => .ok { m with data := data }

def count (m : Machine) (env : Env) (n : Nat) : Except Fault Machine :=
  if env.limits.maxOps < m.opCount + n then .error (.tooManyOps env.limits.maxOps)
  else .ok { m with opCount := m.opCount + n }

end Machine

end SpendScript
