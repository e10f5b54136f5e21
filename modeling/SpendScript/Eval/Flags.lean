/-!
# SpendScript.Eval.Flags

The rules that an evaluation can be asked to enforce, as a set of bits. Bits without a name are kept
and ask for nothing.
-/

namespace SpendScript

structure Flags where
  bits : UInt32
deriving DecidableEq

namespace Flags

def none : Flags := ⟨0⟩

/-- Run the script that a script hash stands for. -/
def payToScriptHash : Flags := ⟨0x1⟩

/-- Hash types and public keys must have a known form. -/
def strictEncoding : Flags := ⟨0x2⟩

/-- Signatures must be canonical DER. -/
def derSignatures : Flags := ⟨0x4⟩

/-- The S of a signature must be in the lower half. -/
def lowS : Flags := ⟨0x8⟩

/-- The extra item of a check of several signatures must be empty. -/
def nullDummy : Flags := ⟨0x10⟩

/-- The unlocking script must only push. -/
def sigPushOnly : Flags := ⟨0x20⟩

/-- Pushes and numbers must be in their shortest form. -/
def minimalData : Flags := ⟨0x40⟩

/-- Opcodes without a meaning so far must not be executed. -/
def discourageUpgradableNops : Flags := ⟨0x80⟩

def checkLockTimeVerify : Flags := ⟨0x100⟩

def checkSequenceVerify : Flags := ⟨0x200⟩

/-- A signature that fails must be empty. -/
def nullFail : Flags := ⟨0x400⟩

/-- Exactly one item must be left; goes only with `payToScriptHash`. -/
def cleanStack : Flags := ⟨0x800⟩

def union (a b : Flags) : Flags := ⟨a.bits ||| b.bits⟩

def inter (a b : Flags) : Flags := ⟨a.bits &&& b.bits⟩

/-- Every bit of `b` is in `a`. -/
def has (a b : Flags) : Bool := a.bits &&& b.bits == b.bits

/-- All bits of one of the sets are in `a`. -/
def hasAny (a : Flags) (sets : List Flags) : Bool := sets.any a.has

/-- The rules that a node relays by: all but `sigPushOnly`. -/
def standard : Flags :=
  [payToScriptHash, strictEncoding, derSignatures, lowS, nullDummy, minimalData,
    discourageUpgradableNops, checkLockTimeVerify, checkSequenceVerify, nullFail,
    cleanStack].foldl union none

end Flags

/-- The resources that an evaluation may use. -/
structure Limits where
  /-- Opcodes above `OP_16` in one script, plus the keys of checks of several signatures. -/
  maxOps : Nat := 201
  /-- Items on both stacks together. -/
  maxStackSize : Nat := 1000
  /-- Bytes of a script. -/
  maxScriptSize : Nat := 10000
  /-- Bytes of a push. -/
  maxElementSize : Nat := 520
  /-- Bytes of a number that is taken from the stack. -/
  maxNumberLength : Nat := 4
  /-- Keys of one check of several signatures. -/
  maxKeys : Nat := 20
deriving DecidableEq

end SpendScript
