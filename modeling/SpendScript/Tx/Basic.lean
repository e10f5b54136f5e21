import SpendScript.Hash.Composed
import SpendScript.Hash.Display
import SpendScript.Script.Basic
import SpendScript.Wire.Record
import SpendScript.Wire.Writer

/-!
# SpendScript.Tx.Basic

Transactions and their wire form. Scripts are kept as byte strings, because a transaction may carry
bytes that are no script.
-/

namespace SpendScript

/-- A reference to an output of an earlier transaction. -/
structure Outpoint where
  tx : Identifier
  index : UInt32
deriving DecidableEq

structure TxInput where
  outpoint : Outpoint
  /-- The bytes of the unlocking script. -/
  script : Bytes
  sequence : UInt32
deriving DecidableEq

structure TxOutput where
  value : UInt64
  /-- The bytes of the locking script. -/
  script : Bytes
deriving DecidableEq

structure Transaction where
  version : UInt32
  inputs : List TxInput
  outputs : List TxOutput
  lockTime : UInt32
deriving DecidableEq

namespace Outpoint

/-- The outpoint of an input that spends no output. -/
def null : Outpoint := ⟨Digest.zero 32, 0xffffffff⟩

def encode (o : Outpoint) : Bytes := o.tx.bytes ++ Wire.u32 o.index

def read (r : Wire.Reader) : Wire.ReadResult Outpoint :=
  match r.digest32 with
  | .error e => .error e
  | .ok (tx, r1) =>
    match r1.u32 with
    | .error e => .error e
    | .ok (index, r2) => .ok (⟨tx, index⟩, r2)

end Outpoint

namespace TxInput

def encode (i : TxInput) : Bytes :=
  i.outpoint.encode ++ Wire.prefixed i.script ++ Wire.u32 i.sequence

def read (r : Wire.Reader) : Wire.ReadResult TxInput :=
  match Outpoint.read r with
  | .error e => .error e
  | .ok (outpoint, r1) =>
    match r1.prefixed with
    | .error e => .error e
    | .ok (script, r2) =>
      match r2.u32 with
      | .error e => .error e
      | .ok (sequence, r3) => .ok (⟨outpoint, script, sequence⟩, r3)

def unlocking (i : TxInput) : Except ScriptError Script := Script.ofBytes i.script

end TxInput

namespace TxOutput

def encode (o : TxOutput) : Bytes := Wire.u64 o.value ++ Wire.prefixed o.script

def read (r : Wire.Reader) : Wire.ReadResult TxOutput :=
  match r.u64 with
  | .error e => .error e
  | .ok (value, r1) =>
    match r1.prefixed with
    | .error e => .error e
    | .ok (script, r2) => .ok (⟨value, script⟩, r2)

def locking (o : TxOutput) : Except ScriptError Script := Script.ofBytes o.script

end TxOutput

namespace Transaction

def empty : Transaction := ⟨1, [], [], 0⟩

def toBytes (tx : Transaction) : Bytes :=
  Wire.u32 tx.version ++ Wire.compactSize tx.inputs.length ++ tx.inputs.flatMap TxInput.encode ++
    Wire.compactSize tx.outputs.length ++ tx.outputs.flatMap TxOutput.encode ++
    Wire.u32 tx.lockTime

/-- Reads a list behind its length. -/
def readCounted {α : Type} (read : Wire.Reader → Wire.ReadResult α) (r : Wire.Reader) :
    Wire.ReadResult (List α) :=
  match r.compactSize with
  | .error e => .error e
  | .ok (count, r1) => Wire.Reader.many read count.toNat r1

def read (r : Wire.Reader) : Wire.ReadResult Transaction :=
  match r.u32 with
  | .error e => .error e
  | .ok (version, r1) =>
    match readCounted TxInput.read r1 with
    | .error e => .error e
    | .ok (inputs, r2) =>
      match readCounted TxOutput.read r2 with
      | .error e => .error e
      | .ok (outputs, r3) =>
        match r3.u32 with
        | .error e => .error e
        | .ok (lockTime, r4) => .ok (⟨version, inputs, outputs, lockTime⟩, r4)

def ofBytes (bs : Bytes) : Except Wire.RecordError Transaction :=
  Wire.readRecord .transaction read bs

def ofHex (s : String) : Except Wire.RecordError Transaction :=
  Wire.readRecordHex .transaction read s

def size (tx : Transaction) : Nat := tx.toBytes.length

/-- The identifier: the double hash of the wire form. -/
def id (tx : Transaction) : Identifier := Hash.sha256d tx.toBytes

/-- A transaction with one input, which spends no output. -/
def isCoinbase (tx : Transaction) : Bool :=
  match tx.inputs with
  | [input] => input.outpoint == .null
  | _ => false

/-- The transaction with an unlocking script put into an input, if there is that input. -/
def setUnlocking (tx : Transaction) (i : Nat) (script : Script) : Transaction :=
  { tx with inputs := tx.inputs.modify i ({ · with script := script.toBytes }) }

end Transaction

end SpendScript
