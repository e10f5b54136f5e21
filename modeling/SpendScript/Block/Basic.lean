import SpendScript.Block.Merkle
import SpendScript.Block.Target
import SpendScript.Tx.Basic

/-!
# SpendScript.Block.Basic

Block headers and blocks. A header commits to the identifiers of the transactions of its block by
the root of the hash tree over them, and it is accepted as work if its own identifier, read as a
number, is not above the target that it states.
-/

namespace SpendScript

structure BlockHeader where
  version : UInt32
  previous : Identifier
  merkleRoot : Identifier
  /-- Seconds since 1970. -/
  time : UInt32
  /-- The target in its compact form. -/
  bits : UInt32
  nonce : UInt32
deriving DecidableEq

structure Block where
  header : BlockHeader
  transactions : List Transaction
deriving DecidableEq

namespace BlockHeader

/-- The wire form, which has 80 bytes. -/
def toBytes (h : BlockHeader) : Bytes :=
  Wire.u32 h.version ++ h.previous.bytes ++ h.merkleRoot.bytes ++ Wire.u32 h.time ++
    Wire.u32 h.bits ++ Wire.u32 h.nonce

def read (r : Wire.Reader) : Wire.ReadResult BlockHeader :=
  match r.u32 with
  | .error e => .error e
  | .ok (version, r1) =>
    match r1.digest32 with
    | .error e => .error e
    | .ok (previous, r2) =>
      match r2.digest32 with
      | .error e => .error e
      | .ok (merkleRoot, r3) =>
        match r3.u32 with
        | .error e => .error e
        | .ok (time, r4) =>
          match r4.u32 with
          | .error e => .error e
          | .ok (bits, r5) =>
            match r5.u32 with
            | .error e => .error e
            | .ok (nonce, r6) => .ok (⟨version, previous, merkleRoot, time, bits, nonce⟩, r6)

def ofBytes (bs : Bytes) : Except Wire.RecordError BlockHeader :=
  Wire.readRecord .blockHeader read bs

def ofHex (s : String) : Except Wire.RecordError BlockHeader :=
  Wire.readRecordHex .blockHeader read s

def id (h : BlockHeader) : Identifier := Hash.sha256d h.toBytes

def target (h : BlockHeader) : Except Target.Negative Nat := Target.ofCompact h.bits

/-- Whether the identifier, as a number, is not above the target. Nothing meets the target zero. -/
def meetsTarget (h : BlockHeader) : Bool :=
  match h.target with
  | .error _ => false
  | .ok target => decide (0 < target) && decide (Bytes.toNatLE h.id.bytes ≤ target)

@[simp] theorem length_toBytes (h : BlockHeader) : h.toBytes.length = 80 := by
  simp [toBytes, Wire.u32, h.previous.length_eq, h.merkleRoot.length_eq]

end BlockHeader

/-- The hash of two neighbours in the tree over identifiers. -/
def Identifier.join (a b : Identifier) : Identifier := Hash.sha256d (a.bytes ++ b.bytes)

/-- The root of the tree over identifiers; zero bytes if there are none. -/
def Identifier.merkleRoot (ids : List Identifier) : Identifier :=
  (Merkle.root? join ids).getD (Digest.zero 32)

namespace Block

def toBytes (b : Block) : Bytes :=
  b.header.toBytes ++ Wire.compactSize b.transactions.length ++
    b.transactions.flatMap Transaction.toBytes

def read (r : Wire.Reader) : Wire.ReadResult Block :=
  match BlockHeader.read r with
  | .error e => .error e
  | .ok (header, r1) =>
    match Transaction.readCounted Transaction.read r1 with
    | .error e => .error e
    | .ok (transactions, r2) => .ok (⟨header, transactions⟩, r2)

def ofBytes (bs : Bytes) : Except Wire.RecordError Block := Wire.readRecord .block read bs

def ofHex (s : String) : Except Wire.RecordError Block := Wire.readRecordHex .block read s

def id (b : Block) : Identifier := b.header.id

def merkleRoot (b : Block) : Identifier :=
  Identifier.merkleRoot (b.transactions.map Transaction.id)

def hasValidRoot (b : Block) : Bool := b.merkleRoot == b.header.merkleRoot

end Block

end SpendScript
