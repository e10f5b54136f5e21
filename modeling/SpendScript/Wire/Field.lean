import SpendScript.Wire.Reader
import SpendScript.Wire.Writer

/-!
# SpendScript.Wire.Field

Typed fields of a wire format. `FieldKind.read` reads one field and `Field.encode` writes one; a
list of fields is written one after the other, and `FieldKind.readAll` reads a list of kinds in
order, going on after a failed read from where that read began.
-/

namespace SpendScript.Wire

/-- A value together with the way it is written. -/
inductive Field where
  | u8 (n : UInt8)
  | u16 (n : UInt16)
  | u32 (n : UInt32)
  | i32 (n : Int32)
  | u64 (n : UInt64)
  | compactSize (n : UInt64)
  | raw (bs : Bytes)
  | prefixed (bs : Bytes)
deriving DecidableEq

/-- What a reader has to be told to read a field. -/
inductive FieldKind where
  | u8
  | u16
  | u32
  | i32
  | u64
  | compactSize
  | raw (length : Nat)
  | prefixed
deriving DecidableEq

namespace Field

def kind : Field → FieldKind
  | .u8 _ => .u8
  | .u16 _ => .u16
  | .u32 _ => .u32
  | .i32 _ => .i32
  | .u64 _ => .u64
  | .compactSize _ => .compactSize
  | .raw bs => .raw bs.length
  | .prefixed _ => .prefixed

def encode : Field → Bytes
  | .u8 n => Wire.u8 n
  | .u16 n => Wire.u16 n
  | .u32 n => Wire.u32 n
  | .i32 n => Wire.u32 n.toUInt32
  | .u64 n => Wire.u64 n
  | .compactSize n => Wire.compactSize n.toNat
  | .raw bs => bs
  | .prefixed bs => Wire.prefixed bs

def encodeAll (fs : List Field) : Bytes := fs.flatMap encode

end Field

namespace FieldKind

def wrap {α : Type} (make : α → Field) : ReadResult α → ReadResult Field
  | .error e => .error e
  | .ok (a, r) => .ok (make a, r)

def read (k : FieldKind) (r : Reader) : ReadResult Field :=
  match k with
  | .u8 => wrap .u8 r.u8
  | .u16 => wrap .u16 r.u16
  | .u32 => wrap .u32 r.u32
  | .i32 => wrap (fun n => .i32 n.toInt32) r.u32
  | .u64 => wrap .u64 r.u64
  | .compactSize => wrap .compactSize r.compactSize
  | .raw n => wrap .raw (r.bytes n)
  | .prefixed => wrap .prefixed r.prefixed

/-- The reader after an attempt to read a field: past it, or unmoved if the read failed. -/
def after (k : FieldKind) (r : Reader) : Reader :=
  match k.read r with
  | .error _ => r
  | .ok (_, r') => r'

/-- Attempts the reads in order; each outcome comes with the reader after it. -/
def readAll : List FieldKind → Reader → List (Except Truncated Field × Reader)
  | [], _ => []
  | k :: ks, r =>
    match k.read r with
    | .error e => (.error e, r) :: readAll ks r
    | .ok (f, r') => (.ok f, r') :: readAll ks r'

end FieldKind

end SpendScript.Wire
