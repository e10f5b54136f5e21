import SpendScript.Bytes

/-!
# SpendScript.Wire.Reader

A byte string being read from the front, with the number of bytes read so far. A read returns the
value and the reader after it, so a failed read leaves the reader at hand as it was. Running short
is the only way in which a read fails, and the fault says how much was asked for, where, and how
much there was.
-/

namespace SpendScript.Wire

/-- A read asked for more bytes than there are. -/
structure Truncated where
  needed : Nat
  offset : Nat
  available : Nat
deriving DecidableEq

def Truncated.message (e : Truncated) : String :=
  s!"truncated input: needed {e.needed} bytes at offset {e.offset}, {e.available} available"

structure Reader where
  /-- The bytes not read yet. -/
  rest : Bytes
  /-- How many bytes have been read. -/
  position : Nat
deriving DecidableEq

/-- What a read gives: the value and the reader after it. -/
abbrev ReadResult (α : Type) := Except Truncated (α × Reader)

namespace Reader

def ofBytes (bs : Bytes) : Reader := ⟨bs, 0⟩

def remaining (r : Reader) : Nat := r.rest.length

def finished (r : Reader) : Bool := r.rest.isEmpty

def bytes (n : Nat) (r : Reader) : ReadResult Bytes :=
  let taken := r.rest.take n
  if taken.length = n then .ok (taken, ⟨r.rest.drop n, r.position + n⟩)
  else .error ⟨n, r.position, r.rest.length⟩

/-- The next `k` bytes as a number, least significant byte first. -/
def nat (k : Nat) (r : Reader) : ReadResult Nat :=
  match r.bytes k with
  | .error e => .error e
  | .ok (bs, r') => .ok (Bytes.toNatLE bs, r')

def u8 (r : Reader) : ReadResult UInt8 :=
  match r.nat 1 with
  | .error e => .error e
  | .ok (n, r') => .ok (UInt8.ofNat n, r')

def u16 (r : Reader) : ReadResult UInt16 :=
  match r.nat 2 with
  | .error e => .error e
  | .ok (n, r') => .ok (UInt16.ofNat n, r')

def u32 (r : Reader) : ReadResult UInt32 :=
  match r.nat 4 with
  | .error e => .error e
  | .ok (n, r') => .ok (UInt32.ofNat n, r')

def u64 (r : Reader) : ReadResult UInt64 :=
  match r.nat 8 with
  | .error e => .error e
  | .ok (n, r') => .ok (UInt64.ofNat n, r')

def digest32 (r : Reader) : ReadResult (Digest 32) :=
  match Digest.ofBytes? 32 (r.rest.take 32) with
  | some d => .ok (d, ⟨r.rest.drop 32, r.position + 32⟩)
  | none => .error ⟨32, r.position, r.rest.length⟩

/-- How many bytes follow a marker byte of a compact-size integer. -/
def payloadWidth (marker : Nat) : Nat :=
  if marker = 0xff then 8 else if marker = 0xfe then 4 else 2

/-- A compact-size integer: one byte, or a marker byte and 2, 4 or 8 bytes. The form need not be
the shortest. -/
def compactSize (r : Reader) : ReadResult UInt64 :=
  match r.nat 1 with
  | .error e => .error e
  | .ok (marker, r') =>
    if marker < 0xfd then .ok (UInt64.ofNat marker, r')
    else
      match r'.nat (payloadWidth marker) with
      | .error e => .error e
      | .ok (n, r'') => .ok (UInt64.ofNat n, r'')

def prefixed (r : Reader) : ReadResult Bytes :=
  match r.compactSize with
  | .error e => .error e
  | .ok (n, r') => r'.bytes n.toNat

def many {α : Type} (read : Reader → ReadResult α) : Nat → Reader → ReadResult (List α)
  | 0, r => .ok ([], r)
  | n + 1, r =>
    match read r with
    | .error e => .error e
    | .ok (a, r') =>
      match many read n r' with
      | .error e => .error e
      | .ok (as, r'') => .ok (a :: as, r'')

end Reader

end SpendScript.Wire
