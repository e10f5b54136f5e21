import SpendScript.Proofs.Wire.Fields

/-!
# SpendScript.Proofs.Wire.Cursor

Fields read in place. A cursor keeps the whole buffer, and its reads move it, also those that fail:
a read of two parts has to put the cursor back when the second part is cut short. Reading in place
gives what a reader gives, with the cursor at the reader's position after each read
(`Cursor.readAll_eq`), so a failed read of any kind leaves the cursor where it was.

* `FieldKind.readAll_mirrors_encodeAll`: what is written in order is read in order, and whatever is
  read of any bytes, a read moves by the form that it took and a failed one not at all.
-/

namespace SpendScript
namespace Wire

structure Cursor where
  buffer : Bytes
  position : Nat
deriving DecidableEq

/-- What a read in place gives, and the cursor as it leaves it, be it a success or not. -/
abbrev InPlace (α : Type) := Cursor → Except Truncated α × Cursor

namespace Cursor

section Steps

variable {α β : Type}

def bytes (n : Nat) : InPlace Bytes := fun c =>
  let available := c.buffer.length - c.position
  if available < n then (.error ⟨n, c.position, available⟩, c)
  else (.ok (c.buffer.slice c.position n), { c with position := c.position + n })

def map (f : α → β) (read : InPlace α) : InPlace β := fun c =>
  match read c with
  | (.error e, c') => (.error e, c')
  | (.ok a, c') => (.ok (f a), c')

/-- Reads a second part behind the first one, and goes back to before the first one if the second
one fails. -/
def andThenOrBack (read : InPlace α) (next : α → InPlace β) : InPlace β := fun c =>
  match read c with
  | (.error e, c') => (.error e, c')
  | (.ok a, c') =>
    match next a c' with
    | (.error e, c'') => (.error e, { c'' with position := c.position })
    | (.ok b, c'') => (.ok b, c'')

end Steps

def nat (k : Nat) : InPlace Nat := map Bytes.toNatLE (bytes k)

/-- A number of `k` bytes in a type of its own. -/
def word {α : Type} (k : Nat) (ofNat : Nat → α) : InPlace α := map ofNat (nat k)

/-- What follows a marker byte, or nothing where the byte is the number itself. -/
def payload (marker : Nat) : InPlace UInt64 :=
  if marker < 0xfd then fun c => (.ok (UInt64.ofNat marker), c)
  else word (Reader.payloadWidth marker) UInt64.ofNat

def compactSize : InPlace UInt64 := andThenOrBack (nat 1) payload

def prefixed : InPlace Bytes := andThenOrBack compactSize fun n => bytes n.toNat

def read : FieldKind → InPlace Field
  | .u8 => map .u8 (word 1 UInt8.ofNat)
  | .u16 => map .u16 (word 2 UInt16.ofNat)
  | .u32 => map .u32 (word 4 UInt32.ofNat)
  | .i32 => map (fun n => .i32 n.toInt32) (word 4 UInt32.ofNat)
  | .u64 => map .u64 (word 8 UInt64.ofNat)
  | .compactSize => map .compactSize compactSize
  | .raw n => map .raw (bytes n)
  | .prefixed => map .prefixed prefixed

/-- Attempts the reads in order, each from where the one before left the cursor. -/
def readAll : List FieldKind → Cursor → List (Except Truncated Field × Cursor)
  | [], _ => []
  | k :: ks, c => read k c :: readAll ks (read k c).2

/-! ## Reading in place and reading on -/

/-- The reader that has read what is before the cursor. -/
def reader (c : Cursor) : Reader := .past c.buffer c.position

/-- The cursor moved to where a reader is, if it went on. -/
def moved {α : Type} (c : Cursor) : ReadResult α → Except Truncated α × Cursor
  | .error e => (.error e, c)
  | .ok (a, r) => (.ok a, { c with position := r.position })

/-- `inPlace` gives what `read` gives; it moves the cursor as far as the reader goes, and not at all
where the reader fails. -/
def Follows {α : Type} (inPlace : InPlace α) (read : Reader → ReadResult α) : Prop :=
  ∀ c : Cursor, c.position ≤ c.buffer.length → inPlace c = c.moved (read c.reader)

section Follows

variable {α β : Type} {inPlace : InPlace α} {read : Reader → ReadResult α}
  {form : α → Bytes → Prop}

theorem follows_bytes (n : Nat) : Follows (bytes n) (Reader.bytes n) := by
  intro c hc
  simp only [bytes, Reader.bytes, reader, Reader.past, List.length_take, List.length_drop,
    Bytes.slice]
  split
  · rw [if_neg (by omega)]
    rfl
  · rw [if_pos (by omega)]
    rfl

theorem Follows.map (h : Follows inPlace read) (f : α → β) :
    Follows (Cursor.map f inPlace) (fun r => andThen (read r) fun a r' => .ok (f a, r')) := by
  intro c hc
  simp only [Cursor.map, h c hc, andThen]
  cases read c.reader <;> rfl

/-- The first part has moved the cursor when the second one fails, and the way back is to where the
reader of the whole began. -/
theorem Follows.andThenOrBack {next : α → InPlace β} {next' : α → Reader → ReadResult β}
    (h : Follows inPlace read) (hread : Accepts read form)
    (hnext : ∀ a, Follows (next a) (next' a)) :
    Follows (Cursor.andThenOrBack inPlace next) (fun r => andThen (read r) next') := by
  intro c hc
  simp only [Cursor.andThenOrBack, h c hc, andThen]
  cases hfirst : read c.reader with
  | error e => rfl
  | ok result =>
    obtain ⟨a, r⟩ := result
    obtain ⟨w, -, -, hwithin, rfl⟩ := hread.of_past hc hfirst
    have hsecond := hnext a ⟨c.buffer, c.position + w.length⟩ hwithin
    simp only [moved, Reader.past] at hsecond ⊢
    rw [hsecond]
    simp only [reader, Reader.past]
    cases next' a ⟨c.buffer.drop (c.position + w.length), c.position + w.length⟩ <;> rfl

theorem follows_nat (k : Nat) : Follows (nat k) (Reader.nat k) := by
  rw [Reader.nat_eq_andThen]
  exact (follows_bytes k).map Bytes.toNatLE

theorem follows_word (k : Nat) (ofNat : Nat → α) :
    Follows (word k ofNat) (fun r => andThen (r.nat k) fun n r' => .ok (ofNat n, r')) :=
  (follows_nat k).map ofNat

theorem follows_payload (marker : Nat) :
    Follows (payload marker) (fun r =>
      if marker < 0xfd then .ok (UInt64.ofNat marker, r)
      else andThen (r.nat (Reader.payloadWidth marker)) fun n r' => .ok (UInt64.ofNat n, r')) := by
  by_cases hmarker : marker < 0xfd
  · intro c hc
    simp only [payload, if_pos hmarker]
    rfl
  · simp only [payload, if_neg hmarker]
    exact follows_word _ UInt64.ofNat

theorem follows_compactSize : Follows compactSize Reader.compactSize := by
  rw [Reader.compactSize_eq_andThen]
  exact (follows_nat 1).andThenOrBack (accepts_nat 1) follows_payload

theorem follows_prefixed : Follows prefixed Reader.prefixed := by
  rw [Reader.prefixed_eq_andThen]
  exact follows_compactSize.andThenOrBack accepts_compactSize fun n => follows_bytes n.toNat

theorem Follows.wrap (h : Follows inPlace read) (make : α → Field) :
    Follows (Cursor.map make inPlace) (fun r => FieldKind.wrap make (read r)) := by
  simp only [FieldKind.wrap_eq_andThen]
  exact h.map make

end Follows

theorem follows_read (k : FieldKind) : Follows (read k) k.read := by
  cases k with
  | u8 =>
    have h : Follows (word 1 UInt8.ofNat) Reader.u8 := Reader.u8_eq_andThen ▸ follows_word 1 _
    exact h.wrap .u8
  | u16 =>
    have h : Follows (word 2 UInt16.ofNat) Reader.u16 := Reader.u16_eq_andThen ▸ follows_word 2 _
    exact h.wrap .u16
  | u32 =>
    have h : Follows (word 4 UInt32.ofNat) Reader.u32 := Reader.u32_eq_andThen ▸ follows_word 4 _
    exact h.wrap .u32
  | i32 =>
    have h : Follows (word 4 UInt32.ofNat) Reader.u32 := Reader.u32_eq_andThen ▸ follows_word 4 _
    exact h.wrap fun n => .i32 n.toInt32
  | u64 =>
    have h : Follows (word 8 UInt64.ofNat) Reader.u64 := Reader.u64_eq_andThen ▸ follows_word 8 _
    exact h.wrap .u64
  | compactSize => exact follows_compactSize.wrap .compactSize
  | raw n => exact (follows_bytes n).wrap .raw
  | prefixed => exact follows_prefixed.wrap .prefixed

/-- A list of reads in place comes to what it comes to for a reader. -/
theorem readAll_eq (bs : Bytes) (ks : List FieldKind) {position : Nat}
    (hposition : position ≤ bs.length) :
    readAll ks ⟨bs, position⟩ =
      (FieldKind.readAll ks (.past bs position)).map fun o => (o.1, ⟨bs, o.2.position⟩) := by
  induction ks generalizing position with
  | nil => rfl
  | cons k ks ih =>
    have hstep : read k ⟨bs, position⟩ = moved ⟨bs, position⟩ (k.read (.past bs position)) :=
      follows_read k ⟨bs, position⟩ hposition
    rw [readAll, hstep, FieldKind.readAll]
    cases hread : k.read (.past bs position) with
    | error e => exact congrArg ((.error e, ⟨bs, position⟩) :: ·) (ih hposition)
    | ok result =>
      obtain ⟨f, r⟩ := result
      obtain ⟨w, -, -, hwithin, rfl⟩ := (FieldKind.accepts_read k).of_past hposition hread
      exact congrArg ((.ok f, ⟨bs, position + w.length⟩) :: ·) (ih hwithin)

-- Both failing reads have taken a byte when they find too few behind it.
example :
    readAll [.compactSize, .u8, .prefixed] ⟨[0xfd, 0x2c], 0⟩ =
      [(.error ⟨2, 1, 1⟩, ⟨[0xfd, 0x2c], 0⟩), (.ok (.u8 0xfd), ⟨[0xfd, 0x2c], 1⟩),
        (.error ⟨0x2c, 2, 0⟩, ⟨[0xfd, 0x2c], 1⟩)] := by
  rfl

end Cursor

namespace FieldKind

/-- **Reading mirrors writing.** Fields that are written in order, with anything behind them, are
read in order: each read gives the field that was written, the reader has then read what was written
up to it, and what was written after it and what is behind the fields are left. And whatever is read
of any bytes, each read takes a form of its kind off the front, or fails for want of bytes and stays
where it was; no read goes past the end; and reads in place, which move the cursor even while they
fail, come to the same. -/
theorem readAll_mirrors_encodeAll :
    (∀ (fs : List Field) (t : Bytes), (∀ f ∈ fs, f.Fits) →
      readAll (fs.map Field.kind) (.ofBytes (Field.encodeAll fs ++ t)) =
        fs.mapIdx fun i f => (.ok f,
          ⟨Field.encodeAll (fs.drop (i + 1)) ++ t,
            (Field.encodeAll (fs.take (i + 1))).length⟩)) ∧
    ∀ (bs : Bytes) (ks : List FieldKind),
      Attempts bs 0 ks (readAll ks (.ofBytes bs)) ∧
      (∀ o ∈ readAll ks (.ofBytes bs), o.2.position ≤ bs.length) ∧
      Cursor.readAll ks ⟨bs, 0⟩ =
        (readAll ks (.ofBytes bs)).map fun o => (o.1, ⟨bs, o.2.position⟩) := by
  constructor
  · intro fs t hfits
    have h := readAll_encodeAll hfits t 0
    simp only [Nat.zero_add] at h
    exact h
  · intro bs ks
    have hattempts := attempts_readAll bs ks (Nat.zero_le bs.length)
    exact ⟨hattempts, hattempts.position_le (Nat.zero_le bs.length),
      Cursor.readAll_eq bs ks (Nat.zero_le bs.length)⟩

theorem readAll_mirrors_encodeAll_fourKinds :
    (∀ f ∈ [Field.u8 0x42, .i32 (-2), .compactSize 300, .prefixed [1, 2, 3]], f.Fits) ∧
    readAll [.u8, .i32, .compactSize, .prefixed]
        (.ofBytes ([0x42, 0xfe, 0xff, 0xff, 0xff, 0xfd, 0x2c, 0x01, 3, 1, 2, 3] ++ [0x99])) =
      [(.ok (.u8 0x42), ⟨[0xfe, 0xff, 0xff, 0xff, 0xfd, 0x2c, 0x01, 3, 1, 2, 3, 0x99], 1⟩),
        (.ok (.i32 (-2)), ⟨[0xfd, 0x2c, 0x01, 3, 1, 2, 3, 0x99], 5⟩),
        (.ok (.compactSize 300), ⟨[3, 1, 2, 3, 0x99], 8⟩),
        (.ok (.prefixed [1, 2, 3]), ⟨[0x99], 12⟩)] := by
  have hfits : ∀ f ∈ [Field.u8 0x42, .i32 (-2), .compactSize 300, .prefixed [1, 2, 3]],
      f.Fits := by
    simp [Field.Fits, lengthLimit]
  exact ⟨hfits, readAll_mirrors_encodeAll.1 _ [0x99] hfits⟩

end FieldKind
end Wire
end SpendScript
