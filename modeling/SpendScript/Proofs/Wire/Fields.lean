import SpendScript.Proofs.Wire.Spelling
import SpendScript.Wire.Field

/-!
# SpendScript.Proofs.Wire.Fields

Typed fields read one after the other, from what was written for them and from any other bytes.

* `FieldKind.readAll_encodeAll`: fields that are written in order are read back in order, each read
  stops where the next field begins, and what follows the last one is left.
* `FieldKind.attempts_readAll`: from any bytes and for any list of kinds, a read takes a form of a
  field of its kind off the front; or no field of its kind begins there, the read fails for want of
  bytes, and the next one begins where it began.
-/

namespace SpendScript
namespace Wire

/-- The reader of `bs` that has read its first `position` bytes. -/
def Reader.past (bs : Bytes) (position : Nat) : Reader := ⟨bs.drop position, position⟩

/-- A successful read of `bs` takes a form of its value from where it begins, and stays within
`bs`. -/
theorem Accepts.of_past {α : Type} {read : Reader → ReadResult α} {form : α → Bytes → Prop}
    (h : Accepts read form) {bs : Bytes} {position : Nat} {a : α} {r : Reader}
    (hposition : position ≤ bs.length) (hread : read (Reader.past bs position) = .ok (a, r)) :
    ∃ w, form a w ∧ w <+: bs.drop position ∧ position + w.length ≤ bs.length ∧
      r = Reader.past bs (position + w.length) := by
  obtain ⟨w, hform, hrest, hafter⟩ := (h _ r a).1 hread
  dsimp only [Reader.past] at hrest hafter
  have hlen := congrArg List.length hrest
  rw [List.length_drop, List.length_append] at hlen
  refine ⟨w, hform, ⟨r.rest, hrest.symm⟩, by omega, ?_⟩
  rw [Reader.past, ← List.drop_drop, hrest, List.drop_left, ← hafter]

/-! ## The faults of a reader -/

/-- The fault of a read that began at `position` of `length` bytes: at its offset there was all that
was left, and that was not enough. -/
structure Truncated.Explains (e : Truncated) (position length : Nat) : Prop where
  not_before : position ≤ e.offset
  all_left : e.offset + e.available = length
  too_few : e.available < e.needed

/-- What `read` says when it fails is right. -/
def Faults {α : Type} (read : Reader → ReadResult α) : Prop :=
  ∀ (r : Reader) (e : Truncated), read r = .error e →
    e.Explains r.position (r.position + r.rest.length)

section Faults

variable {α β : Type} {read : Reader → ReadResult α} {form : α → Bytes → Prop}

theorem Faults.of_past (h : Faults read) {bs : Bytes} {position : Nat} {e : Truncated}
    (hposition : position ≤ bs.length) (hread : read (Reader.past bs position) = .error e) :
    e.Explains position bs.length := by
  have hfault := h _ e hread
  dsimp only [Reader.past] at hfault
  rwa [List.length_drop, Nat.add_sub_cancel' hposition] at hfault

theorem faults_pure (a : α) : Faults (fun r => .ok (a, r)) := by
  intro r e h
  cases h

theorem faults_bytes (n : Nat) : Faults (Reader.bytes n) := by
  intro r e h
  simp only [Reader.bytes] at h
  split at h
  · cases h
  · rename_i hlen
    cases h
    rw [List.length_take] at hlen
    exact ⟨Nat.le_refl _, rfl, by dsimp only; omega⟩

/-- What the first read took and what it left are together what there was, so the fault of the
second one counts the same bytes. -/
theorem Faults.andThen {next : α → Reader → ReadResult β} (h : Faults read)
    (hread : Accepts read form) (hnext : ∀ a, Faults (next a)) :
    Faults (fun r => andThen (read r) next) := by
  intro r e hfault
  simp only [Wire.andThen] at hfault
  split at hfault
  · rename_i e' hfirst
    cases hfault
    exact h r e hfirst
  · rename_i a r' hfirst
    obtain ⟨bs, -, hrest, hposition⟩ := (hread r r' a).1 hfirst
    obtain ⟨hbefore, hall, hfew⟩ := hnext a r' e hfault
    refine ⟨by omega, ?_, hfew⟩
    rw [hall, hrest, hposition, List.length_append, Nat.add_assoc]

theorem Faults.ite {c : Prop} [Decidable c] {read' : Reader → ReadResult α} (h : Faults read)
    (h' : Faults read') : Faults (fun r => if c then read r else read' r) := by
  intro r e hfault
  dsimp only at hfault
  split at hfault
  · exact h r e hfault
  · exact h' r e hfault

theorem Faults.map (h : Faults read) (hread : Accepts read form) (f : α → β) :
    Faults (fun r => Wire.andThen (read r) fun a r' => .ok (f a, r')) :=
  h.andThen hread fun a => faults_pure (f a)

theorem faults_nat (k : Nat) : Faults (Reader.nat k) := by
  rw [Reader.nat_eq_andThen]
  exact (faults_bytes k).map (accepts_bytes k) Bytes.toNatLE

theorem faults_word (k : Nat) (ofNat : Nat → α) :
    Faults (fun r => Wire.andThen (r.nat k) fun n r' => .ok (ofNat n, r')) :=
  (faults_nat k).map (accepts_nat k) ofNat

theorem faults_u8 : Faults Reader.u8 := by
  rw [Reader.u8_eq_andThen]
  exact faults_word 1 UInt8.ofNat

theorem faults_u16 : Faults Reader.u16 := by
  rw [Reader.u16_eq_andThen]
  exact faults_word 2 UInt16.ofNat

theorem faults_u32 : Faults Reader.u32 := by
  rw [Reader.u32_eq_andThen]
  exact faults_word 4 UInt32.ofNat

theorem faults_u64 : Faults Reader.u64 := by
  rw [Reader.u64_eq_andThen]
  exact faults_word 8 UInt64.ofNat

theorem faults_compactSize : Faults Reader.compactSize := by
  rw [Reader.compactSize_eq_andThen]
  refine (faults_nat 1).andThen (accepts_nat 1) fun marker => ?_
  exact (faults_pure (UInt64.ofNat marker)).ite (faults_word _ UInt64.ofNat)

theorem faults_prefixed : Faults Reader.prefixed := by
  rw [Reader.prefixed_eq_andThen]
  exact faults_compactSize.andThen accepts_compactSize fun n => faults_bytes n.toNat

end Faults

/-! ## One field -/

namespace Field

/-- The forms that are read as the field. -/
def Form : Field → Bytes → Prop
  | .compactSize n, w => SizeForm n.toNat w
  | .prefixed bs, w => PrefixedForm SizeForm bs w
  | f, w => w = f.encode

/-- A byte string behind its length has a written form if its length has one. -/
def Fits : Field → Prop
  | .prefixed bs => bs.length < lengthLimit
  | _ => True

theorem form_encode {f : Field} (h : f.Fits) : f.Form f.encode := by
  cases f with
  | compactSize n => exact sizeForm_compactSize n.toNat_lt
  | prefixed bs => exact ⟨_, sizeForm_compactSize h, rfl⟩
  | _ => rfl

@[simp] theorem encodeAll_nil : encodeAll [] = [] := rfl

@[simp] theorem encodeAll_cons (f : Field) (fs : List Field) :
    encodeAll (f :: fs) = f.encode ++ encodeAll fs := rfl

end Field

namespace FieldKind

section Wrapping

variable {α : Type} {read : Reader → ReadResult α} {form : α → Bytes → Prop}

theorem wrap_eq_andThen (make : α → Field) (result : ReadResult α) :
    wrap make result = andThen result fun a r => .ok (make a, r) := by
  cases result <;> rfl

theorem accepts_wrap (h : Accepts read form) (make : α → Field) {k : FieldKind}
    (hform : ∀ f w, (∃ a, f = make a ∧ form a w) ↔ f.kind = k ∧ f.Form w) :
    Accepts (fun r => wrap make (read r)) (fun f w => f.kind = k ∧ f.Form w) := by
  simp only [wrap_eq_andThen]
  exact (h.map make).congr hform

theorem faults_wrap (h : Faults read) (hread : Accepts read form) (make : α → Field) :
    Faults (fun r => wrap make (read r)) := by
  simp only [wrap_eq_andThen]
  exact h.map hread make

end Wrapping

theorem accepts_read (k : FieldKind) : Accepts k.read (fun f w => f.kind = k ∧ f.Form w) := by
  cases k with
  | u8 =>
    refine accepts_wrap accepts_u8 .u8 fun f w => ?_
    cases f <;> simp [Field.kind, Field.Form, Field.encode]
  | u16 =>
    refine accepts_wrap accepts_u16 .u16 fun f w => ?_
    cases f <;> simp [Field.kind, Field.Form, Field.encode]
  | u32 =>
    refine accepts_wrap accepts_u32 .u32 fun f w => ?_
    cases f <;> simp [Field.kind, Field.Form, Field.encode]
  | i32 =>
    refine accepts_wrap accepts_u32 (fun n => .i32 n.toInt32) fun f w => ?_
    cases f with
    | i32 n =>
      constructor
      · rintro ⟨a, heq, rfl⟩
        cases heq
        exact ⟨rfl, (congrArg Wire.u32 (UInt32.toUInt32_toInt32 a)).symm⟩
      · rintro ⟨-, rfl⟩
        exact ⟨n.toUInt32, by rw [Int32.toInt32_toUInt32], rfl⟩
    | _ => simp [Field.kind]
  | u64 =>
    refine accepts_wrap accepts_u64 .u64 fun f w => ?_
    cases f <;> simp [Field.kind, Field.Form, Field.encode]
  | compactSize =>
    refine accepts_wrap accepts_compactSize .compactSize fun f w => ?_
    cases f <;> simp [Field.kind, Field.Form]
  | raw n =>
    refine accepts_wrap (accepts_bytes n) .raw fun f w => ?_
    cases f with
    | raw bs =>
      constructor
      · rintro ⟨a, heq, rfl, hlen⟩
        cases heq
        exact ⟨congrArg FieldKind.raw hlen, rfl⟩
      · rintro ⟨hkind, rfl⟩
        cases hkind
        exact ⟨w, rfl, rfl, rfl⟩
    | _ => simp [Field.kind]
  | prefixed =>
    refine accepts_wrap accepts_prefixed .prefixed fun f w => ?_
    cases f <;> simp [Field.kind, Field.Form]

theorem faults_read (k : FieldKind) : Faults k.read := by
  cases k with
  | u8 => exact faults_wrap faults_u8 accepts_u8 .u8
  | u16 => exact faults_wrap faults_u16 accepts_u16 .u16
  | u32 => exact faults_wrap faults_u32 accepts_u32 .u32
  | i32 => exact faults_wrap faults_u32 accepts_u32 (fun n => .i32 n.toInt32)
  | u64 => exact faults_wrap faults_u64 accepts_u64 .u64
  | compactSize => exact faults_wrap faults_compactSize accepts_compactSize .compactSize
  | raw n => exact faults_wrap (faults_bytes n) (accepts_bytes n) .raw
  | prefixed => exact faults_wrap faults_prefixed accepts_prefixed .prefixed

/-! ## Fields in order -/

/-- Reading the kinds of written fields gives the fields; after each one the reader has read the
fields up to it, and the later ones and what follows them are left. -/
theorem readAll_encodeAll {fs : List Field} (hfits : ∀ f ∈ fs, f.Fits) (t : Bytes)
    (position : Nat) :
    readAll (fs.map Field.kind) ⟨Field.encodeAll fs ++ t, position⟩ =
      fs.mapIdx fun i f => (.ok f,
        ⟨Field.encodeAll (fs.drop (i + 1)) ++ t,
          position + (Field.encodeAll (fs.take (i + 1))).length⟩) := by
  induction fs generalizing position with
  | nil => rfl
  | cons f fs ih =>
    obtain ⟨hf, hfs⟩ := List.forall_mem_cons.1 hfits
    have hread : f.kind.read ⟨Field.encodeAll (f :: fs) ++ t, position⟩ =
        .ok (f, ⟨Field.encodeAll fs ++ t, position + f.encode.length⟩) := by
      rw [Field.encodeAll_cons, List.append_assoc]
      exact (accepts_read f.kind).reads ⟨rfl, Field.form_encode hf⟩ _ position
    -- the later fields begin where the first one ends, so their positions are counted from there
    rw [List.map_cons, readAll, hread, List.mapIdx_cons]
    simp only [ih hfs, List.drop_succ_cons, List.take_succ_cons, Field.encodeAll_cons,
      List.length_append, Nat.add_assoc, List.drop_zero, List.take_zero, Field.encodeAll_nil,
      List.append_nil]

/-- What a list of reads comes to in `bs` from `position` on, read by read: the outcome, and the
reader after it. -/
inductive Attempts (bs : Bytes) :
    Nat → List FieldKind → List (Except Truncated Field × Reader) → Prop where
  | nil (position : Nat) : Attempts bs position [] []
  | taken {position : Nat} {ks : List FieldKind} {f : Field} {w : Bytes}
      {later : List (Except Truncated Field × Reader)} (form : Field.Form f w)
      (here : w <+: bs.drop position) (tail : Attempts bs (position + w.length) ks later) :
      Attempts bs position (f.kind :: ks) ((.ok f, .past bs (position + w.length)) :: later)
  | short {position : Nat} {k : FieldKind} {ks : List FieldKind} {e : Truncated}
      {later : List (Except Truncated Field × Reader)}
      (absent : ∀ (f : Field) (w : Bytes), f.kind = k → f.Form w → ¬ w <+: bs.drop position)
      (fault : e.Explains position bs.length) (tail : Attempts bs position ks later) :
      Attempts bs position (k :: ks) ((.error e, .past bs position) :: later)

theorem attempts_readAll (bs : Bytes) (ks : List FieldKind) {position : Nat}
    (hposition : position ≤ bs.length) :
    Attempts bs position ks (readAll ks (.past bs position)) := by
  induction ks generalizing position with
  | nil => exact .nil position
  | cons k ks ih =>
    simp only [readAll]
    split
    · rename_i e hread
      refine .short ?_ ((faults_read k).of_past hposition hread) (ih hposition)
      -- a form that begins here would have been read
      rintro f w hkind hform ⟨rest, hrest⟩
      have hok := (accepts_read k).reads ⟨hkind, hform⟩ rest position
      rw [hrest, ← Reader.past, hread] at hok
      cases hok
    · rename_i f r hread
      obtain ⟨w, ⟨rfl, hform⟩, hhere, hwithin, rfl⟩ := (accepts_read k).of_past hposition hread
      exact .taken hform hhere (ih hwithin)

theorem Attempts.position_le {bs : Bytes} {position : Nat} {ks : List FieldKind}
    {outcomes : List (Except Truncated Field × Reader)} (h : Attempts bs position ks outcomes)
    (hposition : position ≤ bs.length) : ∀ o ∈ outcomes, o.2.position ≤ bs.length := by
  induction h with
  | nil => simp
  | taken hform hhere htail ih =>
    have hlen := hhere.length_le
    rw [List.length_drop] at hlen
    exact List.forall_mem_cons.2 ⟨by dsimp only [Reader.past]; omega, ih (by omega)⟩
  | short habsent hfault htail ih =>
    exact List.forall_mem_cons.2 ⟨hposition, ih hposition⟩

end FieldKind
end Wire
end SpendScript
