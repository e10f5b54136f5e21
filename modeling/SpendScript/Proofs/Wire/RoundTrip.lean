import SpendScript.Proofs.Digits
import SpendScript.Wire.Record
import SpendScript.Wire.Writer

/-!
# SpendScript.Proofs.Wire.RoundTrip

What a reader accepts, and that it takes no more. `Reads read bs a` says that `read` takes exactly
`bs` off the front of what it is given, whatever follows, and makes `a` of it. `Accepts read form`
says that `read` succeeds on exactly the byte strings that begin with one of the forms of a value,
and takes that form off. Readers that go on where another one stopped compose (`Accepts.andThen`).

* `Reads.prefix_unique`: two written values that begin the same byte string are one value, so a
  value and what follows it can be told apart.
* `Accepts.readRecord_eq_ok_iff`: a byte string holds one record exactly if it is a form of it.
* `Accepts.wholeRecord`: what is longer than a record, or breaks off inside it, is refused.
-/

namespace SpendScript
namespace Wire

/-- Lengths below this have a compact-size form. -/
def lengthLimit : Nat := 0x10000000000000000

theorem toNat_ofNat_length {n : Nat} (h : n < lengthLimit) : (UInt64.ofNat n).toNat = n := by
  rw [UInt64.toNat_ofNat']
  exact Nat.mod_eq_of_lt h

/-- `read` takes `bs` off the front of any byte string, and makes `a` of it. -/
def Reads {α : Type} (read : Reader → ReadResult α) (bs : Bytes) (a : α) : Prop :=
  ∀ (rest : Bytes) (position : Nat),
    read ⟨bs ++ rest, position⟩ = .ok (a, ⟨rest, position + bs.length⟩)

theorem Reads.prefix_unique {α : Type} {read : Reader → ReadResult α} {bs bs' s s' : Bytes}
    {a a' : α} (h : Reads read bs a) (h' : Reads read bs' a') (heq : bs ++ s = bs' ++ s') :
    a = a' ∧ s = s' := by
  have hread := h s 0
  rw [heq, h' s' 0] at hread
  simp only [Except.ok.injEq, Prod.mk.injEq, Reader.mk.injEq] at hread
  exact ⟨hread.1.symm, hread.2.1.symm⟩

/-- `read` succeeds on exactly the byte strings that begin with a form of some value, and takes that
form off the front. -/
def Accepts {α : Type} (read : Reader → ReadResult α) (form : α → Bytes → Prop) : Prop :=
  ∀ (r r' : Reader) (a : α), read r = .ok (a, r') ↔
    ∃ bs, form a bs ∧ r.rest = bs ++ r'.rest ∧ r'.position = r.position + bs.length

/-- Goes on reading behind what a successful read took. -/
def andThen {α β : Type} (result : ReadResult α) (next : α → Reader → ReadResult β) :
    ReadResult β :=
  match result with
  | .error e => .error e
  | .ok (a, r) => next a r

namespace Reader

/-! Every reader of more than one part goes on where the reader of the first part stopped. -/

theorem nat_eq_andThen (k : Nat) :
    nat k = fun r => andThen (r.bytes k) fun bs r' => .ok (bs.toNatLE, r') := by
  funext r
  grind [nat, andThen]

theorem u8_eq_andThen : u8 = fun r => andThen (r.nat 1) fun n r' => .ok (UInt8.ofNat n, r') := by
  funext r
  grind [u8, andThen]

theorem u16_eq_andThen : u16 = fun r => andThen (r.nat 2) fun n r' => .ok (UInt16.ofNat n, r') := by
  funext r
  grind [u16, andThen]

theorem u32_eq_andThen : u32 = fun r => andThen (r.nat 4) fun n r' => .ok (UInt32.ofNat n, r') := by
  funext r
  grind [u32, andThen]

theorem u64_eq_andThen : u64 = fun r => andThen (r.nat 8) fun n r' => .ok (UInt64.ofNat n, r') := by
  funext r
  grind [u64, andThen]

theorem compactSize_eq_andThen :
    compactSize = fun r =>
      andThen (r.nat 1) fun marker r' =>
        if marker < 0xfd then .ok (UInt64.ofNat marker, r')
        else andThen (r'.nat (payloadWidth marker)) fun n r'' => .ok (UInt64.ofNat n, r'') := by
  funext r
  grind [compactSize, andThen]

theorem prefixed_eq_andThen :
    prefixed = fun r => andThen r.compactSize fun n r' => r'.bytes n.toNat := by
  funext r
  grind [prefixed, andThen]

end Reader

section Composition

variable {α β : Type} {read : Reader → ReadResult α} {form form' : α → Bytes → Prop}

theorem Accepts.congr (h : Accepts read form) (hform : ∀ a bs, form a bs ↔ form' a bs) :
    Accepts read form' := by
  intro r r' a
  simp only [h r r' a, hform]

theorem accepts_pure (a : α) :
    Accepts (fun r => .ok (a, r)) (fun a' bs => a' = a ∧ bs = []) := by
  rintro ⟨rest, position⟩ ⟨rest', position'⟩ a'
  simp only [Except.ok.injEq, Prod.mk.injEq, Reader.mk.injEq]
  constructor
  · rintro ⟨rfl, rfl, rfl⟩
    exact ⟨[], ⟨rfl, rfl⟩, rfl, rfl⟩
  · rintro ⟨bs, ⟨rfl, rfl⟩, hrest, hposition⟩
    exact ⟨rfl, hrest, hposition.symm⟩

theorem Accepts.andThen {next : α → Reader → ReadResult β} {formNext : α → β → Bytes → Prop}
    (h : Accepts read form) (hnext : ∀ a, Accepts (next a) (formNext a)) :
    Accepts (fun r => andThen (read r) next)
      (fun b bs => ∃ a s t, form a s ∧ formNext a b t ∧ bs = s ++ t) := by
  intro r r' b
  simp only [Wire.andThen]
  constructor
  · intro hread
    split at hread
    · cases hread
    · rename_i a r1 hfirst
      obtain ⟨s, hs, hrest, hposition⟩ := (h r r1 a).1 hfirst
      obtain ⟨t, ht, hrest', hposition'⟩ := (hnext a r1 r' b).1 hread
      refine ⟨s ++ t, ⟨a, s, t, hs, ht, rfl⟩, ?_, ?_⟩
      · rw [hrest, hrest', List.append_assoc]
      · rw [hposition', hposition, List.length_append, Nat.add_assoc]
  · rintro ⟨bs, ⟨a, s, t, hs, ht, rfl⟩, hrest, hposition⟩
    rw [List.append_assoc] at hrest
    rw [List.length_append, ← Nat.add_assoc] at hposition
    have hfirst : read r = .ok (a, ⟨t ++ r'.rest, r.position + s.length⟩) :=
      (h r _ a).2 ⟨s, hs, hrest, rfl⟩
    rw [hfirst]
    exact (hnext a _ r' b).2 ⟨t, ht, rfl, hposition⟩

theorem Accepts.map (h : Accepts read form) (f : α → β) :
    Accepts (fun r => Wire.andThen (read r) fun a r' => .ok (f a, r'))
      (fun b bs => ∃ a, b = f a ∧ form a bs) := by
  refine (h.andThen fun a => accepts_pure (f a)).congr fun b bs => ⟨?_, ?_⟩
  · rintro ⟨a, s, _, hs, ⟨rfl, rfl⟩, rfl⟩
    exact ⟨a, rfl, (List.append_nil s).symm ▸ hs⟩
  · rintro ⟨a, rfl, hs⟩
    exact ⟨a, bs, [], hs, ⟨rfl, rfl⟩, (List.append_nil bs).symm⟩

theorem Accepts.ite {c : Prop} [Decidable c] {read' : Reader → ReadResult α}
    (h : Accepts read form) (h' : Accepts read' form') :
    Accepts (fun r => if c then read r else read' r)
      (fun a bs => c ∧ form a bs ∨ ¬c ∧ form' a bs) := by
  by_cases hc : c
  · simpa only [hc, if_true, true_and, not_true_eq_false, false_and, or_false] using h
  · simpa only [hc, if_false, not_false_eq_true, true_and, false_and, false_or] using h'

theorem Accepts.reads {a : α} {bs : Bytes} (h : Accepts read form) (hform : form a bs) :
    Reads read bs a := by
  intro rest position
  exact (h _ _ a).2 ⟨bs, hform, rfl, rfl⟩

/-! ## Records -/

theorem Accepts.readRecord_eq_ok_iff (h : Accepts read form) {kind : RecordKind} {bs : Bytes}
    {a : α} : readRecord kind read bs = .ok a ↔ form a bs := by
  constructor
  · intro hrecord
    simp only [readRecord] at hrecord
    split at hrecord
    · cases hrecord
    · rename_i a' r hread
      split at hrecord
      · rename_i hfinished
        cases hrecord
        obtain ⟨s, hs, hrest, -⟩ := (h _ r a).1 hread
        have hbytes : bs = s := by
          rw [List.isEmpty_iff.1 hfinished, List.append_nil] at hrest
          exact hrest
        exact hbytes ▸ hs
      · cases hrecord
  · intro hform
    have hread := h.reads hform [] 0
    rw [List.append_nil] at hread
    rw [readRecord, Reader.ofBytes, hread]
    rfl

theorem Reads.readRecord_append {kind : RecordKind} {bs t : Bytes} {a : α} (h : Reads read bs a)
    (ht : t ≠ []) : readRecord kind read (bs ++ t) = .error (.trailing t.length kind) := by
  have hfinished : t.isEmpty = false := by simpa using ht
  rw [readRecord, Reader.ofBytes, h t 0]
  simp only [Reader.finished, hfinished, Reader.remaining]
  rfl

/-- A form that breaks off is no record: what is missing would be left over behind any value that
could be read instead. -/
theorem Accepts.readRecord_truncated (h : Accepts read form) {kind : RecordKind} {bs cut : Bytes}
    {a : α} (hform : form a bs) (hcut : cut <+: bs) (hne : cut ≠ bs) :
    ∃ e, readRecord kind read cut = .error (.truncated e) := by
  obtain ⟨missing, rfl⟩ := hcut
  have hmissing : missing ≠ [] := by
    rintro rfl
    exact hne (List.append_nil cut).symm
  rw [readRecord]
  cases hread : read (Reader.ofBytes cut) with
  | error e => exact ⟨e, rfl⟩
  | ok result =>
    obtain ⟨a', r⟩ := result
    obtain ⟨s, hs, hrest, -⟩ := (h _ r a').1 hread
    have hbytes : cut = s ++ r.rest := hrest
    have heq : (cut ++ missing) ++ [] = s ++ (r.rest ++ missing) := by
      rw [List.append_nil, ← List.append_assoc, ← hbytes]
    have hleft := ((h.reads hform).prefix_unique (h.reads hs) heq).2
    exact absurd (List.append_eq_nil_iff.1 hleft.symm).2 hmissing

/-- The bytes are one whole record: they are read back as it, more bytes are refused with their
number, and fewer bytes are refused. -/
structure WholeRecord {α : Type} (ofBytes : Bytes → Except RecordError α) (kind : RecordKind)
    (bs : Bytes) (a : α) : Prop where
  read_back : ofBytes bs = .ok a
  trailing : ∀ t, t ≠ [] → ofBytes (bs ++ t) = .error (.trailing t.length kind)
  truncated : ∀ cut, cut <+: bs → cut ≠ bs → ∃ e, ofBytes cut = .error (.truncated e)

theorem Accepts.wholeRecord (h : Accepts read form) (kind : RecordKind) {bs : Bytes} {a : α}
    (hform : form a bs) : WholeRecord (readRecord kind read) kind bs a where
  read_back := h.readRecord_eq_ok_iff.2 hform
  trailing := fun _ ht => (h.reads hform).readRecord_append ht
  truncated := fun _ hcut hne => h.readRecord_truncated hform hcut hne

end Composition

/-! ## Fields -/

theorem accepts_bytes (n : Nat) :
    Accepts (Reader.bytes n) (fun a bs => a = bs ∧ bs.length = n) := by
  rintro ⟨rest, position⟩ ⟨rest', position'⟩ a
  simp only [Reader.bytes]
  constructor
  · intro h
    split at h
    · rename_i hlen
      cases h
      exact ⟨rest.take n, ⟨rfl, hlen⟩, (List.take_append_drop n rest).symm, by rw [hlen]⟩
    · cases h
  · rintro ⟨bs, ⟨rfl, rfl⟩, rfl, rfl⟩
    simp

theorem accepts_digest32 : Accepts Reader.digest32 (fun d bs => bs = d.bytes) := by
  rintro ⟨rest, position⟩ ⟨rest', position'⟩ d
  dsimp only
  constructor
  · intro h
    simp only [Reader.digest32, Digest.ofBytes?] at h
    split at h
    · rename_i d' hd
      split at hd
      · rename_i hlen
        cases hd
        cases h
        exact ⟨rest.take 32, rfl, (List.take_append_drop 32 rest).symm, by rw [hlen]⟩
      · cases hd
    · cases h
  · rintro ⟨bs, rfl, rfl, rfl⟩
    have htake : (d.bytes ++ rest').take 32 = d.bytes := List.take_left' d.length_eq
    have hdrop : (d.bytes ++ rest').drop 32 = rest' := List.drop_left' d.length_eq
    simp only [Reader.digest32, htake, hdrop, Digest.ofBytes?_bytes, d.length_eq]

theorem accepts_nat (k : Nat) :
    Accepts (Reader.nat k) (fun n bs => n < 256 ^ k ∧ bs = Bytes.ofNatLE k n) := by
  rw [Reader.nat_eq_andThen]
  refine ((accepts_bytes k).map Bytes.toNatLE).congr fun n bs => ⟨?_, ?_⟩
  · rintro ⟨_, rfl, rfl, rfl⟩
    exact ⟨Bytes.toNatLE_lt _, (Bytes.ofNatLE_toNatLE _).symm⟩
  · rintro ⟨hlt, rfl⟩
    refine ⟨_, ?_, rfl, Bytes.length_ofNatLE k n⟩
    rw [Bytes.toNatLE_ofNatLE, Nat.mod_eq_of_lt hlt]

/-- A fixed-width number is read from the digits that are written for it. -/
theorem accepts_word {α : Type} {k : Nat} {ofNat : Nat → α} {toNat : α → Nat}
    (hlt : ∀ a, toNat a < 256 ^ k) (hto : ∀ a, ofNat (toNat a) = a)
    (hof : ∀ n, n < 256 ^ k → toNat (ofNat n) = n) :
    Accepts (fun r => andThen (r.nat k) fun n r' => .ok (ofNat n, r'))
      (fun a bs => bs = Bytes.ofNatLE k (toNat a)) := by
  refine ((accepts_nat k).map ofNat).congr fun a bs => ⟨?_, ?_⟩
  · rintro ⟨n, rfl, hn, rfl⟩
    rw [hof n hn]
  · rintro rfl
    exact ⟨toNat a, (hto a).symm, hlt a, rfl⟩

theorem accepts_u8 : Accepts Reader.u8 (fun n bs => bs = u8 n) := by
  rw [Reader.u8_eq_andThen]
  refine accepts_word UInt8.toNat_lt (fun n => UInt8.ofNat_toNat) fun n hn => ?_
  rw [UInt8.toNat_ofNat']
  exact Nat.mod_eq_of_lt hn

theorem accepts_u16 : Accepts Reader.u16 (fun n bs => bs = u16 n) := by
  rw [Reader.u16_eq_andThen]
  refine accepts_word UInt16.toNat_lt (fun n => UInt16.ofNat_toNat) fun n hn => ?_
  rw [UInt16.toNat_ofNat']
  exact Nat.mod_eq_of_lt hn

theorem accepts_u32 : Accepts Reader.u32 (fun n bs => bs = u32 n) := by
  rw [Reader.u32_eq_andThen]
  refine accepts_word UInt32.toNat_lt (fun n => UInt32.ofNat_toNat) fun n hn => ?_
  rw [UInt32.toNat_ofNat']
  exact Nat.mod_eq_of_lt hn

theorem accepts_u64 : Accepts Reader.u64 (fun n bs => bs = u64 n) := by
  rw [Reader.u64_eq_andThen]
  exact accepts_word UInt64.toNat_lt (fun n => UInt64.ofNat_toNat) fun n hn => toNat_ofNat_length hn

end Wire
end SpendScript
