import SpendScript.Proofs.Script.RoundTrip

/-!
# SpendScript.Proofs.Script.Decoding

Which byte strings are scripts, and where reading the others fails.

* `Script.readChunk_eq_ok_iff`, `Script.decodeFrom_eq_ok_iff`: bytes are read as chunks exactly if
  they are the written form of those chunks, and the chunks are well formed.
* `Script.decodeFrom_eq_error`, `Script.exists_decodeFrom_eq_error`: reading fails exactly if, after
  some well-formed chunks, the bytes break off inside a push. The fault names the place where that
  push begins.
* `Script.ofBytes_inverts_toBytes`: reading and writing are inverse bijections between those two
  sides.
-/

namespace SpendScript

namespace Chunk

/-- The bytes begin a well-formed push and break off before its end. -/
def CutPush (bs : Bytes) : Prop :=
  bs ≠ [] ∧ ∃ code data missing,
    (push code data).WellFormed ∧ missing ≠ [] ∧ bs ++ missing = (push code data).encode

theorem encode_eq_cons (c : Chunk) : c.encode = c.code :: c.encode.tail := by
  cases c <;> rfl

/-- A push behind a length field that says how long its data is. -/
theorem wellFormed_of_lengthField {code : UInt8} {field data : Bytes}
    (hwidth : lengthWidth code ≠ 0) (hfield : field.length = lengthWidth code)
    (hdata : data.length = Bytes.toNatLE field) :
    (push code data).WellFormed ∧ (push code data).encode = code :: (field ++ data) := by
  have hlt : data.length < 256 ^ lengthWidth code := by
    rw [hdata, ← hfield]
    exact Bytes.toNatLE_lt field
  have hdigits : Bytes.ofNatLE (lengthWidth code) data.length = field := by
    rw [hdata, ← hfield]
    exact Bytes.ofNatLE_toNatLE field
  refine ⟨?_, ?_⟩
  · rw [WellFormed, if_neg hwidth]
    exact hlt
  · rw [encode, hdigits, List.cons_append]

/-- A push whose opcode byte is the length of its data. -/
theorem wellFormed_of_direct {code : UInt8} {data : Bytes}
    (hcode : 1 ≤ code ∧ code ≤ Opcode.maxDirectPush) (hdata : data.length = code.toNat) :
    (push code data).WellFormed ∧ (push code data).encode = code :: data := by
  have hwidth := lengthWidth_of_le hcode.2
  refine ⟨?_, ?_⟩
  · rw [WellFormed, if_pos hwidth]
    exact ⟨hcode.1, hcode.2, hdata⟩
  · rw [encode, hwidth]
    rfl

/-- An opcode byte that introduces no push makes a chunk by itself. -/
theorem wellFormed_op {code : UInt8} (hdirect : ¬(1 ≤ code ∧ code ≤ Opcode.maxDirectPush))
    (hwidth : lengthWidth code = 0) : (op code).WellFormed := by
  have hne : ∀ b : UInt8, lengthWidth b ≠ 0 → code.toNat ≠ b.toNat := by
    intro b hb heq
    exact hb (UInt8.toNat_inj.1 heq ▸ hwidth)
  have h1 : code.toNat ≠ 0x4c := hne pushData1 (by decide)
  have h2 : code.toNat ≠ 0x4d := hne pushData2 (by decide)
  have h4 : code.toNat ≠ 0x4e := hne pushData4 (by decide)
  have hrange : ¬(1 ≤ code.toNat ∧ code.toNat ≤ 0x4b) := hdirect
  by_cases hzero : code.toNat = 0
  · exact .inl (UInt8.toNat_inj.1 hzero)
  · have hlt : 0x4e < code.toNat := by omega
    exact .inr (UInt8.lt_iff_toNat_lt.2 hlt)

end Chunk

namespace Script

open Chunk (CutPush)

/-! ## One chunk -/

theorem readData_eq_ok {offset n : Nat} {code : UInt8} {bs rest : Bytes} {c : Chunk}
    (h : readData offset code n bs = .ok (c, rest)) :
    ∃ data, data.length = n ∧ c = .push code data ∧ bs = data ++ rest := by
  simp only [readData] at h
  split at h
  · rename_i hlen
    cases h
    exact ⟨bs.take n, hlen, rfl, (List.take_append_drop n bs).symm⟩
  · cases h

theorem readData_eq_error {offset n : Nat} {code : UInt8} {bs : Bytes} {e : ScriptError}
    (h : readData offset code n bs = .error e) :
    bs.length < n ∧ e = .truncatedPush offset n bs.length := by
  simp only [readData] at h
  split at h
  · cases h
  · rename_i hlen
    cases h
    rw [List.length_take] at hlen
    exact ⟨by omega, rfl⟩

theorem readChunk_eq_ok_iff {offset : Nat} {code : UInt8} {bs rest : Bytes} {c : Chunk} :
    readChunk offset code bs = .ok (c, rest) ↔ c.WellFormed ∧ c.encode ++ rest = code :: bs := by
  constructor
  · intro h
    simp only [readChunk] at h
    split at h
    · rename_i hdirect
      obtain ⟨data, hdata, rfl, rfl⟩ := readData_eq_ok h
      obtain ⟨hwf, hencode⟩ := Chunk.wellFormed_of_direct hdirect hdata
      exact ⟨hwf, by rw [hencode, List.cons_append]⟩
    · rename_i hdirect
      split at h
      · rename_i hwidth
        cases h
        exact ⟨Chunk.wellFormed_op hdirect hwidth, rfl⟩
      · rename_i hwidth
        split at h
        · rename_i hfield
          obtain ⟨data, hdata, rfl, hdrop⟩ := readData_eq_ok h
          obtain ⟨hwf, hencode⟩ := Chunk.wellFormed_of_lengthField hwidth hfield hdata
          refine ⟨hwf, ?_⟩
          rw [hencode, List.cons_append, List.append_assoc, ← hdrop, List.take_append_drop]
        · cases h
  · rintro ⟨hwf, hbytes⟩
    rw [Chunk.encode_eq_cons, List.cons_append, List.cons.injEq] at hbytes
    obtain ⟨rfl, rfl⟩ := hbytes
    exact readChunk_encode hwf offset rest

/-- Data that falls short of its length is filled up with zeros, to see the push that was begun. -/
theorem length_append_zeros {bs : Bytes} {n : Nat} (h : bs.length < n) :
    (bs ++ List.replicate (n - bs.length) 0).length = n := by
  rw [List.length_append, List.length_replicate]
  omega

theorem zeros_ne_nil {k n : Nat} (h : k < n) : List.replicate (n - k) (0 : UInt8) ≠ [] := by
  intro hnil
  have hlen := congrArg List.length hnil
  rw [List.length_replicate, List.length_nil] at hlen
  omega

theorem readChunk_eq_error {offset : Nat} {code : UInt8} {bs : Bytes} {e : ScriptError}
    (h : readChunk offset code bs = .error e) :
    CutPush (code :: bs) ∧ ∃ needed available, e = .truncatedPush offset needed available := by
  simp only [readChunk] at h
  split at h
  · -- the data of a direct push runs out
    rename_i hdirect
    obtain ⟨hshort, rfl⟩ := readData_eq_error h
    obtain ⟨hwf, hencode⟩ := Chunk.wellFormed_of_direct hdirect (length_append_zeros hshort)
    refine ⟨⟨List.cons_ne_nil code bs, _, _, _, hwf, zeros_ne_nil hshort, ?_⟩, _, _, rfl⟩
    rw [hencode, List.cons_append]
  · split at h
    · cases h
    · rename_i hwidth
      split at h
      · -- the data behind a length field runs out
        rename_i hfield
        obtain ⟨hshort, rfl⟩ := readData_eq_error h
        obtain ⟨hwf, hencode⟩ :=
          Chunk.wellFormed_of_lengthField hwidth hfield (length_append_zeros hshort)
        refine ⟨⟨List.cons_ne_nil code bs, _, _, _, hwf, zeros_ne_nil hshort, ?_⟩, _, _, rfl⟩
        rw [hencode, List.cons_append, ← List.append_assoc, List.take_append_drop]
      · -- the length field itself runs out
        rename_i hfield
        cases h
        rw [List.length_take] at hfield
        have hshort : bs.length < Chunk.lengthWidth code := by omega
        let zeros : Bytes := List.replicate (Chunk.lengthWidth code - bs.length) 0
        let data : Bytes := List.replicate (Bytes.toNatLE (bs ++ zeros)) 0
        have hdata : data.length = Bytes.toNatLE (bs ++ zeros) := List.length_replicate
        obtain ⟨hwf, hencode⟩ :=
          Chunk.wellFormed_of_lengthField hwidth (length_append_zeros hshort) hdata
        have hmissing := List.append_ne_nil_of_left_ne_nil (zeros_ne_nil hshort) data
        refine ⟨⟨List.cons_ne_nil code bs, code, data, zeros ++ data, hwf, hmissing, ?_⟩, _, _, rfl⟩
        rw [hencode, List.cons_append, ← List.append_assoc]

theorem exists_readChunk_eq_error {code : UInt8} {bs : Bytes} (h : CutPush (code :: bs))
    (offset : Nat) :
    ∃ needed available,
      readChunk offset code bs = .error (.truncatedPush offset needed available) := by
  cases hread : readChunk offset code bs with
  | error e =>
    obtain ⟨-, needed, available, rfl⟩ := readChunk_eq_error hread
    exact ⟨needed, available, rfl⟩
  | ok r =>
    obtain ⟨c, rest⟩ := r
    obtain ⟨-, code', data, missing, hwf, hmissing, hbytes⟩ := h
    obtain ⟨hc, hread⟩ := readChunk_eq_ok_iff.1 hread
    -- what is missing would be left over after both chunks
    have hpush : readChunk offset code (bs ++ missing) = .ok (.push code' data, []) :=
      readChunk_eq_ok_iff.2 ⟨hwf, by rw [List.append_nil, ← hbytes, List.cons_append]⟩
    have hlonger : readChunk offset code (bs ++ missing) = .ok (c, rest ++ missing) :=
      readChunk_eq_ok_iff.2 ⟨hc, by rw [← List.append_assoc, hread, List.cons_append]⟩
    rw [hpush, Except.ok.injEq, Prod.mk.injEq] at hlonger
    exact absurd (List.append_eq_nil_iff.1 hlonger.2.symm).2 hmissing

/-! ## A whole script -/

theorem decodeFrom_cons_of_ok {offset : Nat} {code : UInt8} {bs rest : Bytes} {c : Chunk}
    (h : readChunk offset code bs = .ok (c, rest)) :
    decodeFrom offset (code :: bs) =
      match decodeFrom (offset + c.encodedLength) rest with
      | .error e => .error e
      | .ok cs => .ok (c :: cs) := by
  rw [decodeFrom]
  split
  · rename_i e he
    rw [h] at he
    cases he
  · rename_i c' rest' hread
    rw [h] at hread
    cases hread
    rfl

theorem decodeFrom_cons_of_error {offset : Nat} {code : UInt8} {bs : Bytes} {e : ScriptError}
    (h : readChunk offset code bs = .error e) : decodeFrom offset (code :: bs) = .error e := by
  rw [decodeFrom]
  split
  · rename_i e' he
    rw [h] at he
    cases he
    rfl
  · rename_i c rest hread
    rw [h] at hread
    cases hread

theorem decodeFrom_eq_ok_iff {offset : Nat} {bs : Bytes} {cs : List Chunk} :
    decodeFrom offset bs = .ok cs ↔ (∀ c ∈ cs, c.WellFormed) ∧ cs.flatMap Chunk.encode = bs := by
  constructor
  · intro h
    fun_induction decodeFrom offset bs generalizing cs with
    | case1 offset =>
      cases h
      exact ⟨by simp, rfl⟩
    | case2 offset code rest e hread => cases h
    | case3 offset code rest c rest' hread hle e hrest ih => cases h
    | case4 offset code rest c rest' hread hle cs' hrest ih =>
      cases h
      obtain ⟨hc, hbytes⟩ := readChunk_eq_ok_iff.1 hread
      obtain ⟨hcs, hrest⟩ := ih hrest
      refine ⟨by simpa using ⟨hc, hcs⟩, ?_⟩
      rw [List.flatMap_cons, hrest, hbytes]
  · rintro ⟨hcs, rfl⟩
    exact decodeFrom_flatMap_encode cs hcs offset

theorem exists_decodeFrom_eq_error {cs : List Chunk} {cut : Bytes} (hcs : ∀ c ∈ cs, c.WellFormed)
    (hcut : CutPush cut) (offset : Nat) :
    ∃ needed available, decodeFrom offset (cs.flatMap Chunk.encode ++ cut) =
      .error (.truncatedPush (offset + (cs.flatMap Chunk.encode).length) needed available) := by
  induction cs generalizing offset with
  | nil =>
    obtain ⟨code, bs, rfl⟩ := List.exists_cons_of_ne_nil hcut.1
    obtain ⟨needed, available, hread⟩ := exists_readChunk_eq_error hcut offset
    exact ⟨needed, available, decodeFrom_cons_of_error hread⟩
  | cons c cs ih =>
    obtain ⟨needed, available, hrest⟩ :=
      ih (fun c' hc' => hcs c' (List.mem_cons_of_mem c hc')) (offset + c.encodedLength)
    have hread := readChunk_encode (hcs c List.mem_cons_self) offset
      (cs.flatMap Chunk.encode ++ cut)
    refine ⟨needed, available, ?_⟩
    rw [List.flatMap_cons, List.append_assoc, Chunk.encode_eq_cons c, List.cons_append,
      decodeFrom_cons_of_ok hread, hrest]
    simp only [← Chunk.encode_eq_cons, List.length_append, Chunk.length_encode, Nat.add_assoc]

theorem decodeFrom_eq_error {offset : Nat} {bs : Bytes} {e : ScriptError}
    (h : decodeFrom offset bs = .error e) :
    ∃ (cs : List Chunk) (cut : Bytes),
      (∀ c ∈ cs, c.WellFormed) ∧ CutPush cut ∧ cs.flatMap Chunk.encode ++ cut = bs := by
  fun_induction decodeFrom offset bs with
  | case1 offset => cases h
  | case2 offset code rest e' hread =>
    exact ⟨[], code :: rest, by simp, (readChunk_eq_error hread).1, rfl⟩
  | case3 offset code rest c rest' hread hle e' hrest ih =>
    cases h
    obtain ⟨hc, hbytes⟩ := readChunk_eq_ok_iff.1 hread
    obtain ⟨cs, cut, hcs, hcut, hrest⟩ := ih hrest
    refine ⟨c :: cs, cut, by simpa using ⟨hc, hcs⟩, hcut, ?_⟩
    rw [List.flatMap_cons, List.append_assoc, hrest, hbytes]
  | case4 offset code rest c rest' hread hle cs' hrest ih => cases h

/-! ## Reading and writing -/

theorem ofBytes_eq_error_iff {bs : Bytes} {e : ScriptError} :
    ofBytes bs = .error e ↔ decodeFrom 0 bs = .error e := by
  rw [ofBytes]
  cases decodeFrom 0 bs <;> simp

theorem ofBytes_eq_ok_iff {bs : Bytes} {s : Script} :
    ofBytes bs = .ok s ↔ (∀ c ∈ s.chunks, c.WellFormed) ∧ s.toBytes = bs := by
  rw [toBytes, ← @decodeFrom_eq_ok_iff 0, ofBytes]
  cases s
  cases decodeFrom 0 bs <;> simp

theorem exists_ofBytes_append_cutPush {s : Script} {cut : Bytes}
    (hs : ∀ c ∈ s.chunks, c.WellFormed) (hcut : CutPush cut) :
    ∃ needed available, ofBytes (s.toBytes ++ cut) =
      .error (.truncatedPush s.toBytes.length needed available) := by
  obtain ⟨needed, available, h⟩ := exists_decodeFrom_eq_error hs hcut 0
  rw [Nat.zero_add] at h
  exact ⟨needed, available, ofBytes_eq_error_iff.2 h⟩

/-- Every byte string is either the byte form of a script of well-formed chunks, and is read as that
script, or it breaks off inside a push that follows such chunks, and reading fails at the place where
that push begins. A script comes back from its bytes exactly if its chunks are well formed. -/
theorem ofBytes_inverts_toBytes :
    (∀ bs, Xor
      (∃ s, ofBytes bs = .ok s ∧ (∀ c ∈ s.chunks, c.WellFormed) ∧ s.toBytes = bs)
      (∃ place needed available, ofBytes bs = .error (.truncatedPush place needed available) ∧
        ∃ s : Script, (∀ c ∈ s.chunks, c.WellFormed) ∧ s.toBytes = bs.take place ∧
          CutPush (bs.drop place))) ∧
    (∀ (s : Script) cut, (∀ c ∈ s.chunks, c.WellFormed) → CutPush cut →
      ∃ needed available, ofBytes (s.toBytes ++ cut) =
        .error (.truncatedPush s.toBytes.length needed available)) ∧
    (∀ s, ofBytes s.toBytes = .ok s ↔ ∀ c ∈ s.chunks, c.WellFormed) ∧
    (∀ s : Script, s.encodedLength = s.toBytes.length) ∧
    ∀ c : Chunk, c.encodedLength = c.encode.length := by
  refine ⟨?dichotomy, fun s cut => exists_ofBytes_append_cutPush, ?_, ?_, ?_⟩
  case dichotomy =>
    intro bs
    cases hread : ofBytes bs with
    | ok s =>
      obtain ⟨hs, hbytes⟩ := ofBytes_eq_ok_iff.1 hread
      refine .inl ⟨⟨s, rfl, hs, hbytes⟩, ?_⟩
      rintro ⟨place, needed, available, herror, -⟩
      cases herror
    | error e =>
      obtain ⟨cs, cut, hcs, hcut, rfl⟩ := decodeFrom_eq_error (ofBytes_eq_error_iff.1 hread)
      obtain ⟨needed, available, hplace⟩ := exists_ofBytes_append_cutPush (s := ⟨cs⟩) hcs hcut
      refine .inr ⟨⟨_, needed, available, hread.symm.trans hplace, ⟨cs⟩, hcs, ?_, ?_⟩, ?_⟩
      · exact (List.take_left' rfl).symm
      · rw [toBytes, List.drop_left' rfl]
        exact hcut
      · rintro ⟨s, hok, -⟩
        cases hok
  · intro s
    rw [ofBytes_eq_ok_iff]
    exact and_iff_left rfl
  · exact fun s => (length_toBytes s).symm
  · exact fun c => (Chunk.length_encode c).symm

end Script

end SpendScript
