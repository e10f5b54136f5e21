import SpendScript.Proofs.Script.Decoding
import SpendScript.Script.Class

/-!
# SpendScript.Proofs.Script.HashTemplates

The locking scripts that pay to a hash. Their templates ask for a push of 20 bytes, not for the form
of that push, and a byte string has four forms for it. So a script that fits such a template is
fixed by the hash and by the opcode byte that pushes it.

* `Script.isScriptHashOut_iff`, `Script.isPubkeyHashOut_iff`: the scripts that fit a template.
* `Chunk.wellFormed_hashPush_iff`: the opcode bytes that push a hash.
* `Script.isScriptHashOut_iff_of_ofBytes`: the byte strings whose script pays to the hash of a
  script.
-/

namespace SpendScript

namespace Chunk

theorem pushes_length_iff {c : Chunk} {n : Nat} :
    c.pushes (·.length == n) = true ↔ ∃ (code : UInt8) (d : Digest n), c = .push code d.bytes := by
  constructor
  · intro h
    cases c with
    | op code => cases h
    | push code data =>
      have hlength : data.length = n := by simpa [pushes] using h
      exact ⟨code, ⟨data, hlength⟩, rfl⟩
  · rintro ⟨code, d, rfl⟩
    simp [pushes, d.length_eq]

/-- The opcode bytes that can push 20 bytes. -/
def hashCodes : List UInt8 := [20, pushData1, pushData2, pushData4]

/-- The bytes that an opcode byte puts in front of 20 bytes that it pushes. -/
def hashHead (code : UInt8) : Bytes := code :: Bytes.ofNatLE (lengthWidth code) 20

/-- The bytes that can stand in front of 20 bytes to push them. -/
def hashHeads : List Bytes := [[0x14], [0x4c, 0x14], [0x4d, 0x14, 0], [0x4e, 0x14, 0, 0, 0]]

theorem hashHeads_eq : hashHeads = hashCodes.map hashHead := by decide

theorem encode_hashPush (code : UInt8) (hash : Digest 20) :
    (push code hash.bytes).encode = hashHead code ++ hash.bytes := by
  rw [encode, hash.length_eq, hashHead]

theorem shortest_hashPush (code : UInt8) (hash : Digest 20) :
    (push code hash.bytes).shortest = push 20 hash.bytes := by
  have hne : hash.bytes ≠ [] := by
    intro hnil
    have hlength := hash.length_eq
    rw [hnil] at hlength
    cases hlength
  have hle : hash.bytes.length ≤ 0x4b := by
    rw [hash.length_eq]
    decide
  rw [shortest_push_of_length_le hne hle, hash.length_eq]
  rfl

theorem wellFormed_hashPush_iff {code : UInt8} {hash : Digest 20} :
    (push code hash.bytes).WellFormed ↔ code ∈ hashCodes := by
  have hlimit : ∀ width, 0 < width → 20 < 256 ^ width := by
    intro width hwidth
    calc
      20 < 256 ^ 1 := by decide
      _ ≤ 256 ^ width := Nat.pow_le_pow_right (by decide) hwidth
  rw [WellFormed, hash.length_eq]
  constructor
  · intro h
    split at h
    · have hcode : code = 20 := UInt8.toNat_inj.1 h.2.2.symm
      rw [hcode]
      decide
    · rename_i hwidth
      by_contra hmem
      simp only [hashCodes, List.mem_cons, not_or] at hmem
      simp [lengthWidth, hmem] at hwidth
  · intro h
    simp only [hashCodes, List.mem_cons, List.not_mem_nil, or_false] at h
    rcases h with rfl | rfl | rfl | rfl
    · decide
    all_goals exact hlimit _ (by decide)

end Chunk

namespace Script

open Chunk (hashCodes hashHead hashHeads)

/-- `OP_HASH160 hash OP_EQUAL`, with the hash behind the opcode byte `code`. -/
def scriptHashOutBy (code : UInt8) (hash : Digest 20) : Script :=
  ⟨[.ofOpcode .hash160, .push code hash.bytes, .ofOpcode .equal]⟩

/-- `OP_DUP OP_HASH160 hash OP_EQUALVERIFY OP_CHECKSIG`, with the hash behind the opcode byte
`code`. -/
def pubkeyHashOutBy (code : UInt8) (hash : Digest 20) : Script :=
  ⟨[.ofOpcode .dup, .ofOpcode .hash160, .push code hash.bytes, .ofOpcode .equalVerify,
    .ofOpcode .checkSig]⟩

theorem scriptHashOut_eq (hash : Digest 20) : scriptHashOut hash = scriptHashOutBy 20 hash := rfl

theorem shortest_scriptHashOutBy (code : UInt8) (hash : Digest 20) :
    (scriptHashOutBy code hash).shortest = scriptHashOut hash := by
  rw [scriptHashOutBy, shortest, List.map_cons, List.map_cons, Chunk.shortest_hashPush]
  rfl

theorem shortest_pubkeyHashOutBy (code : UInt8) (hash : Digest 20) :
    (pubkeyHashOutBy code hash).shortest = pubkeyHashOut hash := by
  rw [pubkeyHashOutBy, shortest, List.map_cons, List.map_cons, List.map_cons,
    Chunk.shortest_hashPush]
  rfl

theorem isScriptHashOut_iff {s : Script} :
    s.isScriptHashOut = true ↔ ∃ code hash, s = scriptHashOutBy code hash := by
  cases s with
  | mk chunks =>
    constructor
    · intro h
      simp only [isScriptHashOut] at h
      split at h
      · simp only [Bool.and_eq_true, beq_iff_eq] at h
        obtain ⟨⟨rfl, hpush⟩, rfl⟩ := h
        obtain ⟨code, hash, rfl⟩ := Chunk.pushes_length_iff.1 hpush
        exact ⟨code, hash, rfl⟩
      · cases h
    · rintro ⟨code, hash, h⟩
      rw [h]
      simp [isScriptHashOut, scriptHashOutBy, Chunk.pushes, hash.length_eq]

theorem isPubkeyHashOut_iff {s : Script} :
    s.isPubkeyHashOut = true ↔ ∃ code hash, s = pubkeyHashOutBy code hash := by
  cases s with
  | mk chunks =>
    constructor
    · intro h
      simp only [isPubkeyHashOut] at h
      split at h
      · simp only [Bool.and_eq_true, beq_iff_eq] at h
        obtain ⟨⟨⟨⟨rfl, rfl⟩, hpush⟩, rfl⟩, rfl⟩ := h
        obtain ⟨code, hash, rfl⟩ := Chunk.pushes_length_iff.1 hpush
        exact ⟨code, hash, rfl⟩
      · cases h
    · rintro ⟨code, hash, h⟩
      rw [h]
      simp [isPubkeyHashOut, pubkeyHashOutBy, Chunk.pushes, hash.length_eq]

/-! ## Byte strings -/

theorem eq_iff_of_ofBytes {bs : Bytes} {s t : Script} (hread : ofBytes bs = .ok s)
    (ht : ∀ c ∈ t.chunks, c.WellFormed) : s = t ↔ bs = t.toBytes := by
  constructor
  · rintro rfl
    exact (ofBytes_eq_ok_iff.1 hread).2.symm
  · rintro rfl
    rw [ofBytes_toBytes ht, Except.ok.injEq] at hread
    exact hread.symm

theorem toBytes_scriptHashOutBy (code : UInt8) (hash : Digest 20) :
    (scriptHashOutBy code hash).toBytes = 0xa9 :: (hashHead code ++ hash.bytes ++ [0x87]) := by
  rw [toBytes, scriptHashOutBy, List.flatMap_cons, List.flatMap_cons, Chunk.encode_hashPush]
  rfl

theorem wellFormed_scriptHashOutBy_iff {code : UInt8} {hash : Digest 20} :
    (∀ c ∈ (scriptHashOutBy code hash).chunks, c.WellFormed) ↔ code ∈ hashCodes := by
  have hfirst : (Chunk.ofOpcode .hash160).WellFormed := by decide
  have hlast : (Chunk.ofOpcode .equal).WellFormed := by decide
  simp only [scriptHashOutBy, List.forall_mem_cons, Chunk.wellFormed_hashPush_iff, hfirst, hlast,
    List.not_mem_nil, IsEmpty.forall_iff, implies_true, and_true, true_and]

/-- A byte string is read as a script that pays to the hash of a script exactly if it is such a
script with the hash pushed in one of the four forms. -/
theorem isScriptHashOut_iff_of_ofBytes {bs : Bytes} {s : Script} (hread : ofBytes bs = .ok s) :
    s.isScriptHashOut = true ↔
      ∃ head ∈ hashHeads, ∃ hash : Digest 20, bs = 0xa9 :: (head ++ hash.bytes ++ [0x87]) := by
  rw [isScriptHashOut_iff, Chunk.hashHeads_eq]
  constructor
  · rintro ⟨code, hash, rfl⟩
    obtain ⟨hform, hbytes⟩ := ofBytes_eq_ok_iff.1 hread
    have hcode : code ∈ hashCodes := wellFormed_scriptHashOutBy_iff.1 hform
    refine ⟨hashHead code, List.mem_map_of_mem hcode, hash, ?_⟩
    rw [← hbytes, toBytes_scriptHashOutBy]
  · rintro ⟨head, hhead, hash, hbytes⟩
    obtain ⟨code, hcode, rfl⟩ := List.mem_map.1 hhead
    refine ⟨code, hash, (eq_iff_of_ofBytes hread (wellFormed_scriptHashOutBy_iff.2 hcode)).2 ?_⟩
    rw [hbytes, toBytes_scriptHashOutBy]

theorem eq_scriptHashOut_iff_of_ofBytes {bs : Bytes} {s : Script} (hread : ofBytes bs = .ok s)
    (hash : Digest 20) :
    s = scriptHashOut hash ↔ bs = 0xa9 :: 0x14 :: (hash.bytes ++ [0x87]) := by
  have hform : ∀ c ∈ (scriptHashOutBy 20 hash).chunks, c.WellFormed :=
    wellFormed_scriptHashOutBy_iff.2 List.mem_cons_self
  rw [scriptHashOut_eq, eq_iff_of_ofBytes hread hform, toBytes_scriptHashOutBy]
  rfl

/-- A script that pays to the hash of a script, with the hash behind a length byte of its own. -/
def longPush : Script := scriptHashOutBy Chunk.pushData1 (.zero 20)

theorem ofBytes_longPush : ofBytes longPush.toBytes = .ok longPush := ofBytes_toBytes (by decide)

end Script

end SpendScript
