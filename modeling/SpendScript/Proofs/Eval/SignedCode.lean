import SpendScript.Eval.SigCheck
import SpendScript.Proofs.Script.Decoding
import Mathlib.Data.List.Forall2

/-!
# SpendScript.Proofs.Eval.SignedCode

What a signature covers, chunk by chunk and on the wire. The chunks that are left out are found by
comparing chunks; in a script that was read from bytes this is the same as comparing the bytes of
each chunk, because a chunk that is read back from its bytes is fixed by them.

* `coveredCode`: the covered chunks, with those that are left out told by their bytes and lengths.
* `signedCode_eq_coveredCode`: the two agree in any list of chunks.
* `Script.Pieces`: the bytes of a script, cut at the ends of its chunks.
* `pushBytes`: the shortest push of some data, byte by byte.
* `toBytes_signedCode`: the covered bytes are the pieces, without some of them.
* `signedCode_perm`: the order of the signatures does not matter.
-/

namespace SpendScript

/-! ## Covered chunks -/

/-- The opcode byte of the shortest push of `n` bytes: their number, up to 75, and behind it one for
each width of a length field. -/
def PushedBy (n : Nat) (code : UInt8) : Prop :=
  (1 ≤ n ∧ n ≤ 0x4b ∧ code.toNat = n) ∨ (0x4b < n ∧ n ≤ 0xff ∧ code = 0x4c) ∨
    (0xff < n ∧ n ≤ 0xffff ∧ code = 0x4d) ∨ (0xffff < n ∧ n ≤ 0xffffffff ∧ code = 0x4e)

instance (n : Nat) (code : UInt8) : Decidable (PushedBy n code) :=
  inferInstanceAs (Decidable (_ ∨ _))

/-- The chunk is the shortest push of one of the signatures; an empty one is pushed by a zero
byte. -/
def IsSignaturePush (sigs : List Bytes) : Chunk → Prop
  | .op code => code = 0x00 ∧ [] ∈ sigs
  | .push code data => data ∈ sigs ∧ PushedBy data.length code

instance (sigs : List Bytes) : DecidablePred (IsSignaturePush sigs)
  | .op _ => inferInstanceAs (Decidable (_ ∧ _))
  | .push _ _ => inferInstanceAs (Decidable (_ ∧ _))

/-- The chunks from number `start` on, but for those that are the byte `0xab` alone and for the
shortest pushes of the signatures. -/
def coveredCode (chunks : List Chunk) (start : Nat) (sigs : List Bytes) : Script :=
  ⟨(chunks.drop start).filter fun c => c ≠ .op 0xab ∧ ¬IsSignaturePush sigs c⟩

theorem ofData?_eq_some_op_iff {data : Bytes} {code : UInt8} :
    Chunk.ofData? data = some (.op code) ↔ code = 0x00 ∧ data = [] := by
  constructor
  · intro h
    rcases Chunk.ofData?_cases h with ⟨rfl, hc⟩ | ⟨-, -, hc⟩ | ⟨-, -, hc⟩ | ⟨-, -, hc⟩ | ⟨-, -, hc⟩
    · cases hc
      exact ⟨rfl, rfl⟩
    all_goals cases hc
  · rintro ⟨rfl, rfl⟩
    rfl

theorem ofData?_eq_some_push_iff {data data' : Bytes} {code : UInt8} :
    Chunk.ofData? data' = some (.push code data) ↔ data' = data ∧ PushedBy data.length code := by
  constructor
  · intro h
    rcases Chunk.ofData?_cases h with ⟨-, hc⟩ | ⟨hne, hlen, hc⟩ | ⟨hlow, hlen, hc⟩ |
      ⟨hlow, hlen, hc⟩ | ⟨hlow, hlen, hc⟩
    · cases hc
    · cases hc
      exact ⟨rfl, .inl ⟨List.length_pos_of_ne_nil hne, hlen, Chunk.toNat_directCode hlen⟩⟩
    · cases hc
      exact ⟨rfl, .inr (.inl ⟨hlow, hlen, rfl⟩)⟩
    · cases hc
      exact ⟨rfl, .inr (.inr (.inl ⟨hlow, hlen, rfl⟩))⟩
    · cases hc
      exact ⟨rfl, .inr (.inr (.inr ⟨hlow, hlen, rfl⟩))⟩
  · rintro ⟨rfl, hcode⟩
    simp only [Chunk.ofData?]
    obtain ⟨hpos, hlen, hcode⟩ | ⟨hlow, hlen, rfl⟩ | ⟨hlow, hlen, rfl⟩ | ⟨hlow, hlen, rfl⟩ := hcode
    · rw [if_neg (by omega), if_pos hlen, ← hcode, UInt8.ofNat_toNat]
    · rw [if_neg (by omega), if_neg (by omega), if_pos hlen]
      rfl
    · rw [if_neg (by omega), if_neg (by omega), if_neg (by omega), if_pos hlen]
      rfl
    · rw [if_neg (by omega), if_neg (by omega), if_neg (by omega), if_neg (by omega), if_pos hlen]
      rfl

theorem isSignaturePush_iff {sigs : List Bytes} {c : Chunk} :
    IsSignaturePush sigs c ↔ c ∈ sigs.filterMap Chunk.ofData? := by
  rw [List.mem_filterMap]
  cases c with
  | op code =>
    simp only [IsSignaturePush, ofData?_eq_some_op_iff]
    constructor
    · rintro ⟨rfl, hmem⟩
      exact ⟨[], hmem, rfl, rfl⟩
    · rintro ⟨_, hmem, rfl, rfl⟩
      exact ⟨rfl, hmem⟩
  | push code data =>
    simp only [IsSignaturePush, ofData?_eq_some_push_iff]
    constructor
    · rintro ⟨hmem, hcode⟩
      exact ⟨data, hmem, rfl, hcode⟩
    · rintro ⟨_, hmem, rfl, hcode⟩
      exact ⟨hmem, hcode⟩

/-- The chunks need not be such as are read from bytes. -/
theorem signedCode_eq_coveredCode (chunks : List Chunk) (start : Nat) (sigs : List Bytes) :
    signedCode chunks start sigs = coveredCode chunks start sigs := by
  have hseparator : Chunk.ofOpcode .codeSeparator = .op 0xab := rfl
  simp only [signedCode, coveredCode, isSignaturePush_iff, hseparator]

/-! ## Pieces -/

namespace Chunk

/-- Chunks that are read back from their bytes differ in their bytes. -/
theorem encode_inj {c c' : Chunk} (hc : c.WellFormed) (hc' : c'.WellFormed) :
    c.encode = c'.encode ↔ c = c' := by
  constructor
  · intro h
    have hread := Script.readChunk_encode hc 0 []
    have hread' := Script.readChunk_encode hc' 0 []
    rw [encode_eq_cons c, encode_eq_cons c', List.cons.injEq] at h
    rw [h.1, h.2, hread', Except.ok.injEq, Prod.mk.injEq] at hread
    exact hread.1.symm
  · rintro rfl
    rfl

end Chunk

namespace Script

/-- The bytes `bs` of a script, cut into the bytes of its chunks. -/
structure Pieces (s : Script) (bs : Bytes) (pieces : List Bytes) : Prop where
  flatten : pieces.flatten = bs
  chunk : List.Forall₂ (fun c piece => ofBytes piece = .ok ⟨[c]⟩) s.chunks pieces

variable {s : Script} {bs : Bytes} {pieces : List Bytes}

theorem ofBytes_eq_ok_singleton_iff {c : Chunk} {piece : Bytes} :
    ofBytes piece = .ok ⟨[c]⟩ ↔ c.WellFormed ∧ c.encode = piece := by
  simp [ofBytes_eq_ok_iff, toBytes]

theorem pieces_of_ofBytes (h : ofBytes bs = .ok s) : s.Pieces bs (s.chunks.map Chunk.encode) := by
  obtain ⟨hs, rfl⟩ := ofBytes_eq_ok_iff.1 h
  refine ⟨(List.flatMap_def ..).symm, ?_⟩
  rw [List.forall₂_map_right_iff, List.forall₂_same]
  intro c hc
  exact ofBytes_eq_ok_singleton_iff.2 ⟨hs c hc, rfl⟩

end Script

/-! ## The shortest push -/

/-- The push of `data` that is left out where it is a signature: its length in the opcode byte, or
in one, two or four bytes behind the opcode for that, and a zero byte if it is empty. -/
def pushBytes (data : Bytes) : Bytes :=
  if data.length = 0 then [0x00]
  else if data.length ≤ 0x4b then UInt8.ofNat data.length :: data
  else if data.length ≤ 0xff then 0x4c :: Bytes.ofNatLE 1 data.length ++ data
  else if data.length ≤ 0xffff then 0x4d :: Bytes.ofNatLE 2 data.length ++ data
  else 0x4e :: Bytes.ofNatLE 4 data.length ++ data

theorem encode_of_ofData? {data : Bytes} {c : Chunk} (h : Chunk.ofData? data = some c) :
    c.encode = pushBytes data := by
  unfold pushBytes
  rcases Chunk.ofData?_cases h with ⟨rfl, rfl⟩ | ⟨hne, hlen, rfl⟩ | ⟨hlow, hlen, rfl⟩ |
    ⟨hlow, hlen, rfl⟩ | ⟨hlow, hlen, rfl⟩
  · rfl
  · have hpos := List.length_pos_of_ne_nil hne
    rw [if_neg (by omega), if_pos hlen, Chunk.encode,
      Chunk.lengthWidth_of_le (Chunk.directCode_le hlen)]
    rfl
  · rw [if_neg (by omega), if_neg (by omega), if_pos hlen]
    rfl
  · rw [if_neg (by omega), if_neg (by omega), if_neg (by omega), if_pos hlen]
    rfl
  · rw [if_neg (by omega), if_neg (by omega), if_neg (by omega), if_neg (by omega)]
    rfl

theorem ofData?_eq_some_iff {data : Bytes} {c : Chunk} (hlen : data.length < 2 ^ 32)
    (hc : c.WellFormed) : Chunk.ofData? data = some c ↔ pushBytes data = c.encode := by
  obtain ⟨push, hpush⟩ := Chunk.exists_ofData? (Nat.le_pred_of_lt hlen)
  rw [hpush, ← encode_of_ofData? hpush, Option.some.injEq,
    Chunk.encode_inj (Chunk.wellFormed_of_ofData? hpush) hc]

/-! ## Covered bytes -/

section Covered

variable {chunks : List Chunk} {start : Nat} {sigs : List Bytes}

/-- A chunk is left out where its bytes are a separator or the push of a signature. -/
theorem keeps_iff {c : Chunk} (hc : c.WellFormed) (hsigs : ∀ sig ∈ sigs, sig.length < 2 ^ 32) :
    (c ≠ .ofOpcode .codeSeparator ∧ c ∉ sigs.filterMap Chunk.ofData?) ↔
      (c.encode ≠ [0xab] ∧ c.encode ∉ sigs.map pushBytes) := by
  have hseparator : (Chunk.ofOpcode .codeSeparator).WellFormed := by decide
  have hbytes : (Chunk.ofOpcode .codeSeparator).encode = [0xab] := rfl
  rw [Ne, Ne, ← hbytes, Chunk.encode_inj hc hseparator, List.mem_filterMap, List.mem_map]
  have hpushes : (∃ sig ∈ sigs, Chunk.ofData? sig = some c) ↔
      ∃ sig ∈ sigs, pushBytes sig = c.encode :=
    exists_congr fun sig => and_congr_right fun hsig => ofData?_eq_some_iff (hsigs sig hsig) hc
  rw [hpushes]

/-- What a signature covers are the pieces of the script from the separator on, in their order,
without the separators and the shortest pushes of the signatures. -/
theorem toBytes_signedCode (hchunks : ∀ c ∈ chunks, c.WellFormed)
    (hsigs : ∀ sig ∈ sigs, sig.length < 2 ^ 32) :
    (signedCode chunks start sigs).toBytes =
      (((chunks.map Chunk.encode).drop start).filter
        fun piece => piece ≠ [0xab] ∧ piece ∉ sigs.map pushBytes).flatten := by
  rw [signedCode, Script.toBytes, List.flatMap_def, ← List.map_drop, List.filter_map]
  congr 2
  apply List.filter_congr
  intro c hc
  have hkeeps := keeps_iff (hchunks c (List.mem_of_mem_drop hc)) hsigs
  simpa only [Function.comp_apply, decide_eq_decide] using hkeeps

theorem signedCode_perm {sigs' : List Bytes} (h : sigs.Perm sigs') :
    signedCode chunks start sigs' = signedCode chunks start sigs := by
  have hmem : ∀ c, c ∈ sigs'.filterMap Chunk.ofData? ↔ c ∈ sigs.filterMap Chunk.ofData? :=
    fun c => (h.filterMap Chunk.ofData?).mem_iff.symm
  simp only [signedCode, hmem]

end Covered

end SpendScript
