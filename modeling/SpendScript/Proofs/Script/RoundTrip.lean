import SpendScript.Proofs.Digits
import SpendScript.Script.Basic

/-!
# SpendScript.Proofs.Script.RoundTrip

Scripts read back from their byte form.

* `Chunk.WellFormed`: the chunks that the bytes of a script can stand for.
* `Script.ofBytes_toBytes`: a script of such chunks is read back from its bytes.
* `Chunk.wellFormed_of_ofData?`: the shortest push of any data is such a chunk.
-/

namespace SpendScript

namespace Chunk

/-- A lone byte must not be one that introduces a push, and the length of pushed data must be the one
that the opcode byte says, or fit the bytes that follow it. -/
def WellFormed : Chunk → Prop
  | .op code => code = 0 ∨ pushData4 < code
  | .push code data =>
    if lengthWidth code = 0 then 1 ≤ code ∧ code ≤ Opcode.maxDirectPush ∧ data.length = code.toNat
    else data.length < 256 ^ lengthWidth code

instance (c : Chunk) : Decidable c.WellFormed := by
  cases c <;> unfold WellFormed <;> infer_instance

theorem lengthWidth_of_le {code : UInt8} (h : code ≤ Opcode.maxDirectPush) :
    lengthWidth code = 0 := by
  have hne : ∀ b : UInt8, Opcode.maxDirectPush < b → code ≠ b := by
    rintro b hb rfl
    exact UInt8.not_lt.2 h hb
  simp [lengthWidth, hne pushData1 (by decide), hne pushData2 (by decide),
    hne pushData4 (by decide)]

theorem lengthWidth_of_lt {code : UInt8} (h : pushData4 < code) : lengthWidth code = 0 := by
  have hne : ∀ b : UInt8, b ≤ pushData4 → code ≠ b := by
    rintro b hb rfl
    exact UInt8.not_lt.2 hb h
  simp [lengthWidth, hne pushData1 (by decide), hne pushData2 (by decide),
    hne pushData4 (by decide)]

theorem lengthWidth_le (code : UInt8) : lengthWidth code ≤ 4 := by
  simp only [lengthWidth]
  split_ifs
  all_goals decide

/-! ## The shortest push -/

/-- The shortest push of `data` is the opcode for zero, or has one of the four forms. -/
theorem ofData?_cases {data : Bytes} {c : Chunk} (h : ofData? data = some c) :
    data = [] ∧ c = ofOpcode .zero ∨
      data ≠ [] ∧ data.length ≤ 0x4b ∧ c = .push (UInt8.ofNat data.length) data ∨
      0x4b < data.length ∧ data.length ≤ 0xff ∧ c = .push pushData1 data ∨
      0xff < data.length ∧ data.length ≤ 0xffff ∧ c = .push pushData2 data ∨
      0xffff < data.length ∧ data.length ≤ 0xffffffff ∧ c = .push pushData4 data := by
  simp only [ofData?] at h
  split at h
  · cases h
    exact .inl ⟨List.length_eq_zero_iff.1 ‹_›, rfl⟩
  · rename_i hne
    split at h
    · cases h
      exact .inr (.inl ⟨by simpa using hne, ‹_›, rfl⟩)
    · split at h
      · cases h
        exact .inr (.inr (.inl ⟨by omega, ‹_›, rfl⟩))
      · split at h
        · cases h
          exact .inr (.inr (.inr (.inl ⟨by omega, ‹_›, rfl⟩)))
        · split at h
          · cases h
            exact .inr (.inr (.inr (.inr ⟨by omega, ‹_›, rfl⟩)))
          · cases h

theorem ofData?_of_length_le {data : Bytes} (hne : data ≠ []) (h : data.length ≤ 0x4b) :
    ofData? data = some (.push (UInt8.ofNat data.length) data) := by
  simp only [ofData?]
  rw [if_neg (by simpa using hne), if_pos h]

theorem exists_ofData? {data : Bytes} (h : data.length ≤ 0xffffffff) :
    ∃ c, ofData? data = some c := by
  simp only [ofData?]
  split_ifs
  all_goals exact ⟨_, rfl⟩

theorem toNat_directCode {data : Bytes} (h : data.length ≤ 0x4b) :
    (UInt8.ofNat data.length).toNat = data.length := by
  rw [Bytes.toNat_ofNat_byte]
  omega

theorem directCode_le {data : Bytes} (h : data.length ≤ 0x4b) :
    UInt8.ofNat data.length ≤ Opcode.maxDirectPush := by
  rw [UInt8.le_iff_toNat_le, toNat_directCode h]
  exact h

theorem payload_of_ofData? {data : Bytes} {c : Chunk} (h : ofData? data = some c) :
    c.payload = data := by
  rcases ofData?_cases h with ⟨rfl, rfl⟩ | ⟨-, -, rfl⟩ | ⟨-, -, rfl⟩ | ⟨-, -, rfl⟩ | ⟨-, -, rfl⟩
  all_goals rfl

theorem code_le_of_ofData? {data : Bytes} {c : Chunk} (h : ofData? data = some c) :
    c.code ≤ pushData4 := by
  rcases ofData?_cases h with ⟨-, rfl⟩ | ⟨-, hlen, rfl⟩ | ⟨-, -, rfl⟩ | ⟨-, -, rfl⟩ | ⟨-, -, rfl⟩
  · decide
  · exact UInt8.le_trans (directCode_le hlen) (by decide)
  · exact (by decide : pushData1 ≤ pushData4)
  · exact (by decide : pushData2 ≤ pushData4)
  · exact UInt8.le_refl _

theorem isMinimalPush_push {code : UInt8} {data : Bytes} (h : 1 < data.length) :
    (push code data).isMinimalPush =
      if data.length ≤ 0x4b then code.toNat == data.length
      else if data.length ≤ 0xff then code == pushData1
      else if data.length ≤ 0xffff then code == pushData2
      else true := by
  match data, h with
  | _ :: _ :: _, _ => rfl

/-- The shortest push of data is taken for that, unless the data is a single byte: an opcode of its
own may push that. -/
theorem isMinimalPush_of_ofData? {data : Bytes} {c : Chunk} (h : ofData? data = some c)
    (hlone : data.length ≠ 1) : c.isMinimalPush = true := by
  rcases ofData?_cases h with ⟨-, rfl⟩ | ⟨hne, hlen, rfl⟩ | ⟨hlow, hlen, rfl⟩ | ⟨hlow, hlen, rfl⟩ |
    ⟨hlow, hlen, rfl⟩
  · rfl
  · have hpos := List.length_pos_of_ne_nil hne
    rw [isMinimalPush_push (by omega), if_pos hlen, toNat_directCode hlen, beq_self_eq_true]
  · rw [isMinimalPush_push (by omega), if_neg (by omega), if_pos hlen, beq_self_eq_true]
  · rw [isMinimalPush_push (by omega), if_neg (by omega), if_neg (by omega), if_pos hlen,
      beq_self_eq_true]
  · rw [isMinimalPush_push (by omega), if_neg (by omega), if_neg (by omega), if_neg (by omega)]

/-- The chunk with its data pushed in the shortest form. -/
def shortest : Chunk → Chunk
  | .op code => .op code
  | .push code data => (ofData? data).getD (.push code data)

theorem shortest_push_of_length_le {code : UInt8} {data : Bytes} (hne : data ≠ [])
    (h : data.length ≤ 0x4b) :
    (push code data).shortest = push (UInt8.ofNat data.length) data := by
  rw [shortest, ofData?_of_length_le hne h]
  rfl

/-- If the chunk is a push, its form is the shortest for its data. -/
def IsShortest (c : Chunk) : Prop := ∀ data, c.data? = some data → ofData? data = some c

instance (c : Chunk) : Decidable c.IsShortest :=
  inferInstanceAs (Decidable (∀ data ∈ c.data?, ofData? data = some c))

theorem wellFormed_of_ofData? {data : Bytes} {c : Chunk} (h : ofData? data = some c) :
    c.WellFormed := by
  rcases ofData?_cases h with ⟨-, rfl⟩ | ⟨hne, hlen, rfl⟩ | ⟨-, hlen, rfl⟩ | ⟨-, hlen, rfl⟩ |
    ⟨-, hlen, rfl⟩
  · decide
  · rw [WellFormed, if_pos (lengthWidth_of_le (directCode_le hlen))]
    refine ⟨?_, directCode_le hlen, (toNat_directCode hlen).symm⟩
    rw [UInt8.le_iff_toNat_le, toNat_directCode hlen]
    exact List.length_pos_of_ne_nil hne
  · exact Nat.lt_succ_of_le hlen
  · exact Nat.lt_succ_of_le hlen
  · exact Nat.lt_succ_of_le hlen

theorem data?_of_ofData? {data : Bytes} {c : Chunk} (h : ofData? data = some c) (hne : data ≠ []) :
    c.data? = some data := by
  rcases ofData?_cases h with ⟨rfl, -⟩ | ⟨-, -, rfl⟩ | ⟨-, -, rfl⟩ | ⟨-, -, rfl⟩ | ⟨-, -, rfl⟩
  · exact absurd rfl hne
  all_goals rfl

theorem length_le_of_wellFormed {code : UInt8} {data : Bytes} (h : (push code data).WellFormed) :
    data.length ≤ 0xffffffff := by
  rw [WellFormed] at h
  split at h
  · have hcode := UInt8.le_iff_toNat_le.1 h.2.1
    have hmax : Opcode.maxDirectPush.toNat = 0x4b := rfl
    omega
  · have hpow : 256 ^ lengthWidth code ≤ 256 ^ 4 :=
      Nat.pow_le_pow_right (by decide) (lengthWidth_le code)
    omega

/-- Every push that is read has a shortest form. -/
theorem ofData?_shortest {code : UInt8} {data : Bytes} (h : (push code data).WellFormed) :
    ofData? data = some (push code data).shortest := by
  obtain ⟨c, hc⟩ := exists_ofData? (length_le_of_wellFormed h)
  rw [shortest, hc, Option.getD_some]

theorem shortest_eq_self_iff {c : Chunk} (h : c.WellFormed) : c.shortest = c ↔ c.IsShortest := by
  cases c with
  | op code => exact iff_of_true rfl nofun
  | push code data =>
    have hdata := ofData?_shortest h
    constructor
    · rintro heq _ ⟨rfl⟩
      rw [hdata, heq]
    · intro hshortest
      rw [hshortest data rfl, Option.some.injEq] at hdata
      exact hdata.symm

/-- A byte that stands alone is not the length of a push. -/
theorem not_direct_of_wellFormed {code : UInt8} (h : (op code).WellFormed) :
    ¬(1 ≤ code ∧ code ≤ Opcode.maxDirectPush) := by
  rcases h with rfl | h
  · decide
  · intro hle
    exact absurd (UInt8.lt_of_lt_of_le h hle.2) (by decide)

end Chunk

namespace Script

/-- The script with all its pushes in the shortest form. -/
def shortest (s : Script) : Script := ⟨s.chunks.map Chunk.shortest⟩

theorem shortest_eq_self_iff {s : Script} (h : ∀ c ∈ s.chunks, c.WellFormed) :
    s.shortest = s ↔ ∀ c ∈ s.chunks, c.IsShortest := by
  calc
    s.shortest = s ↔ s.chunks.map Chunk.shortest = s.chunks.map id := by
      cases s
      simp [shortest]
    _ ↔ ∀ c ∈ s.chunks, c.shortest = c := List.map_inj_left
    _ ↔ ∀ c ∈ s.chunks, c.IsShortest :=
      forall₂_congr fun c hc => Chunk.shortest_eq_self_iff (h c hc)

theorem readData_append {n : Nat} {data : Bytes} (h : data.length = n) (offset : Nat)
    (code : UInt8) (rest : Bytes) :
    readData offset code n (data ++ rest) = .ok (.push code data, rest) := by
  simp only [readData, List.take_left' h, List.drop_left' h, if_pos h]

theorem readChunk_encode {c : Chunk} (h : c.WellFormed) (offset : Nat) (rest : Bytes) :
    readChunk offset c.code (c.encode.tail ++ rest) = .ok (c, rest) := by
  cases c with
  | op code =>
    have hdirect := Chunk.not_direct_of_wellFormed h
    have hwidth : Chunk.lengthWidth code = 0 := by
      rcases h with rfl | h
      · rfl
      · exact Chunk.lengthWidth_of_lt h
    simp only [readChunk, Chunk.code, hdirect, if_false, hwidth, if_true]
    rfl
  | push code data =>
    rw [Chunk.WellFormed] at h
    by_cases hwidth : Chunk.lengthWidth code = 0
    · rw [if_pos hwidth] at h
      obtain ⟨hone, hlow, hlen⟩ := h
      rw [readChunk, Chunk.encode, Chunk.code, if_pos ⟨hone, hlow⟩, hwidth]
      exact readData_append hlen offset code rest
    · rw [if_neg hwidth] at h
      have hdirect : ¬(1 ≤ code ∧ code ≤ Opcode.maxDirectPush) := by
        intro hle
        exact hwidth (Chunk.lengthWidth_of_le hle.2)
      have hbytes := Bytes.length_ofNatLE (Chunk.lengthWidth code) data.length
      have htail : (Chunk.push code data).encode.tail ++ rest =
          Bytes.ofNatLE (Chunk.lengthWidth code) data.length ++ (data ++ rest) := by
        simp [Chunk.encode]
      rw [htail]
      simp only [readChunk, Chunk.code, hdirect, if_false, hwidth, List.take_left' hbytes,
        List.drop_left' hbytes, hbytes, if_true, Bytes.toNatLE_ofNatLE, Nat.mod_eq_of_lt h]
      exact readData_append rfl offset code rest

theorem decodeFrom_flatMap_encode (cs : List Chunk) (h : ∀ c ∈ cs, c.WellFormed) :
    ∀ offset, decodeFrom offset (cs.flatMap Chunk.encode) = .ok cs := by
  induction cs with
  | nil =>
    intro offset
    rw [List.flatMap_nil, decodeFrom]
  | cons c cs ih =>
    intro offset
    have hc := readChunk_encode (h c List.mem_cons_self) offset (cs.flatMap Chunk.encode)
    have hencode : c.encode = c.code :: c.encode.tail := by cases c <;> rfl
    rw [List.flatMap_cons, hencode, List.cons_append, decodeFrom]
    split
    · rename_i e he
      rw [hc] at he
      cases he
    · rename_i c' rest hread
      rw [hc] at hread
      cases hread
      rw [ih fun c' hc' => h c' (List.mem_cons_of_mem c hc')]

theorem ofBytes_toBytes {s : Script} (h : ∀ c ∈ s.chunks, c.WellFormed) :
    ofBytes s.toBytes = .ok s := by
  rw [ofBytes, toBytes, decodeFrom_flatMap_encode s.chunks h]

end Script

end SpendScript
