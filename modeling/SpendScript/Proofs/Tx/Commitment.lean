import SpendScript.Proofs.Tx.RoundTrip
import SpendScript.Tx.SigHash

/-!
# SpendScript.Proofs.Tx.Commitment

What the digest of a signature commits to. The byte string that is hashed is the wire form of an
edited copy of the transaction and the hash type; the copy is read back from it, so two of these
byte strings are equal exactly where the copies and the hash types are, and the copies are equal
exactly where the transactions agree on what the hash type names.

* `SameCommitment`: agreement on what the hash types name, bit by bit.
* `signedInputs_eq_iff`, `signedOutputs_eq_iff`: the two lists of the copy.
* `preimage_eq_iff`: the byte strings that are hashed are equal exactly under `SameCommitment`.
-/

namespace SpendScript
namespace Transaction

/-! ## What a hash type names -/

/-- The inputs agree on what a signature of input number `i` commits to. The bit `0x80` leaves all
but that input open. Without it all outpoints are named, and all sequence numbers but where the low
five bits are those of `none`, `0x02`, or `single`, `0x03`; then only that of the input is. -/
def SameSignedInputs (i : Nat) (t : HashType) (as bs : List TxInput) : Prop :=
  if t &&& 0x80 = 0 then
    as.map (·.outpoint) = bs.map (·.outpoint) ∧
      if t &&& 0x1f = 0x02 ∨ t &&& 0x1f = 0x03 then
        as[i]?.map (·.sequence) = bs[i]?.map (·.sequence)
      else as.map (·.sequence) = bs.map (·.sequence)
  else
    as[i]?.map (·.outpoint) = bs[i]?.map (·.outpoint) ∧
      as[i]?.map (·.sequence) = bs[i]?.map (·.sequence)

/-- The outputs agree on what a signature of input number `i` commits to: by the low five bits of the
hash type on nothing, on output number `i`, or on all of them. -/
def SameSignedOutputs (i : Nat) (t : HashType) (as bs : List TxOutput) : Prop :=
  if t &&& 0x1f = 0x02 then True
  else if t &&& 0x1f = 0x03 then as[i]? = bs[i]?
  else as = bs

/-- The bytes of a script code, of whose chunks those are left out that are the byte `0xab` alone. -/
def codeBytes (code : Script) : Bytes := (code.chunks.filter (· ≠ .op 0xab)).flatMap Chunk.encode

/-- Two signatures of input number `i` commit to the same. -/
structure SameCommitment (tx tx' : Transaction) (i : Nat) (code code' : Script)
    (t t' : HashType) : Prop where
  hashType : t = t'
  version : tx.version = tx'.version
  lockTime : tx.lockTime = tx'.lockTime
  code : codeBytes code = codeBytes code'
  inputs : SameSignedInputs i t tx.inputs tx'.inputs
  outputs : SameSignedOutputs i t tx.outputs tx'.outputs

/-! ## The copy -/

section Copy

variable {i k : Nat} {code code' : Script} {t : HashType}

theorem take_one_drop_eq_iff {α : Type} (as bs : List α) (i : Nat) :
    (as.drop i).take 1 = (bs.drop i).take 1 ↔ as[i]? = bs[i]? := by
  rw [List.take_one, List.take_one, List.head?_drop, List.head?_drop]
  cases as[i]? <;> cases bs[i]? <;> simp

theorem base_eq_none_iff : HashType.base t = HashType.none ↔ t &&& 0x1f = 0x02 := Iff.rfl

theorem base_eq_single_iff : HashType.base t = HashType.single ↔ t &&& 0x1f = 0x03 := Iff.rfl

theorem opensSequences_iff :
    opensSequences t = true ↔ t &&& 0x1f = 0x02 ∨ t &&& 0x1f = 0x03 := by
  simp [opensSequences, base_eq_none_iff, base_eq_single_iff]

theorem toBytes_withoutSeparators (code : Script) :
    code.withoutSeparators.toBytes = codeBytes code := rfl

theorem map_signedInput_self {a b : Option TxInput} (ha : a.isSome = true) :
    a.map (signedInput i code t i) = b.map (signedInput i code' t i) ↔
      codeBytes code = codeBytes code' ∧
        a.map (·.outpoint) = b.map (·.outpoint) ∧ a.map (·.sequence) = b.map (·.sequence) := by
  cases a with
  | none => cases ha
  | some x =>
    cases b with
    | none => simp
    | some y =>
      simp only [signedInput, if_true, Option.map_some, Option.some.injEq, TxInput.mk.injEq,
        toBytes_withoutSeparators]
      tauto

theorem map_signedInput_other (hk : k ≠ i) (a b : Option TxInput) :
    a.map (signedInput i code t k) = b.map (signedInput i code' t k) ↔
      a.map (·.outpoint) = b.map (·.outpoint) ∧
        (opensSequences t = false → a.map (·.sequence) = b.map (·.sequence)) := by
  cases a with
  | none => cases b <;> simp
  | some x =>
    cases b with
    | none => simp
    | some y =>
      cases ho : opensSequences t <;>
        simp [signedInput, hk, ho]

theorem map_eq_map_iff {α β : Type} (f : α → β) (as bs : List α) :
    as.map f = bs.map f ↔ ∀ k : Nat, as[k]?.map f = bs[k]?.map f := by
  simp only [List.ext_getElem?_iff, List.getElem?_map]

theorem mapIdx_eq_mapIdx_iff {α β : Type} (f g : Nat → α → β) (as bs : List α) :
    as.mapIdx f = bs.mapIdx g ↔ ∀ k : Nat, as[k]?.map (f k) = bs[k]?.map (g k) := by
  simp only [List.ext_getElem?_iff, List.getElem?_mapIdx]

theorem signedInputs_eq_iff {as bs : List TxInput} (hi : i < as.length) :
    signedInputs i code t as = signedInputs i code' t bs ↔
      codeBytes code = codeBytes code' ∧ SameSignedInputs i t as bs := by
  have hsome : as[i]?.isSome = true := by simpa using hi
  have hbit : HashType.anyoneCanPay = 0x80 := rfl
  by_cases hany : t &&& 0x80 = 0
  · simp only [signedInputs, SameSignedInputs, hbit, if_pos hany, ← opensSequences_iff,
      map_eq_map_iff, mapIdx_eq_mapIdx_iff]
    constructor
    · intro h
      obtain ⟨hcode, hout, hseq⟩ := (map_signedInput_self hsome).1 (h i)
      have hother := fun k (hk : k ≠ i) => (map_signedInput_other hk _ _).1 (h k)
      refine ⟨hcode, fun k => ?_, ?_⟩
      · by_cases hk : k = i
        · rw [hk]; exact hout
        · exact (hother k hk).1
      · split
        · exact hseq
        · rename_i hopen
          intro k
          by_cases hk : k = i
          · rw [hk]; exact hseq
          · exact (hother k hk).2 (by simpa using hopen)
    · rintro ⟨hcode, hout, hseq⟩ k
      by_cases hk : k = i
      · subst hk
        refine (map_signedInput_self hsome).2 ⟨hcode, hout k, ?_⟩
        split at hseq
        · exact hseq
        · exact hseq k
      · refine (map_signedInput_other hk _ _).2 ⟨hout k, fun hclosed => ?_⟩
        rw [if_neg (by simp [hclosed])] at hseq
        exact hseq k
  · simp only [signedInputs, SameSignedInputs, hbit, if_neg hany, take_one_drop_eq_iff,
      List.getElem?_mapIdx]
    exact map_signedInput_self hsome

theorem signedOutputs_eq_iff {as bs : List TxOutput} :
    signedOutputs i t as = signedOutputs i t bs ↔ SameSignedOutputs i t as bs := by
  simp only [signedOutputs, SameSignedOutputs, base_eq_none_iff, base_eq_single_iff]
  by_cases hnone : t &&& 0x1f = 0x02
  · simp only [if_pos hnone]
  · by_cases hsingle : t &&& 0x1f = 0x03
    · simp only [if_neg hnone, if_pos hsingle, List.append_cancel_left_eq, take_one_drop_eq_iff]
    · simp only [if_neg hnone, if_neg hsingle]

/-- The copy has no unlocking script of the transaction. -/
theorem script_of_mem_signedInputs {as : List TxInput} {input : TxInput}
    (h : input ∈ signedInputs i code t as) :
    input.script = [] ∨ input.script = codeBytes code := by
  have hmem : input ∈ as.mapIdx (signedInput i code t) := by
    unfold signedInputs at h
    split at h
    · exact h
    · exact List.mem_of_mem_drop (List.mem_of_mem_take h)
  obtain ⟨k, hk, rfl⟩ := List.mem_mapIdx.1 hmem
  unfold signedInput
  split
  · exact .inr rfl
  · exact .inl rfl

theorem length_signedInputs_le (as : List TxInput) :
    (signedInputs i code t as).length ≤ as.length := by
  unfold signedInputs
  split <;> simp

theorem mem_signedOutputs {as : List TxOutput} {o : TxOutput} (h : o ∈ signedOutputs i t as) :
    o = openOutput ∨ o ∈ as := by
  unfold signedOutputs at h
  split at h
  · cases h
  · split at h
    · rcases List.mem_append.1 h with h | h
      · exact .inl (List.eq_of_mem_replicate h)
      · exact .inr (List.mem_of_mem_drop (List.mem_of_mem_take h))
    · exact .inr h

theorem length_signedOutputs_le {as : List TxOutput}
    (h : t &&& 0x1f = 0x03 → i < as.length) :
    (signedOutputs i t as).length ≤ as.length := by
  unfold signedOutputs
  split
  · simp
  · split
    · rename_i hsingle
      have hlt := h hsingle
      simp only [List.length_append, List.length_replicate, List.length_take, List.length_drop]
      omega
    · exact Nat.le_refl _

theorem lacksOutput_eq_false {tx : Transaction} (h : t &&& 0x1f = 0x03 → i < tx.outputs.length) :
    tx.lacksOutput i t = false := by
  rw [lacksOutput, Bool.and_eq_false_iff]
  by_cases hsingle : t &&& 0x1f = 0x03
  · exact .inr (decide_eq_false (Nat.not_le.2 (h hsingle)))
  · exact .inl (beq_eq_false_iff_ne.2 hsingle)

theorem fits_signedForm {tx : Transaction} (h : tx.Fits)
    (hout : t &&& 0x1f = 0x03 → i < tx.outputs.length)
    (hcode : (codeBytes code).length < Wire.lengthLimit) :
    (tx.signedForm i code t).Fits where
  inputs := Nat.lt_of_le_of_lt (length_signedInputs_le tx.inputs) h.inputs
  inputScripts := by
    intro input hinput
    rcases script_of_mem_signedInputs hinput with hs | hs
    · rw [hs]; decide
    · rw [hs]; exact hcode
  outputs := Nat.lt_of_le_of_lt (length_signedOutputs_le hout) h.outputs
  outputScripts := by
    intro o ho
    rcases mem_signedOutputs ho with rfl | ho
    · decide
    · exact h.outputScripts o ho

end Copy

/-! ## The bytes that are hashed -/

section Preimage

variable {tx tx' : Transaction} {i : Nat} {code code' : Script} {t t' : HashType}

theorem u32_hashType_inj (h : Wire.u32 t.toUInt32 = Wire.u32 t'.toUInt32) : t = t' := by
  have hread := (Wire.accepts_u32.reads rfl).prefix_unique (Wire.accepts_u32.reads rfl)
    (congrArg (· ++ []) h)
  have hnat := congrArg UInt32.toNat hread.1
  rw [UInt8.toNat_toUInt32, UInt8.toNat_toUInt32] at hnat
  exact UInt8.toNat_inj.1 hnat

theorem signedForm_eq_iff (hi : i < tx.inputs.length) :
    tx.signedForm i code t = tx'.signedForm i code' t ↔
      SameCommitment tx tx' i code code' t t := by
  simp only [signedForm, Transaction.mk.injEq, signedInputs_eq_iff hi, signedOutputs_eq_iff]
  constructor
  · rintro ⟨hversion, ⟨hcode, hinputs⟩, houtputs, hlock⟩
    exact ⟨rfl, hversion, hlock, hcode, hinputs, houtputs⟩
  · intro h
    exact ⟨h.version, ⟨h.code, h.inputs⟩, h.outputs, h.lockTime⟩

theorem preimage_eq_iff (hi : i < tx.inputs.length)
    (hform : (tx.signedForm i code t).Fits) (hform' : (tx'.signedForm i code' t').Fits) :
    tx.preimage i code t = tx'.preimage i code' t' ↔
      SameCommitment tx tx' i code code' t t' := by
  constructor
  · intro h
    obtain ⟨hcopy, htype⟩ := toBytes_append_inj hform hform' h
    cases u32_hashType_inj htype
    exact (signedForm_eq_iff hi).1 hcopy
  · intro h
    cases h.hashType
    rw [preimage, preimage, (signedForm_eq_iff hi).2 h]

/-- The transaction with other bytes for its unlocking scripts. -/
def withScripts (tx : Transaction) (scripts : Nat → Bytes) : Transaction :=
  { tx with inputs := tx.inputs.mapIdx fun k input => { input with script := scripts k } }

theorem preimage_withScripts (tx : Transaction) (scripts : Nat → Bytes) :
    (tx.withScripts scripts).preimage i code t = tx.preimage i code t := by
  have hinput : ∀ k (input : TxInput),
      signedInput i code t k { input with script := scripts k } = signedInput i code t k input := by
    intro k input
    unfold signedInput
    split <;> rfl
  have hinputs : signedInputs i code t (tx.withScripts scripts).inputs =
      signedInputs i code t tx.inputs := by
    simp only [signedInputs, withScripts, List.mapIdx_mapIdx, Function.comp_def, hinput]
  rw [preimage, preimage, signedForm, hinputs]
  rfl

/-- **What a signature commits to.** Where the signed input is there, and the output too that the
hash type asks for, the digest is the double hash of `preimage`. Two such byte strings are equal
exactly where the transactions, the script codes and the hash types agree on what the hash type
names, and no unlocking script of the transaction is part of it. -/
theorem sigHash_commits (hi : i < tx.inputs.length) (hi' : i < tx'.inputs.length)
    (hout : t &&& 0x1f = 0x03 → i < tx.outputs.length)
    (hout' : t' &&& 0x1f = 0x03 → i < tx'.outputs.length)
    (hfits : tx.Fits) (hfits' : tx'.Fits)
    (hcode : (codeBytes code).length < Wire.lengthLimit)
    (hcode' : (codeBytes code').length < Wire.lengthLimit) :
    tx.sigHash i code t = .ok (Hash.sha256d (tx.preimage i code t)) ∧
      tx'.sigHash i code' t' = .ok (Hash.sha256d (tx'.preimage i code' t')) ∧
      (tx.preimage i code t = tx'.preimage i code' t' ↔
        SameCommitment tx tx' i code code' t t') ∧
      ∀ scripts, (tx.withScripts scripts).preimage i code t = tx.preimage i code t := by
  have hdigest : tx.sigHash i code t = .ok (Hash.sha256d (tx.preimage i code t)) := by
    rw [sigHash, if_neg (Nat.not_le.2 hi), lacksOutput_eq_false hout, if_neg Bool.false_ne_true]
  have hdigest' : tx'.sigHash i code' t' = .ok (Hash.sha256d (tx'.preimage i code' t')) := by
    rw [sigHash, if_neg (Nat.not_le.2 hi'), lacksOutput_eq_false hout',
      if_neg Bool.false_ne_true]
  exact ⟨hdigest, hdigest', preimage_eq_iff hi (fits_signedForm hfits hout hcode)
    (fits_signedForm hfits' hout' hcode'), preimage_withScripts tx⟩

/-- A transaction whose second sequence number and second output vary. -/
def withSecond (sequence : UInt32) (value : UInt64) : Transaction :=
  ⟨1, [⟨.null, [], 0⟩, ⟨.null, [0x51], sequence⟩], [⟨5, [0x51]⟩, ⟨value, []⟩], 0⟩

/-- A script code with a separator in it. -/
def separated : Script := ⟨[.op 0x51, .op 0xab, .push 2 [0xab, 0xab]]⟩

/-- The same without the separator. -/
def unseparated : Script := ⟨[.op 0x51, .push 2 [0xab, 0xab]]⟩

/-- A signature of the first input over the first output leaves the rest open, also where the hash
type has a bit besides that has no meaning. A separator in the script code does not count, but the
same byte in a push does, and so does any other bit of the hash type. -/
theorem sigHash_commits_single :
    (0 < (withSecond 1 2).inputs.length ∧ 0 < (withSecond 3 4).inputs.length ∧
      0 < (withSecond 1 2).outputs.length ∧ 0 < (withSecond 3 4).outputs.length ∧
      (withSecond 1 2).Fits ∧ (withSecond 3 4).Fits ∧
      (codeBytes separated).length < Wire.lengthLimit ∧
      (codeBytes unseparated).length < Wire.lengthLimit) ∧
    (withSecond 1 2).preimage 0 separated 0x23 = (withSecond 3 4).preimage 0 unseparated 0x23 ∧
    (withSecond 1 2).preimage 0 separated 0x23 ≠ (withSecond 1 2).preimage 0 separated 0x03 ∧
    (withSecond 1 2).preimage 0 separated 0x21 ≠ (withSecond 3 4).preimage 0 separated 0x21 := by
  have hfits : (withSecond 1 2).Fits := ⟨by decide, by decide, by decide, by decide⟩
  have hfits' : (withSecond 3 4).Fits := ⟨by decide, by decide, by decide, by decide⟩
  have hcode : (codeBytes separated).length < Wire.lengthLimit := by decide
  have hcode' : (codeBytes unseparated).length < Wire.lengthLimit := by decide
  refine ⟨⟨by decide, by decide, by decide, by decide, hfits, hfits', hcode, hcode'⟩, ?_, ?_, ?_⟩
  · refine (sigHash_commits (by decide) (by decide) (fun _ => by decide) (fun _ => by decide) hfits
      hfits' hcode hcode').2.2.1.2 ⟨rfl, rfl, rfl, rfl, ?_, ?_⟩
    · unfold SameSignedInputs
      decide
    · unfold SameSignedOutputs
      decide
  · intro h
    have hsame := (sigHash_commits (by decide) (by decide) (fun _ => by decide)
      (fun _ => by decide) hfits hfits hcode hcode).2.2.1.1 h
    exact absurd hsame.hashType (by decide)
  · intro h
    have hsame := (sigHash_commits (by decide) (by decide) (fun _ => by decide)
      (fun _ => by decide) hfits hfits' hcode hcode).2.2.1.1 h
    have houtputs := hsame.outputs
    revert houtputs
    unfold SameSignedOutputs
    decide

end Preimage

end Transaction
end SpendScript
