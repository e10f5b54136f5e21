import SpendScript.Eval.Evaluation

/-!
# SpendScript.Proofs.Eval.SigForm

What a check of a signature lets through before it asks the context.

* `derFault?_eq_none_iff`: the check of the form without the hash-type byte and the check of the form
  with it agree.
* `Env.checkSig_nil_eq_ok_iff`, `Env.checkSig_concat_eq_ok_iff`: when a check comes to an answer, and
  to which.
* `Env.checkSig_isCanonicalTx`: what has been checked then.
-/

namespace SpendScript

namespace Bytes

theorem byteAt_append_left {as bs : Bytes} {i : Nat} (h : i < as.length) :
    byteAt (as ++ bs) i = byteAt as i := by
  simp [byteAt, List.getD, List.getElem?_append_left h]

theorem slice_append_left {as bs : Bytes} {i n : Nat} (h : i + n ≤ as.length) :
    slice (as ++ bs) i n = slice as i n := by
  rw [slice, slice, List.drop_append_of_le_length (by omega),
    List.take_append_of_le_length (by simp; omega)]

theorem length_slice {bs : Bytes} {i n : Nat} (h : i + n ≤ bs.length) :
    (slice bs i n).length = n := by
  simp [slice]
  omega

theorem byteAt_slice {bs : Bytes} {i n k : Nat} (h : k < n) :
    byteAt (slice bs i n) k = byteAt bs (i + k) := by
  simp [byteAt, slice, List.getD, List.getElem?_take_of_lt h]

end Bytes

namespace Der

theorem isCanonicalInt_iff {v : Bytes} :
    isCanonicalInt v = true ↔
      v.length ≠ 0 ∧ v.byteAt 0 < 0x80 ∧
        ¬(1 < v.length ∧ v.byteAt 0 = 0 ∧ v.byteAt 1 < 0x80) := by
  rcases v with _ | ⟨a, _ | ⟨b, v⟩⟩
  · simp [isCanonicalInt]
  · simp [isCanonicalInt, Bytes.byteAt]
  · by_cases h : a = 0 <;> simp [isCanonicalInt, Bytes.byteAt, h]

/-- The part of a byte string that an integer of a signature takes. -/
theorem isCanonicalInt_slice_iff {bs : Bytes} {i n : Nat} (h : i + n ≤ bs.length) :
    isCanonicalInt (bs.slice i n) = true ↔
      n ≠ 0 ∧ bs.byteAt i < 0x80 ∧
        ¬(1 < n ∧ bs.byteAt i = 0 ∧ bs.byteAt (i + 1) < 0x80) := by
  rw [isCanonicalInt_iff, Bytes.length_slice h]
  by_cases h0 : n = 0
  · simp [h0]
  · by_cases h1 : 1 < n
    · rw [Bytes.byteAt_slice (by omega), Bytes.byteAt_slice h1, Nat.add_zero]
    · rw [Bytes.byteAt_slice (by omega), Nat.add_zero]
      simp [h1]

end Der

theorem if_some_eq_none_iff {α : Type} {p : Prop} [Decidable p] {a : α} {r : Option α} :
    (if p then some a else r) = none ↔ ¬p ∧ r = none := by
  by_cases h : p <;> simp [h]

theorem derFault?_eq_none_iff {sig : Bytes} {t : HashType} :
    derFault? sig = none ↔ Der.isCanonicalTx (sig ++ [t]) = true := by
  simp only [derFault?, if_some_eq_none_iff, Der.isCanonicalTx, Bool.and_eq_true,
    decide_eq_true_eq, beq_iff_eq, List.length_append, List.length_singleton,
    Decidable.not_not, and_signBit_eq_zero_iff, and_assoc]
  by_cases hlen : 8 ≤ sig.length
  · rw [Bytes.byteAt_append_left (i := 0) (by omega), Bytes.byteAt_append_left (i := 1) (by omega),
      Bytes.byteAt_append_left (i := 2) (by omega), Bytes.byteAt_append_left (i := 3) (by omega)]
    generalize (sig.byteAt 3).toNat = lenR
    by_cases hlenR : 5 + lenR < sig.length
    · rw [Bytes.byteAt_append_left hlenR, Bytes.byteAt_append_left (i := 4 + lenR) (by omega)]
      generalize (sig.byteAt (5 + lenR)).toNat = lenS
      by_cases hlenS : 6 + lenR + lenS = sig.length
      · -- Both integers lie in the signature, and none of them takes the byte after it.
        rw [Bytes.slice_append_left (by omega), Bytes.slice_append_left (by omega),
          Der.isCanonicalInt_slice_iff (by omega), Der.isCanonicalInt_slice_iff (by omega),
          Nat.add_right_comm 6 lenR 1]
        constructor
        · rintro ⟨_, _, htag, _, _, _, _, hmarkR, hR, hsignR, hpadR, hmarkS, hS, hsignS, hpadS, -⟩
          exact ⟨by omega, by omega, htag, by omega, by omega, by omega, hmarkR,
            ⟨hR, hsignR, hpadR⟩, hmarkS, hS, hsignS, hpadS⟩
        · rintro ⟨_, _, htag, _, _, _, hmarkR, ⟨hR, hsignR, hpadR⟩, hmarkS, hS, hsignS, hpadS⟩
          exact ⟨by omega, by omega, htag, by omega, by omega, by omega, hlenS, hmarkR, hR, hsignR,
            hpadR, hmarkS, hS, hsignS, hpadS, trivial⟩
      · refine iff_of_false ?_ ?_
        · intro h
          exact hlenS h.2.2.2.2.2.2.1
        · intro h
          omega
    · -- No room is left for the length of the second integer.
      refine iff_of_false ?_ ?_ <;>
      · intro h
        omega
  · refine iff_of_false ?_ ?_ <;>
    · intro h
      omega

namespace Env

variable {env : Env} {code : Script} {sig key : Bytes} {valid : Bool}

theorem checkSigForm_eq_ok_iff :
    env.checkSigForm sig = .ok () ↔
      (env.wantsDer = true → sig ≠ [] →
        derFault? sig = none ∧ (env.flags.has .lowS = true → hasLowS sig = true)) := by
  unfold checkSigForm
  cases hwants : env.wantsDer with
  | false => simp
  | true =>
    cases sig with
    | nil => simp
    | cons b sig =>
      cases hfault : derFault? (b :: sig) with
      | some fault => simp
      | none => cases env.flags.has .lowS <;> simp

theorem ask_eq_ok_iff {q : SigQuery} :
    env.ask q = .ok valid ↔ ∃ ctx, env.context = some ctx ∧ ctx.verify q = .ok valid := by
  unfold ask
  cases env.context <;> simp

theorem checkSig_nil_eq_ok_iff :
    env.checkSig code [] key = .ok valid ↔ env.checkKeyForm key = .ok () ∧ valid = false := by
  simp only [checkSig, sigQuery?, List.getLast?_nil]
  cases env.checkKeyForm key <;> simp [eq_comm]

theorem checkSig_concat_eq_ok_iff {t : HashType} :
    env.checkSig code (sig ++ [t]) key = .ok valid ↔
      env.checkHashType t = .ok () ∧ env.checkSigForm sig = .ok () ∧
        env.checkKeyForm key = .ok () ∧
        env.ask ⟨sig ++ [t], key, code, env.input, t⟩ = .ok valid := by
  simp only [checkSig, sigQuery?, List.getLast?_concat, List.dropLast_concat]
  cases env.checkHashType t <;> cases env.checkSigForm sig <;> cases env.checkKeyForm key <;> simp

/-- Where the flags ask for canonical signatures, a check that comes to an answer had one before it,
or an item of one byte at most. -/
theorem checkSig_isCanonicalTx (hflags : env.wantsDer = true)
    (h : env.checkSig code sig key = .ok valid) :
    sig.length ≤ 1 ∨ Der.isCanonicalTx sig = true := by
  rcases List.eq_nil_or_concat sig with rfl | ⟨der, t, rfl⟩
  · left
    simp
  · rw [List.concat_eq_append] at h ⊢
    obtain ⟨-, hform, -, -⟩ := checkSig_concat_eq_ok_iff.1 h
    by_cases hder : der = []
    · left
      simp [hder]
    · right
      exact derFault?_eq_none_iff.1 (checkSigForm_eq_ok_iff.1 hform hflags hder).1

/-- A context that takes every signature for a good one. -/
def credulous : Env :=
  ⟨.derSignatures, {}, some ⟨fun _ => .ok true, 0, 1, fun _ => .ok 0⟩, 0⟩

/-- The shortest canonical signature. -/
theorem checkSig_isCanonicalTx_shortest :
    credulous.wantsDer = true ∧
      credulous.checkSig .empty [0x30, 6, 2, 1, 1, 2, 1, 1, 0x01] [] = .ok true ∧
      ([(0x30 : UInt8), 6, 2, 1, 1, 2, 1, 1, 0x01].length ≤ 1 ∨
        Der.isCanonicalTx [0x30, 6, 2, 1, 1, 2, 1, 1, 0x01] = true) := by
  have hflags : credulous.wantsDer = true := rfl
  have hcheck : credulous.checkSig .empty [0x30, 6, 2, 1, 1, 2, 1, 1, 0x01] [] = .ok true := rfl
  exact ⟨hflags, hcheck, checkSig_isCanonicalTx hflags hcheck⟩

/-- The form of a signature is looked at only where there is something before the hash-type byte, so
this byte alone, neither empty nor canonical, gets to the context. -/
theorem checkSig_lone_hashType :
    ¬ ∀ (env : Env) (code : Script) (sig key : Bytes) (valid : Bool), env.wantsDer = true →
      env.checkSig code sig key = .ok valid → sig = [] ∨ Der.isCanonicalTx sig = true := by
  intro h
  have hlone := h credulous ⟨[.push 33 (2 :: List.replicate 32 0x11), .ofOpcode .checkSig]⟩ [0x01]
    (2 :: List.replicate 32 0x11) true rfl rfl
  revert hlone
  decide

end Env

end SpendScript
