import Mathlib.Data.List.Forall2
import Mathlib.Data.List.NodupEquivFin
import SpendScript.Proofs.Eval.SignedCode

/-!
# SpendScript.Proofs.Eval.Multisig

The check of several signatures against several keys. It walks once over both lists and gives each
signature the first key that fits, so it has to be shown that no other choice does better.

* `Matches`: every signature has a key of its own, in the same order.
* `matchSigs_spec`: the walk says yes exactly under `Matches`.
* `matchFrom_eq`: the walk by places never looks past the last key.
* `checkMultiSig_matches`: what the opcode does to the machine, each signature being held against
  a key over the chunks that are left when all the signatures are taken out.
-/

namespace SpendScript

open List (SublistForall₂)

/-- Every signature belongs to a key, the next signature to a later key. -/
def Matches (belongs : Bytes → Bytes → Prop) (sigs keys : List Bytes) : Prop :=
  ∃ f : Fin sigs.length → Fin keys.length, StrictMono f ∧ ∀ i, belongs sigs[i] keys[f i]

section Matching

variable {belongs : Bytes → Bytes → Prop} {sig key : Bytes} {sigs keys : List Bytes}

theorem matches_iff_sublistForall₂ :
    Matches belongs sigs keys ↔ SublistForall₂ belongs sigs keys := by
  rw [List.sublistForall₂_iff]
  constructor
  · rintro ⟨f, hf, hb⟩
    have hlen : (List.ofFn fun i => keys[f i]).length = sigs.length := List.length_ofFn
    refine ⟨List.ofFn fun i => keys[f i], ?_, ?_⟩
    · rw [List.forall₂_iff_get]
      refine ⟨hlen.symm, fun i hi _ => ?_⟩
      simpa using hb ⟨i, hi⟩
    · rw [List.sublist_iff_exists_fin_orderEmbedding_get_eq]
      refine ⟨OrderEmbedding.ofStrictMono (fun i => f (i.cast hlen)) fun i j hij => hf hij, ?_⟩
      intro i
      simp only [List.get_eq_getElem, List.getElem_ofFn]
      rfl
  · rintro ⟨found, hb, hsub⟩
    obtain ⟨hlen, hget⟩ := List.forall₂_iff_get.1 hb
    obtain ⟨g, hg⟩ := List.sublist_iff_exists_fin_orderEmbedding_get_eq.1 hsub
    refine ⟨fun i => g (i.cast hlen), fun i j hij => g.strictMono hij, fun i => ?_⟩
    have hkey := hget i i.isLt (hlen ▸ i.isLt)
    have hplace := hg (i.cast hlen)
    simp only [List.get_eq_getElem, Fin.val_cast] at hkey hplace
    simpa [hplace] using hkey

theorem matches_reverse :
    Matches belongs sigs.reverse keys.reverse ↔ Matches belongs sigs keys := by
  simp only [matches_iff_sublistForall₂, List.sublistForall₂_iff]
  constructor
  · rintro ⟨found, hb, hsub⟩
    refine ⟨found.reverse, ?_, ?_⟩
    · rw [← List.forall₂_reverse_iff, List.reverse_reverse]
      exact hb
    · rw [← List.reverse_sublist, List.reverse_reverse]
      exact hsub
  · rintro ⟨found, hb, hsub⟩
    exact ⟨found.reverse, List.forall₂_reverse_iff.2 hb, List.reverse_sublist.2 hsub⟩

theorem length_le_of_sublistForall₂ (h : SublistForall₂ belongs sigs keys) :
    sigs.length ≤ keys.length := by
  obtain ⟨found, hb, hsub⟩ := List.sublistForall₂_iff.1 h
  rw [hb.length_eq]
  exact hsub.length_le

theorem sublistForall₂_tail (h : SublistForall₂ belongs (sig :: sigs) keys) :
    SublistForall₂ belongs sigs keys := by
  obtain ⟨found, hb, hsub⟩ := List.sublistForall₂_iff.1 h
  cases hb with
  | cons _ htail =>
    exact List.sublistForall₂_iff.2 ⟨_, htail, (List.sublist_cons_self _ _).trans hsub⟩

/-- A key that fits the first signature may as well be given to it: where a later key is given to
it, the later signatures have keys of their own all the same. -/
theorem sublistForall₂_cons_of_belongs (h : belongs sig key) :
    SublistForall₂ belongs (sig :: sigs) (key :: keys) ↔ SublistForall₂ belongs sigs keys := by
  constructor
  · intro hall
    cases hall with
    | cons _ htail => exact htail
    | cons_right hlater => exact sublistForall₂_tail hlater
  · exact .cons h

theorem sublistForall₂_cons_of_not_belongs (h : ¬belongs sig key) :
    SublistForall₂ belongs (sig :: sigs) (key :: keys) ↔
      SublistForall₂ belongs (sig :: sigs) keys := by
  constructor
  · intro hall
    cases hall with
    | cons hb _ => exact absurd hb h
    | cons_right hlater => exact hlater
  · exact .cons_right

end Matching

/-! ## The walk -/

section Walk

variable {check : Bytes → Bytes → Except Fault Bool}

/-- Where no comparison fails, the walk finds keys for all signatures if that can be done. -/
theorem matchSigs_spec {sigs keys : List Bytes}
    (h : ∀ sig ∈ sigs, ∀ key ∈ keys, ∃ b, check sig key = .ok b) :
    ∃ b, matchSigs check sigs keys = .ok b ∧
      (b = true ↔ SublistForall₂ (fun sig key => check sig key = .ok true) sigs keys) := by
  induction keys generalizing sigs with
  | nil =>
    cases sigs with
    | nil => exact ⟨true, rfl, by simp [SublistForall₂.nil]⟩
    | cons sig sigs =>
      refine ⟨false, rfl, by simp, fun hall => ?_⟩
      have hle := length_le_of_sublistForall₂ hall
      simp at hle
  | cons key keys ih =>
    cases sigs with
    | nil => exact ⟨true, rfl, by simp [SublistForall₂.nil]⟩
    | cons sig sigs =>
      obtain ⟨found, hfound⟩ := h sig List.mem_cons_self key List.mem_cons_self
      -- `left` are the signatures that still need a key, which comes later in any case.
      obtain ⟨left, hleft, hmem, hrest⟩ : ∃ left, (if found then sigs else sig :: sigs) = left ∧
          (∀ s ∈ left, s ∈ sig :: sigs) ∧
          (SublistForall₂ (fun sig key => check sig key = .ok true) (sig :: sigs) (key :: keys) ↔
            SublistForall₂ (fun sig key => check sig key = .ok true) left keys) := by
        cases found with
        | true =>
          exact ⟨sigs, rfl, fun s hs => List.mem_cons_of_mem sig hs,
            sublistForall₂_cons_of_belongs hfound⟩
        | false =>
          exact ⟨sig :: sigs, rfl, fun s hs => hs,
            sublistForall₂_cons_of_not_belongs (by simp [hfound])⟩
      simp only [matchSigs, hfound, hleft, hrest]
      by_cases hfew : keys.length < left.length
      · rw [if_pos hfew]
        refine ⟨false, rfl, by simp, fun hall => ?_⟩
        exact absurd (length_le_of_sublistForall₂ hall) (Nat.not_le.2 hfew)
      · rw [if_neg hfew]
        exact ih fun s hs k hk => h s (hmem s hs) k (List.mem_cons_of_mem key hk)

/-- The walk by places: signature number `i` is the first without a key, and key number `j` is the
next to try. There is no result if the walk looks for a key past the last. -/
def matchFrom (check : Bytes → Bytes → Except Fault Bool) (sigs keys : List Bytes) (i j : Nat) :
    Option (Except Fault Bool) :=
  match sigs[i]? with
  | none => some (.ok true)
  | some sig =>
    if h : j < keys.length then
      match check sig keys[j] with
      | .error e => some (.error e)
      | .ok found =>
        let i' := if found then i + 1 else i
        if keys.length - (j + 1) < sigs.length - i' then some (.ok false)
        else matchFrom check sigs keys i' (j + 1)
    else none
termination_by keys.length - j

/-- There are never more signatures without a key than keys that are left, so there is always a key
to try. -/
theorem matchFrom_eq {sigs keys : List Bytes} {i j : Nat}
    (hle : sigs.length - i ≤ keys.length - j) :
    matchFrom check sigs keys i j = some (matchSigs check (sigs.drop i) (keys.drop j)) := by
  induction hn : keys.length - j generalizing i j with
  | zero =>
    have hi : sigs.length ≤ i := by omega
    rw [matchFrom, List.getElem?_eq_none hi, List.drop_of_length_le hi, matchSigs]
  | succ n ih =>
    have hj : j < keys.length := by omega
    rw [matchFrom]
    by_cases hi : i < sigs.length
    · rw [List.getElem?_eq_getElem hi, List.drop_eq_getElem_cons hi, List.drop_eq_getElem_cons hj,
        matchSigs]
      simp only [dif_pos hj]
      cases check sigs[i] keys[j] with
      | error e => rfl
      | ok found =>
        have hleft : (if found then sigs.drop (i + 1) else sigs[i] :: sigs.drop (i + 1)) =
            sigs.drop (if found then i + 1 else i) := by
          cases found with
          | true => rfl
          | false => exact (List.drop_eq_getElem_cons hi).symm
        simp only [hleft, List.length_drop]
        by_cases hfew : keys.length - (j + 1) < sigs.length - if found then i + 1 else i
        · rw [if_pos hfew, if_pos hfew]
        · rw [if_neg hfew, if_neg hfew]
          exact ih (Nat.not_lt.1 hfew) (by omega)
    · have hi' : sigs.length ≤ i := by omega
      rw [List.getElem?_eq_none hi', List.drop_of_length_le hi', matchSigs]

end Walk

/-! ## The opcode -/

/-- Signatures are deleted from the code whatever their order. -/
theorem signedCode_reverse (chunks : List Chunk) (start : Nat) (sigs : List Bytes) :
    signedCode chunks start sigs.reverse = signedCode chunks start sigs := by
  simp [signedCode]

namespace Stack

theorem popNumber_cons {rule : NumberRule} {x : Bytes} {n : Int} (h : Number.decode rule x = .ok n)
    (s : Stack) : popNumber rule (x :: s) = .ok (n, s) := by
  simp [popNumber, pop, h]

theorem popMany_append {n : Nat} {items : List Bytes} (h : items.length = n) (s : Stack) :
    popMany n (items ++ s) = .ok (items, s) := by
  simp [popMany, ← h]

end Stack

namespace Machine

variable {env : Env} {m : Machine} {chunks : List Chunk} {sigs keys : List Bytes}
  {dummy sigCount keyCount : Bytes} {rest : Stack}

theorem multisigArgs_ok
    (hdata : m.data = keyCount :: (keys.reverse ++ sigCount :: (sigs.reverse ++ dummy :: rest)))
    (hkeys : Number.decode env.numberRule keyCount = .ok keys.length)
    (hsigs : Number.decode env.numberRule sigCount = .ok sigs.length)
    (hle : sigs.length ≤ keys.length) (hmax : keys.length ≤ env.limits.maxKeys)
    (hops : m.opCount + keys.length ≤ env.limits.maxOps) :
    m.multisigArgs env = .ok ({ m with opCount := m.opCount + keys.length },
      ⟨keys.reverse, sigs.reverse, dummy, rest⟩) := by
  have hkeyRange : ¬((keys.length : Int) < 0 ∨ (env.limits.maxKeys : Int) < keys.length) := by
    omega
  have hsigRange : ¬((sigs.length : Int) < 0 ∨ (keys.length : Int) < sigs.length) := by omega
  have hcount : m.count env keys.length = .ok { m with opCount := m.opCount + keys.length } := by
    rw [count, if_neg (Nat.not_lt.2 hops)]
  rw [multisigArgs, hdata, Stack.popNumber_cons hkeys]
  simp only [if_neg hkeyRange, Int.toNat_natCast, hcount,
    Stack.popMany_append (List.length_reverse), Stack.popNumber_cons hsigs, if_neg hsigRange,
    Stack.pop]
  rw [hdata]

/-- **What a check of several signatures accepts.** Where the operands are there and within the
limits, and no comparison fails, the check takes exactly its operands off the stack and counts the
keys as operations. It pushes true exactly where the signatures belong to keys in the same order,
and looks for no key past the last. What every one of them has to cover is `coveredCode`, the script
from its last separator on without separators and without the pushes of all the signatures. -/
theorem checkMultiSig_matches
    (hdata : m.data = keyCount :: (keys.reverse ++ sigCount :: (sigs.reverse ++ dummy :: rest)))
    (hkeys : Number.decode env.numberRule keyCount = .ok keys.length)
    (hsigs : Number.decode env.numberRule sigCount = .ok sigs.length)
    (hle : sigs.length ≤ keys.length) (hmax : keys.length ≤ env.limits.maxKeys)
    (hops : m.opCount + keys.length ≤ env.limits.maxOps)
    (hfail : env.flags.has .nullFail = false) (hdummy : env.flags.has .nullDummy = false)
    (hcheck : ∀ sig ∈ sigs, ∀ key ∈ keys,
      ∃ b, env.checkSig (coveredCode chunks m.codeStart sigs) sig key = .ok b) :
    signedCode chunks m.codeStart sigs = coveredCode chunks m.codeStart sigs ∧
    ∃ valid : Bool,
      m.checkMultiSig env chunks = .ok { m with
        opCount := m.opCount + keys.length
        data := (if valid then [1] else []) :: rest } ∧
      (valid = true ↔ Matches
        (fun sig key => env.checkSig (coveredCode chunks m.codeStart sigs) sig key = .ok true)
        sigs keys) ∧
      matchFrom (env.checkSig (coveredCode chunks m.codeStart sigs)) sigs.reverse keys.reverse 0 0 =
        some (.ok valid) := by
  have hcode := signedCode_eq_coveredCode chunks m.codeStart sigs
  obtain ⟨valid, hvalid, hiff⟩ := @matchSigs_spec
    (env.checkSig (coveredCode chunks m.codeStart sigs)) sigs.reverse keys.reverse
    (by simpa using hcheck)
  refine ⟨hcode, valid, ?_, ?_, ?_⟩
  · rw [checkMultiSig, multisigArgs_ok hdata hkeys hsigs hle hmax hops]
    simp only [signedCode_reverse, hcode, hvalid, hfail, hdummy, Bool.and_false, Bool.false_and,
      Bool.false_eq_true, if_false]
    rfl
  · rw [hiff, ← matches_iff_sublistForall₂, matches_reverse]
  · rw [matchFrom_eq (by simpa using hle)]
    exact congrArg some hvalid

/-- A script that pushes the signature `05 01` itself, between two separators and the check. -/
def withOwnSignature : List Chunk :=
  [.op 0xab, .push 2 [5, 1], .op 0x75, .push 0x4c [5, 1], .op 0x75, .op 0xae, .op 0xab]

/-- What is left of it from the first separator on: the check, and the push that is not in the
shortest form. -/
def withoutSignature : Script := ⟨[.op 0x75, .push 0x4c [5, 1], .op 0x75, .op 0xae]⟩

/-- An environment in which a signature belongs to the key that it repeats before its last byte, if
it covers `withoutSignature`. -/
def repeating : Env :=
  ⟨.none, {}, some ⟨fun q => .ok (q.code == withoutSignature && q.signature.dropLast == q.key), 0, 1,
    fun _ => .ok 0⟩, 0⟩

/-- Two signatures and three keys, the second of which signed nothing, behind the first separator. -/
def twoOfThree : Machine :=
  { initial with data := [[3], [7], [6], [5], [2], [7, 1], [5, 1], []], codeStart := 1 }

theorem checkMultiSig_matches_twoOfThree :
    (Number.decode repeating.numberRule [3] = .ok 3 ∧
      Number.decode repeating.numberRule [2] = .ok 2 ∧
      ∀ sig ∈ [[5, 1], [7, 1]], ∀ key ∈ [[5], [6], [7]],
        ∃ b, repeating.checkSig (coveredCode withOwnSignature 1 [[5, 1], [7, 1]]) sig key = .ok b) ∧
    signedCode withOwnSignature 1 [[5, 1], [7, 1]] = withoutSignature ∧
    twoOfThree.checkMultiSig repeating withOwnSignature =
      .ok { twoOfThree with opCount := 3, data := [[1]] } := by
  have hcovered : coveredCode withOwnSignature 1 [[5, 1], [7, 1]] = withoutSignature := by decide
  have hcheck : ∀ sig ∈ [[5, 1], [7, 1]], ∀ key ∈ [[5], [6], [7]],
      ∃ b, repeating.checkSig (coveredCode withOwnSignature 1 [[5, 1], [7, 1]]) sig key =
        .ok b := by
    intro sig hsig key hkey
    rcases List.mem_pair.1 hsig with rfl | rfl
    · exact ⟨_, rfl⟩
    · exact ⟨_, rfl⟩
  obtain ⟨hcode, valid, hresult, hiff, -⟩ := @checkMultiSig_matches repeating twoOfThree
    withOwnSignature [[5, 1], [7, 1]] [[5], [6], [7]] [] [2] [3] [] rfl rfl rfl (by decide)
    (by decide) (by decide) rfl rfl hcheck
  -- The first signature belongs to the first key, and the second to the last.
  have hmatches : Matches (fun sig key =>
      repeating.checkSig (coveredCode withOwnSignature 1 [[5, 1], [7, 1]]) sig key = .ok true)
      [[5, 1], [7, 1]] [[5], [6], [7]] := by
    refine ⟨![0, 2], by decide, fun i => ?_⟩
    rw [hcovered]
    fin_cases i <;> rfl
  obtain rfl : valid = true := hiff.2 hmatches
  exact ⟨⟨rfl, rfl, hcheck⟩, hcode.trans hcovered, hresult⟩

end Machine

end SpendScript
