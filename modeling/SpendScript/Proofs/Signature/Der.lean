import SpendScript.Proofs.Eval.SigForm

/-!
# SpendScript.Proofs.Signature.Der

The parser of the two integers of a signature beside the check that a form is canonical. The parser
knows neither the tag nor the hash-type byte and takes integers of any spelling.

* `components_eq_ok_iff`: the bodies that the parser takes, and where in them the integers are.
* `isCanonicalTx_iff_components`: a form is canonical where the parser takes its body and finds
  canonical integers there.
-/

namespace SpendScript

namespace Bytes

theorem byteAt_drop (bs : Bytes) (k i : Nat) : byteAt (bs.drop k) i = byteAt bs (k + i) := by
  simp [byteAt, List.getD]

theorem slice_drop (bs : Bytes) (k i n : Nat) : slice (bs.drop k) i n = slice bs (k + i) n := by
  simp [slice]

theorem byteAt_cons {b : UInt8} {bs : Bytes} {i k : Nat} (hk : k = 1 + i) :
    byteAt (b :: bs) k = byteAt bs i := by
  rw [hk, ← byteAt_drop, List.drop_one, List.tail_cons]

theorem slice_cons {b : UInt8} {bs : Bytes} {i k n : Nat} (hk : k = 1 + i) :
    slice (b :: bs) k n = slice bs i n := by
  rw [hk, ← slice_drop, List.drop_one, List.tail_cons]

theorem drop_eq_slice {bs : Bytes} {i n : Nat} (h : i + n = bs.length) :
    bs.drop i = slice bs i n := by
  rw [slice, List.take_of_length_le]
  rw [List.length_drop]
  omega

end Bytes

theorem if_error_eq_ok_iff {ε α : Type} {p : Prop} [Decidable p] {e : ε} {a : α} {r : Except ε α} :
    (if p then .error e else r) = .ok a ↔ ¬p ∧ r = .ok a := by
  by_cases h : p <;> simp [h]

namespace Der

variable {body rc sc : Bytes}

theorem components_eq_ok_iff :
    components body = .ok (rc, sc) ↔
      (body.byteAt 0).toNat + 1 = body.length ∧ body.byteAt 1 = integerTag ∧
        (body.byteAt 2).toNat ≠ 0 ∧
        body.byteAt (3 + (body.byteAt 2).toNat) = integerTag ∧
        (body.byteAt (4 + (body.byteAt 2).toNat)).toNat ≠ 0 ∧
        5 + (body.byteAt 2).toNat + (body.byteAt (4 + (body.byteAt 2).toNat)).toNat =
          body.length ∧
        body.slice 3 (body.byteAt 2).toNat = rc ∧
        body.slice (5 + (body.byteAt 2).toNat)
          (body.byteAt (4 + (body.byteAt 2).toNat)).toNat = sc := by
  simp only [components, if_error_eq_ok_iff, Except.ok.injEq, Prod.mk.injEq, not_or,
    Decidable.not_not, and_assoc]
  generalize (body.byteAt 2).toNat = lenR
  generalize (body.byteAt (4 + lenR)).toNat = lenS
  constructor
  · rintro ⟨-, hlen, hmarkR, hR, -, hmarkS, hS, hend, hr, hs⟩
    rw [Bytes.drop_eq_slice hend] at hs
    exact ⟨hlen, hmarkR, hR, hmarkS, hS, hend, hr, hs⟩
  · rintro ⟨hlen, hmarkR, hR, hmarkS, hS, hend, hr, hs⟩
    rw [← Bytes.drop_eq_slice hend] at hs
    exact ⟨by omega, hlen, hmarkR, hR, by omega, hmarkS, hS, hend, hr, hs⟩

/-- The bytes of a body, in the form that has a byte before it and one after. -/
theorem byteAt_cons_concat {tag t : UInt8} {i k : Nat} (hi : i < body.length) (hk : k = 1 + i) :
    Bytes.byteAt (tag :: (body ++ [t])) k = body.byteAt i := by
  rw [Bytes.byteAt_cons hk, Bytes.byteAt_append_left hi]

theorem slice_cons_concat {tag t : UInt8} {i k n : Nat} (hi : i + n ≤ body.length)
    (hk : k = 1 + i) : Bytes.slice (tag :: (body ++ [t])) k n = body.slice i n := by
  rw [Bytes.slice_cons hk, Bytes.slice_append_left hi]

theorem isCanonicalTx_iff_components {tag : UInt8} {t : HashType} :
    isCanonicalTx (tag :: (body ++ [t])) = true ↔
      tag = sequenceTag ∧ body.length ≤ 71 ∧
        ∃ rc sc, components body = .ok (rc, sc) ∧ isCanonicalInt rc = true ∧
          isCanonicalInt sc = true := by
  simp only [isCanonicalTx, Bool.and_eq_true, decide_eq_true_eq, beq_iff_eq, List.length_cons,
    List.length_append, List.length_nil, and_assoc, components_eq_ok_iff]
  by_cases hlen : 7 ≤ body.length
  · rw [byteAt_cons_concat (i := 0) (k := 1) (by omega) rfl,
      byteAt_cons_concat (i := 1) (k := 2) (by omega) rfl,
      byteAt_cons_concat (i := 2) (k := 3) (by omega) rfl]
    generalize (body.byteAt 2).toNat = lenR
    by_cases hlenR : 4 + lenR < body.length
    · rw [byteAt_cons_concat (k := 5 + lenR) hlenR (by omega),
        byteAt_cons_concat (i := 3 + lenR) (k := 4 + lenR) (by omega) (by omega)]
      generalize (body.byteAt (4 + lenR)).toNat = lenS
      by_cases hlenS : 5 + lenR + lenS = body.length
      · rw [slice_cons_concat (i := 3) (k := 4) (by omega) rfl,
          slice_cons_concat (i := 5 + lenR) (k := 6 + lenR) (by omega) (by omega)]
        constructor
        · rintro ⟨_, _, htag, _, _, _, hmarkR, hR, hmarkS, hS⟩
          have hR' := ((isCanonicalInt_slice_iff (by omega)).1 hR).1
          have hS' := ((isCanonicalInt_slice_iff (by omega)).1 hS).1
          exact ⟨htag, by omega, _, _, by omega, hmarkR, hR', hmarkS, hS', hlenS, rfl, rfl, hR, hS⟩
        · rintro ⟨htag, _, rc, sc, _, hmarkR, -, hmarkS, -, -, rfl, rfl, hR, hS⟩
          exact ⟨by omega, by omega, htag, by omega, by omega, by omega, hmarkR, hR, hmarkS, hS⟩
      · refine iff_of_false ?_ ?_
        · rintro ⟨_, _, _, _, _, _, _⟩
          omega
        · rintro ⟨_, _, rc, sc, _, _, _, _, _, hend, _⟩
          exact hlenS hend
    · -- No room is left for the length of the second integer and an integer of that length.
      refine iff_of_false ?_ ?_
      · rintro ⟨_, _, _, _, _, _, _⟩
        omega
      · rintro ⟨_, _, rc, sc, _, _, _, _, _, _, _⟩
        omega
  · refine iff_of_false ?_ ?_
    · rintro ⟨_, _, _⟩
      omega
    · rintro ⟨_, _, rc, sc, _, _, _, _, _, _, _⟩
      omega

end Der
end SpendScript
