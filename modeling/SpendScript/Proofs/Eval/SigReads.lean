import SpendScript.Proofs.Signature.Der

/-!
# SpendScript.Proofs.Eval.SigReads

The checks of the form of a signature, with every read of a byte a step that fails past the end.
The lengths that say where to read come from the signature itself, so each read has to be covered
by the tests before it.

* `Der.readCanonicalTx?_eq`, `readDerFault?_eq`, `Der.readComponents?_eq`: no read fails.
* `Env.checkSigForm_agrees`: the check with the flags, beside the check of the transaction form.
-/

namespace SpendScript

namespace Bytes

/-- The `n` bytes from byte number `i` on, if they are all there. -/
def readSlice? (bs : Bytes) (i n : Nat) : Option Bytes :=
  if i + n ≤ bs.length then some (bs.slice i n) else none

variable {α : Type} {bs : Bytes} {i n : Nat}

theorem read_bind (h : i < bs.length) (f : UInt8 → Option α) :
    (bs[i]? >>= f) = f (bs.byteAt i) := by
  simp [byteAt, List.getD, List.getElem?_eq_getElem h]

theorem readSlice?_bind (h : i + n ≤ bs.length) (f : Bytes → Option α) :
    (bs.readSlice? i n >>= f) = f (bs.slice i n) := by
  rw [readSlice?, if_pos h]
  rfl

end Bytes

section Steps

variable {α : Type} {p : Prop} [Decidable p] {a b : α}

/-- A test that may end the reading, as the same test without reads. -/
theorem if_some_eq_some {r : Option α} (h : ¬p → r = some b) :
    (if p then some a else r) = some (if p then a else b) := by
  by_cases hp : p
  · rw [if_pos hp, if_pos hp]
  · rw [if_neg hp, if_neg hp, h hp]

variable {c d : Bool} {r : Option Bool}

/-- A test that may end the reading with a no, as one of the conditions for a yes. -/
theorem if_some_false_eq_and (hp : c = true ↔ ¬p) (h : ¬p → r = some d) :
    (if p then some false else r) = some (c && d) := by
  by_cases hyes : p
  · rw [if_pos hyes, Bool.eq_false_iff.2 fun hc => hp.1 hc hyes, Bool.false_and]
  · rw [if_neg hyes, hp.2 hyes, Bool.true_and, h hyes]

/-- A test that may end the reading with a no where the conditions that follow say no as well. -/
theorem if_some_false_eq_some (hp : c = true → ¬p) (h : ¬p → r = some c) :
    (if p then some false else r) = some c := by
  by_cases hyes : p
  · rw [if_pos hyes, Bool.eq_false_iff.2 fun hc => hp hc hyes]
  · rw [if_neg hyes, h hyes]

end Steps

namespace Der

/-- The reads for whether an integer of `n` bytes from byte number `i` on has a needless zero. -/
def readPadded? (bs : Bytes) (i n : Nat) : Option Bool := do
  if n ≤ 1 then return false
  if (← bs[i]?) ≠ 0 then return false
  return (← bs[i + 1]?) &&& 0x80 == 0

def readCanonicalInt? (v : Bytes) : Option Bool := do
  if (← v[0]?) &&& 0x80 ≠ 0 then return false
  return !(← readPadded? v 0 v.length)

def readCanonicalTx? (bs : Bytes) : Option Bool := do
  if bs.length < 9 ∨ 73 < bs.length then return false
  if (← bs[0]?) ≠ sequenceTag then return false
  if (← bs[1]?).toNat + 3 ≠ bs.length then return false
  let lenR := (← bs[3]?).toNat
  if bs.length ≤ 5 + lenR then return false
  let lenS := (← bs[5 + lenR]?).toNat
  if lenR + lenS + 7 ≠ bs.length then return false
  if (← bs[2]?) ≠ integerTag then return false
  if lenR = 0 then return false
  if !(← readCanonicalInt? (← bs.readSlice? 4 lenR)) then return false
  if (← bs[4 + lenR]?) ≠ integerTag then return false
  if lenS = 0 then return false
  readCanonicalInt? (← bs.readSlice? (6 + lenR) lenS)

def readComponents? (body : Bytes) : Option (Except BodyFault (Bytes × Bytes)) := do
  if body.length < 5 then return .error .tooShort
  if (← body[0]?).toNat + 1 ≠ body.length then return .error .wrongLength
  if (← body[1]?) ≠ integerTag then return .error .noR
  let lenR := (← body[2]?).toNat
  if lenR = 0 ∨ body.length < 5 + lenR then return .error .badRLength
  if (← body[3 + lenR]?) ≠ integerTag then return .error .noS
  let lenS := (← body[4 + lenR]?).toNat
  if lenS = 0 ∨ 5 + lenR + lenS ≠ body.length then return .error .badSLength
  return .ok (← body.readSlice? 3 lenR, ← body.readSlice? (5 + lenR) (body.length - (5 + lenR)))

variable {bs v : Bytes} {i n : Nat}

theorem readPadded?_eq (h : i + n ≤ bs.length) :
    readPadded? bs i n =
      some (decide (1 < n) && (bs.byteAt i == 0 && bs.byteAt (i + 1) &&& 0x80 == 0)) := by
  unfold readPadded?
  refine if_some_false_eq_and (by simp) (fun hlong => ?_)
  rw [Bytes.read_bind (by omega)]
  refine if_some_false_eq_and (by simp) (fun hzero => ?_)
  rw [Bytes.read_bind (by omega)]
  rfl

theorem readCanonicalInt?_eq (h : v.length ≠ 0) :
    readCanonicalInt? v = some (isCanonicalInt v) := by
  have hcanon : isCanonicalInt v =
      (v.byteAt 0 &&& 0x80 == 0 && !(decide (1 < v.length) &&
        (v.byteAt 0 == 0 && v.byteAt 1 &&& 0x80 == 0))) := by
    rw [Bool.eq_iff_iff, isCanonicalInt_iff]
    simp only [Bool.and_eq_true, Bool.not_eq_true', Bool.eq_false_iff, ne_eq, beq_iff_eq,
      decide_eq_true_eq, and_signBit_eq_zero_iff, h, not_false_eq_true, true_and]
  rw [hcanon]
  unfold readCanonicalInt?
  rw [Bytes.read_bind (by omega)]
  refine if_some_false_eq_and (by simp) (fun hsign => ?_)
  rw [readPadded?_eq (by omega)]
  rfl

theorem readCanonicalInt?_slice (h : i + n ≤ bs.length) (hn : n ≠ 0) :
    readCanonicalInt? (bs.slice i n) = some (isCanonicalInt (bs.slice i n)) := by
  apply readCanonicalInt?_eq
  rw [Bytes.length_slice h]
  exact hn

theorem ne_zero_of_isCanonicalInt_slice (h : isCanonicalInt (bs.slice i n) = true) : n ≠ 0 := by
  rintro rfl
  cases h

theorem readCanonicalTx?_eq (bs : Bytes) : readCanonicalTx? bs = some (isCanonicalTx bs) := by
  unfold readCanonicalTx? isCanonicalTx
  simp only [Bool.and_assoc]
  refine if_some_false_eq_and (by simp) (fun hlen => ?_)
  rw [Bytes.read_bind (by omega)]
  refine if_some_false_eq_and (by simp) (fun htag => ?_)
  rw [Bytes.read_bind (by omega)]
  refine if_some_false_eq_and (by simp) (fun hbody => ?_)
  rw [Bytes.read_bind (by omega)]
  refine if_some_false_eq_and (by simp) (fun hlenR => ?_)
  rw [Bytes.read_bind (by omega)]
  refine if_some_false_eq_and (by simp) (fun hlenS => ?_)
  rw [Bytes.read_bind (by omega)]
  refine if_some_false_eq_and (by simp) (fun hmarkR => ?_)
  -- An integer without bytes is not canonical, so this test only keeps the next one from reading.
  refine if_some_false_eq_some (fun hcanon => ?_) (fun hR => ?_)
  · exact ne_zero_of_isCanonicalInt_slice (Bool.and_eq_true_iff.1 hcanon).1
  rw [Bytes.readSlice?_bind (by omega), readCanonicalInt?_slice (by omega) hR]
  refine if_some_false_eq_and (by simp) (fun hintR => ?_)
  rw [Bytes.read_bind (by omega)]
  refine if_some_false_eq_and (by simp) (fun hmarkS => ?_)
  refine if_some_false_eq_some (fun hcanon => ?_) (fun hS => ?_)
  · exact ne_zero_of_isCanonicalInt_slice hcanon
  · exact (Bytes.readSlice?_bind (by omega) _).trans (readCanonicalInt?_slice (by omega) hS)

theorem readComponents?_eq (body : Bytes) : readComponents? body = some (components body) := by
  unfold readComponents? components
  refine if_some_eq_some (fun hlen => ?_)
  rw [Bytes.read_bind (by omega)]
  refine if_some_eq_some (fun _ => ?_)
  rw [Bytes.read_bind (by omega)]
  refine if_some_eq_some (fun _ => ?_)
  rw [Bytes.read_bind (by omega)]
  refine if_some_eq_some (fun hR => ?_)
  rw [Bytes.read_bind (by omega)]
  refine if_some_eq_some (fun _ => ?_)
  rw [Bytes.read_bind (by omega)]
  refine if_some_eq_some (fun hS => ?_)
  have hend : 5 + (body.byteAt 2).toNat + (body.length - (5 + (body.byteAt 2).toNat)) =
      body.length := by omega
  rw [Bytes.readSlice?_bind (by omega), Bytes.readSlice?_bind (by omega),
    ← Bytes.drop_eq_slice hend]
  rfl

end Der

/-- The reads of the check of the form without the hash-type byte. -/
def readDerFault? (sig : Bytes) : Option (Option SigFault) := do
  let n := sig.length
  if n < 8 then return some (.tooShort n)
  if 72 < n then return some (.tooLong n)
  let tag ← sig[0]?
  if tag ≠ 0x30 then return some (.wrongType tag)
  let len ← sig[1]?
  if len.toNat + 2 ≠ n then return some (.wrongLength len (n - 2))
  let lenR := (← sig[3]?).toNat
  if n ≤ 4 + lenR then return some .noSMarker
  if n ≤ 5 + lenR then return some .noSLength
  let lenS := (← sig[5 + lenR]?).toNat
  if 6 + lenR + lenS ≠ n then return some .wrongSLength
  let markR ← sig[2]?
  if markR ≠ 0x02 then return some (.wrongRMarker markR)
  if lenR = 0 then return some .emptyR
  if (← sig[4]?) &&& 0x80 ≠ 0 then return some .negativeR
  if ← Der.readPadded? sig 4 lenR then return some .paddedR
  let markS ← sig[4 + lenR]?
  if markS ≠ 0x02 then return some (.wrongSMarker markS)
  if lenS = 0 then return some .emptyS
  if (← sig[6 + lenR]?) &&& 0x80 ≠ 0 then return some .negativeS
  if ← Der.readPadded? sig (6 + lenR) lenS then return some .paddedS
  return none

theorem readPadded?_bind {α : Type} {bs : Bytes} {i n : Nat} (h : i + n ≤ bs.length)
    (f g : Option α) :
    (Der.readPadded? bs i n >>= fun padded => if padded then f else g) =
      if 1 < n ∧ bs.byteAt i = 0 ∧ bs.byteAt (i + 1) &&& 0x80 = 0 then f else g := by
  rw [Der.readPadded?_eq h, Option.bind_eq_bind, Option.bind_some]
  simp only [Bool.and_eq_true, decide_eq_true_eq, beq_iff_eq]

theorem readDerFault?_eq (sig : Bytes) : readDerFault? sig = some (derFault? sig) := by
  unfold readDerFault? derFault?
  refine if_some_eq_some (fun hshort => ?_)
  refine if_some_eq_some (fun hlong => ?_)
  rw [Bytes.read_bind (by omega)]
  refine if_some_eq_some (fun htag => ?_)
  rw [Bytes.read_bind (by omega)]
  refine if_some_eq_some (fun hlen => ?_)
  rw [Bytes.read_bind (by omega)]
  refine if_some_eq_some (fun hmark => ?_)
  refine if_some_eq_some (fun hlenS => ?_)
  rw [Bytes.read_bind (by omega)]
  refine if_some_eq_some (fun hend => ?_)
  rw [Bytes.read_bind (by omega)]
  refine if_some_eq_some (fun hmarkR => ?_)
  refine if_some_eq_some (fun hR => ?_)
  rw [Bytes.read_bind (by omega)]
  refine if_some_eq_some (fun hsignR => ?_)
  rw [readPadded?_bind (by omega)]
  refine if_some_eq_some (fun hpadR => ?_)
  rw [Bytes.read_bind (by omega)]
  refine if_some_eq_some (fun hmarkS => ?_)
  refine if_some_eq_some (fun hS => ?_)
  rw [Bytes.read_bind (by omega)]
  refine if_some_eq_some (fun hsignS => ?_)
  rw [readPadded?_bind (by omega), Nat.add_right_comm 6 _ 1]
  exact if_some_eq_some (fun _ => rfl)

/-! ## The rule on S -/

theorem Curve.halfOrder_eq : Curve.halfOrder = Curve.groupOrder / 2 := by
  decide

/-- The content of the second integer, where the length of the first puts it. -/
def Der.fieldS (sig : Bytes) : Bytes :=
  sig.slice (6 + (sig.byteAt 3).toNat) (sig.byteAt (5 + (sig.byteAt 3).toNat)).toNat

/-- The third parser finds the S that the length bytes of a canonical form point at. -/
theorem hasLowS_iff {sig : Bytes} {t : HashType} (h : Der.isCanonicalTx (sig ++ [t]) = true) :
    hasLowS sig = true ↔
      1 ≤ Bytes.toNatBE (Der.fieldS sig) ∧
        Bytes.toNatBE (Der.fieldS sig) ≤ Curve.groupOrder / 2 := by
  cases sig with
  | nil => cases h
  | cons tag body =>
    obtain ⟨-, -, rc, sc, hparse, -, -⟩ := Der.isCanonicalTx_iff_components.1 h
    have hS : Der.fieldS (tag :: body) = sc := by
      obtain ⟨-, -, -, -, -, -, -, hsc⟩ := Der.components_eq_ok_iff.1 hparse
      rw [Der.fieldS, Bytes.byteAt_cons (i := 2) rfl,
        Bytes.byteAt_cons (i := 4 + (Bytes.byteAt body 2).toNat) (by omega),
        Bytes.slice_cons (i := 5 + (Bytes.byteAt body 2).toNat) (by omega), hsc]
    have hcomponents : (Signature.ofBody body).components = .ok (rc, sc) := by
      rw [Signature.components, Signature.ofBody, hparse]
    rw [hS, ← Curve.halfOrder_eq]
    show (Signature.ofBody body).hasLowS = true ↔ _
    rw [Signature.hasLowS, hcomponents, Bool.and_eq_true, decide_eq_true_eq, decide_eq_true_eq]
    exact Iff.rfl

/-- The reads of the rule on S. -/
def readLowS? (sig : Bytes) : Option Bool := do
  match sig with
  | [] => return false
  | _ :: body =>
    match ← Der.readComponents? body with
    | .error _ => return false
    | .ok (_, s) => return 0 < Bytes.toNatBE s && Bytes.toNatBE s ≤ Curve.halfOrder

theorem readLowS?_eq (sig : Bytes) : readLowS? sig = some (hasLowS sig) := by
  cases sig with
  | nil => rfl
  | cons tag body =>
    simp only [readLowS?, Der.readComponents?_eq, Option.bind_eq_bind, Option.bind_some, hasLowS,
      Signature.ofDer, Signature.hasLowS, Signature.components, Signature.ofBody]
    cases Der.components body <;> rfl

namespace Env

/-- The reads of the check with the flags. -/
def readSigForm? (env : Env) (sig : Bytes) : Option (Except Fault Unit) := do
  if !env.wantsDer || sig.isEmpty then return .ok ()
  match ← readDerFault? sig with
  | some fault => return .error (.badSignature fault)
  | none =>
    if !env.flags.has .lowS then return .ok ()
    return if ← readLowS? sig then .ok () else .error .highS

theorem readSigForm?_eq (env : Env) (sig : Bytes) :
    env.readSigForm? sig = some (env.checkSigForm sig) := by
  unfold readSigForm? checkSigForm
  refine if_some_eq_some (fun _ => ?_)
  rw [readDerFault?_eq, Option.bind_eq_bind, Option.bind_some]
  cases derFault? sig with
  | some fault => rfl
  | none =>
    cases hflag : env.flags.has .lowS with
    | false => rfl
    | true =>
      rw [readLowS?_eq]
      cases hasLowS sig <;> rfl

/-- Where the flags ask for canonical signatures, the check of a signature without its hash type
passes what the check of the transaction form passes with any hash type behind it, but for an S that
is too high where the flags look at S. Neither check fails to find a byte that it reads. -/
theorem checkSigForm_agrees (env : Env) (sig : Bytes) (t : HashType) :
    (env.wantsDer = true → sig ≠ [] →
      (env.flags.has .lowS = false →
        (env.checkSigForm sig = .ok () ↔ Der.isCanonicalTx (sig ++ [t]) = true)) ∧
      (env.flags.has .lowS = true →
        (env.checkSigForm sig = .ok () ↔
          Der.isCanonicalTx (sig ++ [t]) = true ∧ 1 ≤ Bytes.toNatBE (Der.fieldS sig) ∧
            Bytes.toNatBE (Der.fieldS sig) ≤ Curve.groupOrder / 2))) ∧
    env.readSigForm? sig = some (env.checkSigForm sig) ∧
    Der.readCanonicalTx? sig = some (Der.isCanonicalTx sig) := by
  refine ⟨fun hwants hsig => ⟨fun hflag => ?_, fun hflag => ?_⟩, readSigForm?_eq env sig,
    Der.readCanonicalTx?_eq sig⟩
  · rw [checkSigForm_eq_ok_iff, ← derFault?_eq_none_iff (t := t)]
    simp [hwants, hsig, hflag]
  · rw [checkSigForm_eq_ok_iff, derFault?_eq_none_iff (t := t)]
    simp only [hwants, hsig, hflag, ne_eq, not_false_eq_true, forall_const]
    exact and_congr_right fun hcanon => hasLowS_iff hcanon

/-- The highest S that is low, and the next one, in a form that is canonical as well. -/
theorem checkSigForm_agrees_halfOrder :
    let env : Env := ⟨.lowS, {}, none, 0⟩
    let sig := fun s => Der.sequenceTag :: Der.body [1] (Bytes.ofNatBE 32 s)
    env.checkSigForm (sig (Curve.groupOrder / 2)) = .ok () ∧
      env.checkSigForm (sig (Curve.groupOrder / 2 + 1)) ≠ .ok () ∧
      Der.isCanonicalTx (sig (Curve.groupOrder / 2 + 1) ++ [HashType.all]) = true := by
  intro env sig
  have h := fun s =>
    ((checkSigForm_agrees env (sig s) HashType.all).1 (by decide) (List.cons_ne_nil _ _)).2
      (by decide)
  refine ⟨(h _).2 ⟨by decide, by decide, by decide⟩, fun hok => ?_, by decide⟩
  have hhigh : ¬Bytes.toNatBE (Der.fieldS (sig (Curve.groupOrder / 2 + 1))) ≤
      Curve.groupOrder / 2 := by decide
  exact hhigh ((h _).1 hok).2.2

end Env

end SpendScript
