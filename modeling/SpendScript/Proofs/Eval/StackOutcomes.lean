import SpendScript.Proofs.Digits
import SpendScript.Eval.Stack

/-!
# SpendScript.Proofs.Eval.StackOutcomes

What may come of each operation on a stack, whether it succeeds or not. The items that it leaves are
no longer than those that it found, unless they are at most 32 bytes long, which covers digests,
truth values and numbers of 64 bits. The faults that it reports are faults of the script.

* `Outcome`: a condition on the result and one on the fault.
* `Stack.NoLongerThan`: no longer items than another stack has.
* `length_encode_le`: the length of a number as an item.
-/

namespace SpendScript

/-- A result meets `p`, and a fault meets `q`. -/
def Outcome {α : Type} (p : α → Prop) (q : Fault → Prop) : Except Fault α → Prop
  | .ok a => p a
  | .error f => q f

namespace Outcome

variable {α : Type} {p p' : α → Prop} {q q' : Fault → Prop} {r : Except Fault α}

theorem of_ok (h : Outcome p q r) {a : α} (hr : r = .ok a) : p a := by
  rw [hr] at h
  exact h

theorem of_error (h : Outcome p q r) {f : Fault} (hr : r = .error f) : q f := by
  rw [hr] at h
  exact h

theorem mono (h : Outcome p q r) (hp : ∀ a, p a → p' a) (hq : ∀ f, q f → q' f) :
    Outcome p' q' r := by
  cases r with
  | error f => exact hq f h
  | ok a => exact hp a h

end Outcome

/-- The fault lies in the script or in the spend, and not in the evaluation itself. -/
def Fault.Ordinary (f : Fault) : Prop := f.code ≠ .internal

theorem outcome_badIndex {α : Type} {p : α → Prop} {i depth : Nat} :
    Outcome p Fault.Ordinary (.error (.badIndex i depth)) := by
  simp [Outcome, Fault.Ordinary, Fault.code]

/-! ## Numbers as items -/

namespace Number

theorem length_encode_le {k : Nat} {n : Int} (h : n.natAbs < 256 ^ k) :
    (encode n).length ≤ k + 1 := by
  have hdigits := Bytes.length_magnitudeLE_le h
  unfold encode
  simp only
  split
  · simp
  · split
    · simp only [List.length_append, List.length_singleton]
      omega
    · split
      · simp only [List.length_append, List.length_dropLast, List.length_singleton]
        omega
      · omega

/-- The length of an item, as an item, is no longer than that item. -/
theorem length_encode_natCast_le (n : Nat) : (encode (n : Int)).length ≤ n := by
  match n with
  | 0 => simp [encode, Bytes.magnitudeLE]
  | 1 =>
    simp [encode, Bytes.magnitudeLE]
    decide
  | n + 2 =>
    have hlt : n + 2 < 256 ^ (n + 1) := by
      calc n + 2 < 2 ^ (n + 2) := Nat.lt_two_pow_self
        _ ≤ 2 ^ (8 * (n + 1)) := Nat.pow_le_pow_right (by decide) (by omega)
        _ = 256 ^ (n + 1) := Nat.pow_mul 2 8 (n + 1)
    exact length_encode_le hlt

/-- A number whose size is a machine word. -/
theorem length_encode_of_lt {n : Int} (h : n.natAbs < 2 ^ 64) : (encode n).length ≤ 32 := by
  have hlt : n.natAbs < 256 ^ 8 := Nat.lt_of_lt_of_eq h (by norm_num)
  exact Nat.le_trans (length_encode_le hlt) (by decide)

theorem length_encode_of_fits {n : Int} (h : fits n = true) : (encode n).length ≤ 32 := by
  simp only [fits, Bool.and_eq_true, decide_eq_true_eq] at h
  exact length_encode_of_lt (by omega)

theorem length_ofBool_le (b : Bool) : (ofBool b).length ≤ 32 := by
  cases b <;> simp [ofBool]

theorem decode_outcome (rule : NumberRule) (x : Bytes) :
    Outcome (fun _ => True) Fault.Ordinary (decode rule x) := by
  unfold decode
  split
  · simp [Outcome, Fault.Ordinary, Fault.code]
  · split
    · simp [Outcome, Fault.Ordinary, Fault.code]
    · trivial

end Number

namespace Stack

/-- Every item of `s'` has at most 32 bytes or is no longer than an item of `s`. -/
def NoLongerThan (s' s : Stack) : Prop :=
  ∀ x ∈ s', x.length ≤ 32 ∨ ∃ y ∈ s, x.length ≤ y.length

section NoLongerThan

variable {s s' s'' : Stack} {x : Bytes}

theorem noLongerThan_of_subset (h : s' ⊆ s) : s'.NoLongerThan s :=
  fun x hx => .inr ⟨x, h hx, Nat.le_refl _⟩

theorem NoLongerThan.refl (s : Stack) : s.NoLongerThan s :=
  noLongerThan_of_subset (List.Subset.refl s)

theorem NoLongerThan.trans (h' : s''.NoLongerThan s') (h : s'.NoLongerThan s) :
    s''.NoLongerThan s := by
  intro x hx
  obtain hshort | ⟨y, hy, hxy⟩ := h' x hx
  · exact .inl hshort
  · obtain hshort | ⟨z, hz, hyz⟩ := h y hy
    · exact .inl (Nat.le_trans hxy hshort)
    · exact .inr ⟨z, hz, Nat.le_trans hxy hyz⟩

theorem NoLongerThan.cons (h : s'.NoLongerThan s)
    (hx : x.length ≤ 32 ∨ ∃ y ∈ s, x.length ≤ y.length) : NoLongerThan (x :: s') s := by
  intro z hz
  obtain rfl | hz := List.mem_cons.1 hz
  · exact hx
  · exact h z hz

theorem NoLongerThan.tail (h : NoLongerThan (x :: s') s) : s'.NoLongerThan s :=
  fun y hy => h y (List.mem_cons_of_mem x hy)

end NoLongerThan

variable (rule : NumberRule) (s : Stack)

/-! ## Taking items -/

theorem peek_outcome (i : Nat) : Outcome (· ∈ s) Fault.Ordinary (s.peek i) := by
  unfold peek
  split
  · rename_i x hx
    exact List.mem_of_getElem? hx
  · exact outcome_badIndex

theorem removeAt_outcome (i : Nat) :
    Outcome (fun p => NoLongerThan (p.1 :: p.2) s) Fault.Ordinary (s.removeAt i) := by
  unfold removeAt
  split
  · rename_i x hx
    apply noLongerThan_of_subset
    exact List.cons_subset.2 ⟨List.mem_of_getElem? hx, List.eraseIdx_subset⟩
  · exact outcome_badIndex

theorem pop_outcome :
    Outcome (fun p => NoLongerThan (p.1 :: p.2) s) Fault.Ordinary s.pop := by
  cases s with
  | nil => exact outcome_badIndex
  | cons x s => exact NoLongerThan.refl (x :: s)

theorem popMany_outcome (n : Nat) :
    Outcome (fun p => p.2.NoLongerThan s) Fault.Ordinary (s.popMany n) := by
  unfold popMany
  split
  · exact noLongerThan_of_subset (List.drop_subset n s)
  · exact outcome_badIndex

theorem popNumber_outcome :
    Outcome (fun p => p.2.NoLongerThan s) Fault.Ordinary (s.popNumber rule) := by
  unfold popNumber
  split
  · rename_i hpop
    exact (pop_outcome s).of_error hpop
  · rename_i x s' hpop
    split
    · rename_i hdecode
      exact (Number.decode_outcome rule x).of_error hdecode
    · exact ((pop_outcome s).of_ok hpop).tail

theorem peekNumber_outcome (i : Nat) :
    Outcome (fun _ => True) Fault.Ordinary (s.peekNumber rule i) := by
  unfold peekNumber
  split
  · rename_i hpeek
    exact (peek_outcome s i).of_error hpeek
  · exact Number.decode_outcome rule _

theorem popPlace_outcome :
    Outcome (fun p => p.2.NoLongerThan s) Fault.Ordinary (s.popPlace rule) := by
  unfold popPlace
  split
  · rename_i hpop
    exact (popNumber_outcome rule s).of_error hpop
  · rename_i hpop
    simp only
    split
    · simp [Outcome, Fault.Ordinary, Fault.code]
    · exact (popNumber_outcome rule s).of_ok hpop

theorem popTwo_outcome :
    Outcome (fun p => p.2.2.NoLongerThan s) Fault.Ordinary (s.popTwo rule) := by
  unfold popTwo
  split
  · rename_i hpop
    exact (popNumber_outcome rule s).of_error hpop
  · rename_i b s' hpop
    split
    · rename_i hpop'
      exact (popNumber_outcome rule s').of_error hpop'
    · rename_i hpop'
      exact ((popNumber_outcome rule s').of_ok hpop').trans ((popNumber_outcome rule s).of_ok hpop)

/-! ## Moving items -/

theorem dropN_outcome (n : Nat) : Outcome (·.NoLongerThan s) Fault.Ordinary (s.dropN n) := by
  unfold dropN
  split
  · exact noLongerThan_of_subset (List.drop_subset n s)
  · exact outcome_badIndex

theorem tuck_outcome : Outcome (·.NoLongerThan s) Fault.Ordinary s.tuck := by
  unfold tuck
  split
  · apply noLongerThan_of_subset
    simp
  · exact outcome_badIndex

theorem pick_outcome (i : Nat) : Outcome (·.NoLongerThan s) Fault.Ordinary (s.pick i) := by
  unfold pick
  split
  · rename_i hpeek
    exact (peek_outcome s i).of_error hpeek
  · rename_i hpeek
    apply noLongerThan_of_subset
    exact List.cons_subset.2 ⟨(peek_outcome s i).of_ok hpeek, List.Subset.refl s⟩

theorem roll_outcome (i : Nat) : Outcome (·.NoLongerThan s) Fault.Ordinary (s.roll i) := by
  unfold roll
  split
  · rename_i hremove
    exact (removeAt_outcome s i).of_error hremove
  · rename_i hremove
    exact (removeAt_outcome s i).of_ok hremove

/-- What one round keeps, the loop keeps. -/
theorem repeated_outcome {op : Stack → Except Fault Stack}
    (hop : ∀ s, Outcome (·.NoLongerThan s) Fault.Ordinary (op s)) (n : Nat) :
    Outcome (·.NoLongerThan s) Fault.Ordinary (settled (repeated op n s)) := by
  induction n generalizing s with
  | zero => exact NoLongerThan.refl s
  | succ n ih =>
    rw [repeated]
    split
    · rename_i hround
      exact (hop s).of_error hround
    · rename_i s' hround
      exact (ih s').mono (fun _ h => h.trans ((hop s).of_ok hround)) fun _ h => h

theorem dupN_outcome (n : Nat) : Outcome (·.NoLongerThan s) Fault.Ordinary (s.dupN n) :=
  repeated_outcome s (fun s => pick_outcome s _) n

theorem swapN_outcome (n : Nat) : Outcome (·.NoLongerThan s) Fault.Ordinary (s.swapN n) :=
  repeated_outcome s (fun s => roll_outcome s _) n

theorem overN_outcome (n : Nat) : Outcome (·.NoLongerThan s) Fault.Ordinary (s.overN n) :=
  repeated_outcome s (fun s => pick_outcome s _) n

theorem rotN_outcome (n : Nat) : Outcome (·.NoLongerThan s) Fault.Ordinary (s.rotN n) :=
  repeated_outcome s (fun s => roll_outcome s _) n

theorem nip_outcome : Outcome (·.NoLongerThan s) Fault.Ordinary s.nip := by
  unfold nip
  split
  · rename_i hremove
    exact (removeAt_outcome s 1).of_error hremove
  · rename_i hremove
    exact ((removeAt_outcome s 1).of_ok hremove).tail

theorem ifDup_outcome : Outcome (·.NoLongerThan s) Fault.Ordinary s.ifDup := by
  unfold ifDup
  split
  · rename_i hpeek
    exact (peek_outcome s 0).of_error hpeek
  · rename_i x hpeek
    apply noLongerThan_of_subset
    split
    · exact List.cons_subset.2 ⟨(peek_outcome s 0).of_ok hpeek, List.Subset.refl s⟩
    · exact List.Subset.refl s

theorem pickTop_outcome : Outcome (·.NoLongerThan s) Fault.Ordinary (s.pickTop rule) := by
  unfold pickTop
  split
  · rename_i hpop
    exact (popPlace_outcome rule s).of_error hpop
  · rename_i i s' hpop
    exact (pick_outcome s' i).mono (fun _ h => h.trans ((popPlace_outcome rule s).of_ok hpop))
      fun _ h => h

theorem rollTop_outcome : Outcome (·.NoLongerThan s) Fault.Ordinary (s.rollTop rule) := by
  unfold rollTop
  split
  · rename_i hpop
    exact (popPlace_outcome rule s).of_error hpop
  · rename_i i s' hpop
    exact (roll_outcome s' i).mono (fun _ h => h.trans ((popPlace_outcome rule s).of_ok hpop))
      fun _ h => h

/-! ## New items -/

theorem size_outcome : Outcome (·.NoLongerThan s) Fault.Ordinary s.size := by
  unfold size
  split
  · rename_i hpeek
    exact (peek_outcome s 0).of_error hpeek
  · rename_i x hpeek
    apply (NoLongerThan.refl s).cons
    exact .inr ⟨x, (peek_outcome s 0).of_ok hpeek, Number.length_encode_natCast_le x.length⟩

theorem equal_outcome : Outcome (·.NoLongerThan s) Fault.Ordinary s.equal := by
  unfold equal
  split
  · rename_i a b s
    exact ((NoLongerThan.refl (a :: b :: s)).tail.tail).cons (.inl (Number.length_ofBool_le _))
  · exact outcome_badIndex

theorem digest_outcome {n : Nat} (hn : n ≤ 32) (hash : Bytes → Digest n) :
    Outcome (·.NoLongerThan s) Fault.Ordinary (s.digest hash) := by
  cases s with
  | nil => exact outcome_badIndex
  | cons x s =>
    refine ((NoLongerThan.refl (x :: s)).tail).cons (.inl ?_)
    rw [(hash x).length_eq]
    exact hn

theorem pushFitting_outcome (n : Int) :
    Outcome (·.NoLongerThan s) Fault.Ordinary (s.pushFitting n) := by
  unfold pushFitting
  split
  · rename_i hfits
    exact (NoLongerThan.refl s).cons (.inl (Number.length_encode_of_fits hfits))
  · simp [Outcome, Fault.Ordinary, Fault.code]

theorem unary_outcome (f : Int → Int) :
    Outcome (·.NoLongerThan s) Fault.Ordinary (s.unary rule f) := by
  unfold unary
  split
  · rename_i hpop
    exact (popNumber_outcome rule s).of_error hpop
  · rename_i a s' hpop
    exact (pushFitting_outcome s' (f a)).mono
      (fun _ h => h.trans ((popNumber_outcome rule s).of_ok hpop)) fun _ h => h

theorem binary_outcome (f : Int → Int → Int) :
    Outcome (·.NoLongerThan s) Fault.Ordinary (s.binary rule f) := by
  unfold binary
  split
  · rename_i hpop
    exact (popTwo_outcome rule s).of_error hpop
  · rename_i a b s' hpop
    exact (pushFitting_outcome s' (f a b)).mono
      (fun _ h => h.trans ((popTwo_outcome rule s).of_ok hpop)) fun _ h => h

theorem compare_outcome (f : Int → Int → Bool) :
    Outcome (·.NoLongerThan s) Fault.Ordinary (s.compare rule f) := by
  unfold compare
  split
  · rename_i hpop
    exact (popTwo_outcome rule s).of_error hpop
  · rename_i a b s' hpop
    exact ((popTwo_outcome rule s).of_ok hpop).cons (.inl (Number.length_ofBool_le _))

theorem within_outcome : Outcome (·.NoLongerThan s) Fault.Ordinary (s.within rule) := by
  unfold within
  split
  · rename_i hpop
    exact (popTwo_outcome rule s).of_error hpop
  · rename_i low high s' hpop
    split
    · rename_i hpop'
      exact (popNumber_outcome rule s').of_error hpop'
    · rename_i hpop'
      have hrest := ((popNumber_outcome rule s').of_ok hpop').trans
        ((popTwo_outcome rule s).of_ok hpop)
      exact hrest.cons (.inl (Number.length_ofBool_le _))

end Stack
end SpendScript
