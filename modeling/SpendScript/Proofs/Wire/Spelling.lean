import SpendScript.Proofs.Wire.RoundTrip

/-!
# SpendScript.Proofs.Wire.Spelling

The forms of numbers, byte strings and lists of variable length. The reader of compact-size integers
takes every form of a number and not only the shortest one, so a byte string or a list has one form
for each form of its length.

* `accepts_compactSize`, `accepts_prefixed`, `accepts_many`: the readers accept these forms.
* `shortestSize_iff`: of all forms of a number the one that is written is the only shortest one.
-/

namespace SpendScript
namespace Wire

/-! ## Compact-size integers -/

/-- The forms of a number that are read as it: a byte below the markers, or any marker whose bytes
can hold the number. -/
inductive SizeForm (n : Nat) : Bytes → Prop where
  | byte (h : n < 0xfd) : SizeForm n (Bytes.ofNatLE 1 n)
  | marked (marker : Nat) (hmarker : 0xfd ≤ marker ∧ marker < 256)
      (h : n < 256 ^ Reader.payloadWidth marker) :
      SizeForm n (UInt8.ofNat marker :: Bytes.ofNatLE (Reader.payloadWidth marker) n)

/-- A form of a number that no other form is shorter than. -/
def ShortestSize (n : Nat) (bs : Bytes) : Prop :=
  SizeForm n bs ∧ ∀ bs', SizeForm n bs' → bs.length ≤ bs'.length

theorem payloadWidth_le (marker : Nat) : Reader.payloadWidth marker ≤ 8 := by
  unfold Reader.payloadWidth
  split_ifs
  all_goals omega

theorem SizeForm.lt_lengthLimit {n : Nat} {bs : Bytes} (h : SizeForm n bs) : n < lengthLimit := by
  cases h with
  | byte h => exact Nat.lt_trans h (by decide)
  | marked marker hmarker h =>
    calc
      n < 256 ^ Reader.payloadWidth marker := h
      _ ≤ 256 ^ 8 := Nat.pow_le_pow_right (by decide) (payloadWidth_le marker)
      _ = lengthLimit := by decide

theorem accepts_compactSize : Accepts Reader.compactSize (fun n bs => SizeForm n.toNat bs) := by
  rw [Reader.compactSize_eq_andThen]
  refine ((accepts_nat 1).andThen fun marker => Accepts.ite (accepts_pure (UInt64.ofNat marker))
    ((accepts_nat _).map UInt64.ofNat)).congr fun n bs => ⟨?_, ?_⟩
  · rintro ⟨marker, _, _, ⟨hbyte, rfl⟩, (⟨hsmall, rfl, rfl⟩ | ⟨hmarker, m, rfl, hm, rfl⟩), rfl⟩
    · rw [List.append_nil, toNat_ofNat_length (Nat.lt_trans hsmall (by decide))]
      exact .byte hsmall
    · have hform := SizeForm.marked marker ⟨Nat.not_lt.1 hmarker, hbyte⟩ hm
      rw [toNat_ofNat_length hform.lt_lengthLimit]
      exact hform
  · intro hform
    cases hform with
    | byte h =>
      exact ⟨n.toNat, _, [], ⟨Nat.lt_trans h (by decide), rfl⟩,
        .inl ⟨h, UInt64.ofNat_toNat.symm, rfl⟩, (List.append_nil _).symm⟩
    | marked marker hmarker h =>
      exact ⟨marker, _, _, ⟨hmarker.2, rfl⟩, .inr ⟨Nat.not_lt.2 hmarker.1, n.toNat,
        UInt64.ofNat_toNat.symm, h, rfl⟩, rfl⟩

theorem sizeForm_compactSize {n : Nat} (h : n < lengthLimit) : SizeForm n (compactSize n) := by
  unfold compactSize lengthLimit at *
  split
  · exact .byte ‹_›
  · split
    · exact .marked 0xfd (by decide) (by simp [Reader.payloadWidth]; omega)
    · split
      · exact .marked 0xfe (by decide) (by simp [Reader.payloadWidth]; omega)
      · exact .marked 0xff (by decide) (by simp [Reader.payloadWidth]; omega)

/-- Every form of a number but the one that is written is longer than it. -/
theorem SizeForm.eq_or_lt {n : Nat} {bs : Bytes} (h : SizeForm n bs) :
    bs = compactSize n ∨ (compactSize n).length < bs.length := by
  cases h with
  | byte h =>
    rw [compactSize, if_pos h]
    exact .inl rfl
  | marked marker hmarker h =>
    have hcases : marker = 0xfd ∨ marker = 0xfe ∨ marker = 0xff := by omega
    rw [length_compactSize, List.length_cons, Bytes.length_ofNatLE, compactSize]
    rcases hcases with rfl | rfl | rfl
    · have hn : n ≤ 0xffff := Nat.le_of_lt_succ h
      by_cases hsmall : n < 0xfd
      · simp [hsmall, Reader.payloadWidth]
      · rw [if_neg hsmall, if_pos hn]
        exact .inl rfl
    · have hn : n ≤ 0xffffffff := Nat.le_of_lt_succ h
      by_cases hsmall : n ≤ 0xffff
      · refine .inr ?_
        simp only [Reader.payloadWidth]
        split_ifs <;> omega
      · rw [if_neg (by omega), if_neg hsmall, if_pos hn]
        exact .inl rfl
    · by_cases hsmall : n ≤ 0xffffffff
      · refine .inr ?_
        simp only [Reader.payloadWidth]
        split_ifs <;> omega
      · rw [if_neg (by omega), if_neg (by omega), if_neg hsmall]
        exact .inl rfl

theorem shortestSize_iff {n : Nat} {bs : Bytes} :
    ShortestSize n bs ↔ n < lengthLimit ∧ bs = compactSize n := by
  constructor
  · rintro ⟨hform, hshortest⟩
    refine ⟨hform.lt_lengthLimit, ?_⟩
    rcases hform.eq_or_lt with heq | hlt
    · exact heq
    · exact absurd (hshortest _ (sizeForm_compactSize hform.lt_lengthLimit)) (Nat.not_le.2 hlt)
  · rintro ⟨hn, rfl⟩
    refine ⟨sizeForm_compactSize hn, fun bs' hform => ?_⟩
    rcases hform.eq_or_lt with rfl | hlt
    · exact Nat.le_refl _
    · exact Nat.le_of_lt hlt

/-! ## Byte strings behind their length, and counted lists -/

/-- The bytes of a byte string behind a form of its length. -/
def PrefixedForm (size : Nat → Bytes → Prop) (bs w : Bytes) : Prop :=
  ∃ length, size bs.length length ∧ w = length ++ bs

/-- The forms of the elements of a list, one after the other. -/
inductive ListForm {α : Type} (form : α → Bytes → Prop) : List α → Bytes → Prop where
  | nil : ListForm form [] []
  | cons {a : α} {as : List α} {s t : Bytes} (head : form a s) (tail : ListForm form as t) :
      ListForm form (a :: as) (s ++ t)

/-- The elements of a list behind a form of their number. -/
def CountedForm {α : Type} (size : Nat → Bytes → Prop) (form : α → Bytes → Prop) (as : List α)
    (w : Bytes) : Prop :=
  ∃ count elements, size as.length count ∧ ListForm form as elements ∧ w = count ++ elements

theorem accepts_prefixed : Accepts Reader.prefixed (PrefixedForm SizeForm) := by
  rw [Reader.prefixed_eq_andThen]
  refine (accepts_compactSize.andThen fun n => accepts_bytes n.toNat).congr fun bs w => ⟨?_, ?_⟩
  · rintro ⟨n, s, _, hs, ⟨rfl, hlen⟩, rfl⟩
    exact ⟨s, hlen ▸ hs, rfl⟩
  · rintro ⟨s, hs, rfl⟩
    have hlen := toNat_ofNat_length hs.lt_lengthLimit
    exact ⟨UInt64.ofNat bs.length, s, bs, hlen.symm ▸ hs, ⟨rfl, hlen.symm⟩, rfl⟩

section Lists

variable {α : Type} {read : Reader → ReadResult α} {form : α → Bytes → Prop}

theorem accepts_many (h : Accepts read form) (n : Nat) :
    Accepts (Reader.many read n) (fun as w => as.length = n ∧ ListForm form as w) := by
  induction n with
  | zero =>
    refine (accepts_pure []).congr fun as w => ⟨?_, ?_⟩
    · rintro ⟨rfl, rfl⟩
      exact ⟨rfl, .nil⟩
    · rintro ⟨hlen, hform⟩
      obtain rfl := List.length_eq_zero_iff.1 hlen
      cases hform
      exact ⟨rfl, rfl⟩
  | succ n ih =>
    have heq : Reader.many read (n + 1) = fun r =>
        andThen (read r) fun a r' => andThen (Reader.many read n r') fun as r'' =>
          .ok (a :: as, r'') := by
      funext r
      grind [Reader.many, andThen]
    rw [heq]
    refine (h.andThen fun a => ih.map (a :: ·)).congr fun as w => ⟨?_, ?_⟩
    · rintro ⟨a, s, t, ha, ⟨as, rfl, hlen, has⟩, rfl⟩
      exact ⟨congrArg (· + 1) hlen, .cons ha has⟩
    · rintro ⟨hlen, hform⟩
      cases hform with
      | nil => cases hlen
      | @cons a as s t ha has => exact ⟨a, s, t, ha, ⟨as, rfl, Nat.succ.inj hlen, has⟩, rfl⟩

theorem ListForm.forall_mem {p : α → Prop} {as : List α} {w : Bytes} (h : ListForm form as w)
    (hp : ∀ a s, form a s → p a) : ∀ a ∈ as, p a := by
  induction h with
  | nil => simp
  | cons ha has ih => simpa using ⟨hp _ _ ha, ih⟩

theorem ListForm.flatMap {encode : α → Bytes} {as : List α} (h : ∀ a ∈ as, form a (encode a)) :
    ListForm form as (as.flatMap encode) := by
  induction as with
  | nil => exact .nil
  | cons a as ih =>
    have htail := ih fun a' ha' => h a' (List.mem_cons_of_mem a ha')
    exact .cons (h a List.mem_cons_self) htail

/-- Where an element has only the form that is written for it, so has the list. -/
theorem ListForm.eq_flatMap {encode : α → Bytes} (hform : ∀ a s, form a s → s = encode a)
    {as : List α} {w : Bytes} (h : ListForm form as w) : w = as.flatMap encode := by
  induction h with
  | nil => rfl
  | cons ha has ih => rw [List.flatMap_cons, ← hform _ _ ha, ih]

end Lists

end Wire
end SpendScript
