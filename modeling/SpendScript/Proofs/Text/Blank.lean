import Mathlib
import SpendScript.Text.Blank

/-!
# SpendScript.Proofs.Text.Blank

What taking white space off both ends of a text leaves, and the words between white space.

* `exists_blanks_trim`: a text is what is left of it between two stretches of blanks.
* `trim_eq_iff`: where what is left has no blanks in it, nothing else than blanks is taken off.
* `wordsAux_append_blank`, `wordsAux_of_no_blank`: a word ends at the next blank or with the text.
-/

namespace SpendScript
namespace Text

/-- The visible characters of ASCII are no blanks. -/
theorem isBlank_of_visible {c : Char} (h : 0x21 ≤ c.toNat ∧ c.toNat ≤ 0x7e) :
    isBlank c = false := by
  rw [Bool.eq_false_iff]
  intro hblank
  simp only [isBlank, Bool.or_eq_true, Bool.and_eq_true, decide_eq_true_eq, beq_iff_eq] at hblank
  omega

theorem exists_blanks_trim (cs : List Char) :
    ∃ before after : List Char, (∀ c ∈ before, isBlank c = true) ∧
      (∀ c ∈ after, isBlank c = true) ∧ cs = before ++ trim cs ++ after := by
  let rest := cs.dropWhile isBlank
  refine ⟨cs.takeWhile isBlank, (rest.reverse.takeWhile isBlank).reverse, ?_, ?_, ?_⟩
  · intro c hc
    exact List.mem_takeWhile_imp hc
  · intro c hc
    exact List.mem_takeWhile_imp (List.mem_reverse.1 hc)
  · have hrest : rest = trim cs ++ (rest.reverse.takeWhile isBlank).reverse := by
      rw [trim, ← List.reverse_append, List.takeWhile_append_dropWhile, List.reverse_reverse]
    calc
      cs = cs.takeWhile isBlank ++ rest := List.takeWhile_append_dropWhile.symm
      _ = cs.takeWhile isBlank ++ (trim cs ++ (rest.reverse.takeWhile isBlank).reverse) := by
        rw [← hrest]
      _ = cs.takeWhile isBlank ++ trim cs ++ (rest.reverse.takeWhile isBlank).reverse := by
        rw [List.append_assoc]

section Core

variable {before core after : List Char}

theorem dropWhile_append_core (hbefore : ∀ c ∈ before, isBlank c = true)
    (hcore : ∀ c ∈ core, isBlank c = false) (hne : core ≠ []) :
    (before ++ (core ++ after)).dropWhile isBlank = core ++ after := by
  rw [List.dropWhile_append_of_pos hbefore]
  cases core with
  | nil => exact absurd rfl hne
  | cons c cs => rw [List.cons_append, List.dropWhile_cons_of_neg]; simp [hcore]

theorem trim_append_core (hbefore : ∀ c ∈ before, isBlank c = true)
    (hafter : ∀ c ∈ after, isBlank c = true) (hcore : ∀ c ∈ core, isBlank c = false)
    (hne : core ≠ []) : trim (before ++ core ++ after) = core := by
  have hreverse : (after.reverse ++ (core.reverse ++ [])).dropWhile isBlank =
      core.reverse ++ [] := by
    refine dropWhile_append_core ?_ ?_ (List.reverse_ne_nil_iff.2 hne)
    · intro c hc
      exact hafter c (List.mem_reverse.1 hc)
    · intro c hc
      exact hcore c (List.mem_reverse.1 hc)
  rw [List.append_nil] at hreverse
  rw [trim, List.append_assoc, dropWhile_append_core hbefore hcore hne, List.reverse_append,
    hreverse, List.reverse_reverse]

/-- A text without blanks is left exactly of itself between blanks. -/
theorem trim_eq_iff {cs : List Char} (hcore : ∀ c ∈ core, isBlank c = false) (hne : core ≠ []) :
    trim cs = core ↔ ∃ before after : List Char, (∀ c ∈ before, isBlank c = true) ∧
      (∀ c ∈ after, isBlank c = true) ∧ cs = before ++ core ++ after := by
  constructor
  · rintro rfl
    exact exists_blanks_trim cs
  · rintro ⟨before, after, hbefore, hafter, rfl⟩
    exact trim_append_core hbefore hafter hcore hne

end Core

section Words

variable {w : List Char} (hw : ∀ c ∈ w, isBlank c = false)
include hw

theorem wordsAux_of_no_blank : wordsAux w = [w] := by
  induction w with
  | nil => rfl
  | cons c w ih =>
    rw [List.forall_mem_cons] at hw
    rw [wordsAux, hw.1, if_neg Bool.false_ne_true, ih hw.2, extendFirst]

theorem wordsAux_append_blank {b : Char} (hb : isBlank b = true) (rest : List Char) :
    wordsAux (w ++ b :: rest) = w :: wordsAux rest := by
  induction w with
  | nil => rw [List.nil_append, wordsAux, if_pos hb]
  | cons c w ih =>
    rw [List.forall_mem_cons] at hw
    rw [List.cons_append, wordsAux, hw.1, if_neg Bool.false_ne_true, ih hw.2, extendFirst]

end Words

end Text
end SpendScript
