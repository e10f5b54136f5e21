import SpendScript.Block.Basic
import SpendScript.Proofs.Block.Merkle
import Mathlib.Order.Bounds.Defs

/-!
# SpendScript.Proofs.Block.Bisection

The hash tree from its top. A tree of height `h` has room for `2 ^ h` elements; the left half of it
is full before the right half has any, and a half without elements has the value of the other one.
The levels of `Merkle.root?` come to the same value, whatever is hashed with.

* `Merkle.bisect?`: the value of the tree of some height over a list.
* `Merkle.bisect?_succ`: a level of a tree has one height more than the level above it.
* `Merkle.root?_eq_bisect?`: the root of a list is the value of the lowest tree over it.
* `Identifier.merkleRoot_eq_bisect`: the root over identifiers.
-/

namespace SpendScript

namespace Merkle

variable {α : Type} {hash : α → α → α}

/-- The value of the tree of height `h` over a list. There is none over no elements, and none over
more than `2 ^ h`. -/
def bisect? (hash : α → α → α) : Nat → List α → Option α
  | 0, [a] => some a
  | 0, _ => none
  | h + 1, l =>
    if l.length ≤ 2 ^ h then (bisect? hash h l).map fun half => hash half half
    else
      match bisect? hash h (l.take (2 ^ h)), bisect? hash h (l.drop (2 ^ h)) with
      | some left, some right => some (hash left right)
      | _, _ => none

/-- By induction on the height; both sides split where the list has more elements than the left half
has room for. -/
theorem bisect?_succ (h : Nat) (l : List α) :
    bisect? hash (h + 1) l = bisect? hash h (pairUp hash l) := by
  induction h generalizing l with
  | zero =>
    match l with
    | [] | [_] | [_, _] | [_, _, _] | _ :: _ :: _ :: _ :: _ => rfl
  | succ h ih =>
    have hroom : 2 * 2 ^ h = 2 ^ (h + 1) := (Nat.pow_succ').symm
    have hlength := length_pairUp hash l
    rw [bisect?]
    conv_rhs => rw [bisect?]
    by_cases hfits : l.length ≤ 2 ^ (h + 1)
    · rw [if_pos hfits, if_pos (by omega), ih l]
    · have hle : 2 * 2 ^ h ≤ l.length := by omega
      rw [if_neg hfits, if_neg (by omega), ih, ih, ← hroom, pairUp_take hle, pairUp_drop hle]

/-- By induction on the height. -/
theorem root?_eq_bisect? {h : Nat} {l : List α} (hne : l ≠ [])
    (hh : IsLeast {k | l.length ≤ 2 ^ k} h) : root? hash l = bisect? hash h l := by
  induction h generalizing l with
  | zero =>
    have hone : l.length = 1 := Nat.le_antisymm hh.1 (List.length_pos_iff.2 hne)
    obtain ⟨a, rfl⟩ := List.length_eq_one_iff.1 hone
    rw [root?, bisect?]
  | succ h ih =>
    have hroom : l.length ≤ 2 ^ (h + 1) := hh.1
    have hsplits : 2 ^ h < l.length := by
      rw [← Nat.not_le]
      intro hfits
      exact Nat.not_succ_le_self h (hh.2 hfits)
    have hlength := length_pairUp hash l
    have htwo : 2 ≤ l.length := Nat.lt_of_le_of_lt Nat.one_le_two_pow hsplits
    rw [root?_of_two_le htwo, bisect?_succ]
    apply ih
    · rw [← List.length_pos_iff]
      omega
    · refine ⟨?_, fun k hk => ?_⟩
      · show (pairUp hash l).length ≤ 2 ^ h
        omega
      · have hk : (pairUp hash l).length ≤ 2 ^ k := hk
        have hbelow : l.length ≤ 2 ^ (k + 1) := by omega
        exact Nat.le_of_succ_le_succ (hh.2 hbelow)

/-- The last of five elements stands in its half alone, and is doubled on two levels. -/
example (a b c d e : α) : bisect? hash 3 [a, b, c, d, e] =
    some (hash (hash (hash a b) (hash c d)) (hash (hash e e) (hash e e))) := rfl

end Merkle

namespace Identifier

/-- The hash of two neighbours, with `sha` in the place of the double hash. -/
def joinBy (sha : Bytes → Digest 32) (a b : Identifier) : Identifier := sha (a.bytes ++ b.bytes)

/-- The root over identifiers, with `sha` in the place of the double hash. -/
def merkleRootBy (sha : Bytes → Digest 32) (ids : List Identifier) : Identifier :=
  (Merkle.root? (joinBy sha) ids).getD (Digest.zero 32)

/-- **The levels come to the tree.** The root over some identifiers is the value of the lowest tree
that has room for them, whatever function they are hashed with. -/
theorem merkleRoot_eq_bisect {ids : List Identifier} (hne : ids ≠ []) {h : Nat}
    (hh : IsLeast {k | ids.length ≤ 2 ^ k} h) :
    merkleRoot ids = merkleRootBy Hash.sha256d ids ∧
      ∀ sha, Merkle.bisect? (joinBy sha) h ids = some (merkleRootBy sha ids) := by
  refine ⟨rfl, fun sha => ?_⟩
  have hsome : Merkle.root? (joinBy sha) ids ≠ none := fun hnone =>
    hne (Merkle.root?_eq_none_iff.1 hnone)
  obtain ⟨root, hroot⟩ := Option.ne_none_iff_exists'.1 hsome
  rw [← Merkle.root?_eq_bisect? hne hh, merkleRootBy, hroot, Option.getD_some]

def five : List Identifier :=
  [1, 2, 3, 4, 5].map fun b => ⟨List.replicate 32 b, List.length_replicate⟩

theorem merkleRoot_eq_bisect_five :
    five ≠ [] ∧ IsLeast {k | five.length ≤ 2 ^ k} 3 ∧
      Merkle.bisect? (joinBy Hash.sha256d) 3 five = some (merkleRoot five) := by
  have hne : five ≠ [] := by decide
  have hleast : IsLeast {k | five.length ≤ 2 ^ k} 3 := by
    refine ⟨by decide, fun k hk => ?_⟩
    rw [← Nat.not_lt]
    intro hlt
    have hfive : five.length ≤ 2 ^ k := hk
    have hfour : 2 ^ k ≤ 2 ^ 2 := Nat.pow_le_pow_right (by decide) (Nat.le_of_lt_succ hlt)
    exact absurd (Nat.le_trans hfive hfour) (by decide)
  exact ⟨hne, hleast, (merkleRoot_eq_bisect hne hleast).2 Hash.sha256d⟩

end Identifier
end SpendScript
