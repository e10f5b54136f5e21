import Mathlib
import SpendScript.Eval.Stack

/-!
# SpendScript.Proofs.Eval.Groups

Groups of items on a stack, and the operations that lay them out anew. Each operation is a loop
whose rounds pick or take one item from one fixed place. A round adds an item above that place, or
moves the items above it down by one, so that the next round finds the item above the last one
there: the group comes to the top from its lowest item on, and its order is kept.

* `repeated_pick`, `repeated_roll`: the loops, by induction on the group from its lowest item.
* `Regroups`: an operation finds some groups and leaves others, or fails and leaves all as it was.
* `regroups_pick`, `regroups_roll`: the lowest of any number of groups comes to the top.
* `regroups`: what each of the four operations makes of the groups.
-/

namespace SpendScript.Stack

/-! ## Rounds -/

theorem pick_length_append (above below : Stack) (x : Bytes) :
    pick above.length (above ++ x :: below) = .ok (x :: (above ++ x :: below)) := by
  simp [pick, peek]

theorem roll_length_append (above below : Stack) (x : Bytes) :
    roll above.length (above ++ x :: below) = .ok (x :: (above ++ below)) := by
  simp [roll, removeAt, List.eraseIdx_append_of_length_le]

theorem pick_eq_error {i : Nat} {s : Stack} (h : s.depth ≤ i) :
    pick i s = .error (.badIndex i s.depth) := by
  rw [depth] at h
  simp [pick, peek, List.getElem?_eq_none h, depth]

theorem roll_eq_error {i : Nat} {s : Stack} (h : s.depth ≤ i) :
    roll i s = .error (.badIndex i s.depth) := by
  rw [depth] at h
  simp [roll, removeAt, List.getElem?_eq_none h, depth]

/-! ## Loops -/

/-- The first round fails, and there is no other. -/
theorem repeated_eq_error {op : Stack → Except Fault Stack} {s : Stack} {f : Fault}
    (h : op s = .error f) {n : Nat} (hn : 1 ≤ n) : repeated op n s = (s, .error f) := by
  obtain ⟨k, rfl⟩ := Nat.exists_eq_add_of_le' hn
  rw [repeated, h]

/-- A group is copied from below `above`. -/
theorem repeated_pick (group above below : Stack) {i : Nat}
    (hi : i = above.length + group.length - 1) :
    repeated (pick i) group.length (above ++ (group ++ below)) =
      (group ++ (above ++ (group ++ below)), .ok ()) := by
  induction group using List.reverseRecOn generalizing above below with
  | nil => rfl
  | append_singleton group x ih =>
    have hplace : i = (above ++ group).length := by
      rw [hi]
      simp
    have hround : pick i (above ++ (group ++ [x] ++ below)) =
        .ok (x :: (above ++ (group ++ x :: below))) := by
      have h := pick_length_append (above ++ group) below x
      rw [← hplace] at h
      simpa using h
    have hrest := ih (x :: above) (x :: below) (by simp [hplace])
    rw [List.length_append, List.length_singleton, repeated, hround]
    simpa using hrest

/-- A group is taken out from below `above`. -/
theorem repeated_roll (group above below : Stack) {i : Nat}
    (hi : i = above.length + group.length - 1) :
    repeated (roll i) group.length (above ++ (group ++ below)) =
      (group ++ (above ++ below), .ok ()) := by
  induction group using List.reverseRecOn generalizing above with
  | nil => rfl
  | append_singleton group x ih =>
    have hplace : i = (above ++ group).length := by
      rw [hi]
      simp
    have hround : roll i (above ++ (group ++ [x] ++ below)) =
        .ok (x :: (above ++ (group ++ below))) := by
      have h := roll_length_append (above ++ group) below x
      rw [← hplace] at h
      simpa using h
    have hrest := ih (x :: above) (by simp [hplace])
    rw [List.length_append, List.length_singleton, repeated, hround]
    simpa using hrest

/-! ## Groups -/

/-- Groups of items on a stack, the lowest group first. -/
def piled (below : Stack) (groups : List Stack) : Stack := groups.foldl (fun s g => g ++ s) below

theorem piled_append_singleton (below : Stack) (groups : List Stack) (top : Stack) :
    piled below (groups ++ [top]) = top ++ piled below groups := by
  simp [piled]

theorem piled_eq_append (below : Stack) (groups : List Stack) :
    piled below groups = piled [] groups ++ below := by
  induction groups using List.reverseRecOn with
  | nil => rfl
  | append_singleton groups top ih =>
    rw [piled_append_singleton, piled_append_singleton, ih, List.append_assoc]

theorem length_piled {n : Nat} {groups : List Stack} (h : ∀ g ∈ groups, g.length = n) :
    (piled [] groups).length = groups.length * n := by
  induction groups using List.reverseRecOn with
  | nil => simp [piled]
  | append_singleton groups top ih =>
    have htop := h top (by simp)
    have hgroups := ih fun g hg => h g (List.mem_append_left _ hg)
    rw [piled_append_singleton, List.length_append, hgroups, htop, List.length_append,
      List.length_singleton, Nat.succ_mul, Nat.add_comm]

/-- The lowest group apart from the others. -/
theorem piled_ofFn_succ {k : Nat} (below : Stack) (groups : Fin (k + 1) → Stack) :
    piled below (List.ofFn groups) =
      piled [] (List.ofFn fun i => groups i.succ) ++ (groups 0 ++ below) := by
  rw [List.ofFn_succ, ← piled_eq_append]
  rfl

/-- A stack with enough items is a pile of groups. -/
theorem exists_piled {k n : Nat} {s : Stack} (h : k * n ≤ s.depth) :
    ∃ (groups : Fin k → Stack) (below : Stack),
      (∀ i, (groups i).length = n) ∧ piled below (List.ofFn groups) = s := by
  induction k generalizing s with
  | zero => exact ⟨Fin.elim0, s, fun i => i.elim0, rfl⟩
  | succ k ih =>
    rw [depth, Nat.succ_mul] at h
    obtain ⟨groups, below, hlength, hpiled⟩ := ih (s := s.drop n) (by simp [depth]; omega)
    refine ⟨Fin.snoc groups (s.take n), below, ?_, ?_⟩
    · intro i
      refine Fin.lastCases ?_ (fun i => ?_) i
      · rw [Fin.snoc_last, List.length_take]
        omega
      · rw [Fin.snoc_castSucc]
        exact hlength i
    · rw [List.ofFn_succ', List.concat_eq_append, piled_append_singleton]
      simp only [Fin.snoc_castSucc, Fin.snoc_last, hpiled, List.take_append_drop]

/-- An operation finds `k` groups of `n` items and leaves those that `layout` lists, the lowest
first on both sides. It fails exactly where there are not so many items, and then nothing has
changed. -/
structure Regroups (n k : Nat) (layout : List (Fin k)) (op : Stack → Stack × Except Fault Unit) :
    Prop where
  succeeds : ∀ s, (op s).2 = .ok () ↔ k * n ≤ s.depth
  moves : ∀ (groups : Fin k → Stack) (below : Stack), (∀ i, (groups i).length = n) →
    op (piled below (List.ofFn groups)) = (piled below (layout.map groups), .ok ())
  stays : ∀ s f, (op s).2 = .error f → (op s).1 = s ∧ f = .badIndex (k * n - 1) s.depth

/-- A loop whose rounds look at the lowest item of the lowest group. Without that item the first
round fails, and with it the groups are there. -/
theorem Regroups.of_rounds {n k : Nat} {layout : List (Fin k)} {round : Stack → Except Fault Stack}
    (hround : ∀ s, s.depth ≤ k * n - 1 → round s = .error (.badIndex (k * n - 1) s.depth))
    (hmoves : ∀ (groups : Fin k → Stack) (below : Stack), (∀ i, (groups i).length = n) →
      repeated round n (piled below (List.ofFn groups)) =
        (piled below (layout.map groups), .ok ())) :
    Regroups n k layout (repeated round n) := by
  have hfails : ∀ s, s.depth < k * n →
      repeated round n s = (s, .error (.badIndex (k * n - 1) s.depth)) := by
    intro s hshallow
    exact repeated_eq_error (hround s (by omega)) (Nat.pos_of_lt_mul_left hshallow)
  have hsucceeds : ∀ s, k * n ≤ s.depth → (repeated round n s).2 = .ok () := by
    intro s hdeep
    obtain ⟨groups, below, hlength, rfl⟩ := exists_piled hdeep
    rw [hmoves groups below hlength]
  refine ⟨fun s => ⟨fun hok => ?_, hsucceeds s⟩, hmoves, fun s f herror => ?_⟩
  · by_contra hshallow
    rw [hfails s (Nat.not_le.1 hshallow)] at hok
    cases hok
  · by_cases hdeep : k * n ≤ s.depth
    · rw [hsucceeds s hdeep] at herror
      cases herror
    · rw [hfails s (Nat.not_le.1 hdeep)] at herror ⊢
      cases herror
      exact ⟨rfl, rfl⟩

/-- The place at which the rounds look: that of the lowest item. -/
theorem lowest_place {n k : Nat} {groups : Fin (k + 1) → Stack} (h : ∀ i, (groups i).length = n) :
    (k + 1) * n - 1 =
      (piled [] (List.ofFn fun i => groups i.succ)).length + (groups 0).length - 1 := by
  have hothers : ∀ g ∈ List.ofFn (fun i : Fin k => groups i.succ), g.length = n := by
    rw [List.forall_mem_ofFn_iff]
    exact fun i => h i.succ
  rw [length_piled hothers, List.length_ofFn, h, Nat.succ_mul]

/-- The lowest of some groups is copied to the top. -/
theorem regroups_pick (n k : Nat) :
    Regroups n (k + 1) (List.finRange (k + 1) ++ [0]) (repeated (pick ((k + 1) * n - 1)) n) := by
  refine .of_rounds (fun _ => pick_eq_error) fun groups below hlength => ?_
  have hloop := repeated_pick (groups 0) _ below (lowest_place hlength)
  rw [hlength, ← piled_ofFn_succ] at hloop
  rw [hloop, List.map_append, ← List.ofFn_eq_map, List.map_singleton, piled_append_singleton]

/-- The lowest of some groups is moved to the top. -/
theorem regroups_roll (n k : Nat) :
    Regroups n (k + 1) ((List.finRange (k + 1)).tail ++ [0])
      (repeated (roll ((k + 1) * n - 1)) n) := by
  refine .of_rounds (fun _ => roll_eq_error) fun groups below hlength => ?_
  have hloop := repeated_roll (groups 0) _ below (lowest_place hlength)
  rw [hlength, ← piled_ofFn_succ, ← piled_eq_append] at hloop
  rw [hloop, List.map_append, List.map_tail, ← List.ofFn_eq_map, List.ofFn_succ, List.tail_cons,
    List.map_singleton, piled_append_singleton]

/-- **The operations on groups are the permutations that they are named for, whatever the size of
the groups.** Written from the lowest group on, `A` becomes `A A`, `A B` becomes `B A`, `A B`
becomes `A B A`, and `A B C` becomes `B C A`. An operation fails only for want of items, and then it
does not leave the work of some rounds behind. -/
theorem regroups (n : Nat) :
    Regroups n 1 [0, 0] (dupGroup n) ∧ Regroups n 2 [1, 0] (swapGroups n) ∧
      Regroups n 2 [0, 1, 0] (overGroup n) ∧ Regroups n 3 [1, 2, 0] (rotGroups n) := by
  have hdup : dupGroup n = repeated (pick ((0 + 1) * n - 1)) n := by
    rw [dupGroup, Nat.zero_add, Nat.one_mul]
  refine ⟨?_, regroups_roll n 1, regroups_pick n 1, regroups_roll n 2⟩
  rw [hdup]
  exact regroups_pick n 0

example : rotGroups 2 [[6], [5], [4], [3], [2], [1]] =
    ([[2], [1], [6], [5], [4], [3]], .ok ()) := rfl

end SpendScript.Stack
