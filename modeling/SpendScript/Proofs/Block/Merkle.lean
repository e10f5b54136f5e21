import SpendScript.Block.Merkle
import Mathlib.Algebra.Ring.Parity
import Mathlib.Data.List.Basic
import Mathlib.Data.Set.Function

/-!
# SpendScript.Proofs.Block.Merkle

Which lists have the same root. The root of a list is the value of a binary tree over the list, and
where no two of the hashed pairs collide, the value has one tree only. The tree may still have more
than one list: a level with an odd number of nodes is filled up with a copy of its last node, and a
list that has this copy already gives the same tree.

* `root?_eq_value`: the root is the value of the tree over the list.
* `Tree.value_injOn`: a tree is known from its value.
* `eq_or_repeatsTail`: two lists of one tree are equal, or the longer one repeats its tail.
* `Extends`: how the longer one continues the shorter one.
* `exists_take_of_repeatsTail`: a list that repeats its tail has the root of a shorter one.
-/

namespace SpendScript.Merkle

variable {α β : Type}

/-! ## Levels -/

section Levels

variable {hash : α → α → α}

theorem exists_cons_cons_of_two_le {level : List α} (h : 2 ≤ level.length) :
    ∃ a b rest, level = a :: b :: rest := by
  obtain ⟨a, tail, rfl⟩ := List.exists_cons_of_length_pos (Nat.lt_of_lt_of_le Nat.two_pos h)
  obtain ⟨b, rest, rfl⟩ := List.exists_cons_of_length_pos (Nat.lt_of_succ_lt_succ h)
  exact ⟨a, b, rest, rfl⟩

theorem root?_of_two_le {level : List α} (h : 2 ≤ level.length) :
    root? hash level = root? hash (pairUp hash level) := by
  obtain ⟨a, b, rest, rfl⟩ := exists_cons_cons_of_two_le h
  rw [root?]

theorem root?_eq_none_iff {level : List α} : root? hash level = none ↔ level = [] := by
  fun_induction root? hash level with
  | case1 => simp
  | case2 a => simp
  | case3 a b rest ih =>
    rw [ih]
    simp [pairUp]

theorem forall_mem_pairUp {P Q : α → Prop} (hstep : ∀ a b, P a → P b → Q (hash a b))
    {level : List α} (h : ∀ a ∈ level, P a) : ∀ a ∈ pairUp hash level, Q a := by
  fun_induction pairUp hash level with
  | case1 => simp
  | case2 x =>
    have hx := h x (List.mem_singleton_self x)
    exact List.forall_mem_singleton.2 (hstep x x hx hx)
  | case3 x y rest ih =>
    simp only [List.forall_mem_cons] at h ⊢
    exact ⟨hstep x y h.1 h.2.1, ih h.2.2⟩

/-- What is true of the nodes of a level and preserved by hashing is true of the root. -/
theorem root?_induction {P : α → Prop} (hstep : ∀ a b, P a → P b → P (hash a b)) {level : List α}
    (h : ∀ a ∈ level, P a) {top : α} (htop : root? hash level = some top) : P top := by
  fun_induction root? hash level with
  | case1 => cases htop
  | case2 a =>
    cases htop
    exact h _ (List.mem_singleton_self _)
  | case3 a b rest ih => exact ih (forall_mem_pairUp hstep h) htop

theorem pairUp_append {front : List α} (h : Even front.length) (back : List α) :
    pairUp hash (front ++ back) = pairUp hash front ++ pairUp hash back := by
  fun_induction pairUp hash front with
  | case1 => rfl
  | case2 a => exact absurd h (by simp)
  | case3 a b rest ih =>
    have hrest : Even rest.length := by simpa [Nat.even_add_one] using h
    simp only [List.cons_append, pairUp, ih hrest]

theorem length_pairUp_take {level : List α} {n : Nat} (h : 2 * n ≤ level.length) :
    (pairUp hash (level.take (2 * n))).length = n := by
  rw [length_pairUp, List.length_take_of_le h]
  omega

theorem pairUp_take_append_drop {level : List α} {n : Nat} (h : 2 * n ≤ level.length) :
    pairUp hash (level.take (2 * n)) ++ pairUp hash (level.drop (2 * n)) = pairUp hash level := by
  have heven : Even (level.take (2 * n)).length := by
    rw [List.length_take_of_le h]
    exact even_two_mul n
  rw [← pairUp_append heven, List.take_append_drop]

theorem pairUp_take {level : List α} {n : Nat} (h : 2 * n ≤ level.length) :
    pairUp hash (level.take (2 * n)) = (pairUp hash level).take n := by
  rw [← pairUp_take_append_drop h, List.take_left' (length_pairUp_take h)]

theorem pairUp_drop {level : List α} {n : Nat} (h : 2 * n ≤ level.length) :
    pairUp hash (level.drop (2 * n)) = (pairUp hash level).drop n := by
  rw [← pairUp_take_append_drop h, List.drop_left' (length_pairUp_take h)]

/-- A level can be taken through a map that respects the hashes, and so can the root. -/
theorem pairUp_map {hash' : β → β → β} {f : α → β}
    (hf : ∀ a b, f (hash a b) = hash' (f a) (f b)) (level : List α) :
    pairUp hash' (level.map f) = (pairUp hash level).map f := by
  fun_induction pairUp hash level with
  | case1 => rfl
  | case2 a => simp only [List.map_cons, List.map_nil, pairUp, hf]
  | case3 a b rest ih => simp only [List.map_cons, pairUp, hf, ih]

theorem root?_map {hash' : β → β → β} {f : α → β}
    (hf : ∀ a b, f (hash a b) = hash' (f a) (f b)) (level : List α) :
    root? hash' (level.map f) = (root? hash level).map f := by
  fun_induction root? hash level with
  | case1 => simp [root?]
  | case2 a => simp [root?]
  | case3 a b rest ih => rw [← ih, ← pairUp_map hf, root?_of_two_le (by simp)]

end Levels

/-! ## Lists that repeat their tail -/

/-- A level of the tree over a list has an even number of nodes, more than two, and ends with two
equal ones. -/
inductive RepeatsTail (hash : α → α → α) : List α → Prop where
  | here {front : List α} {a : α} (h : front ≠ []) (heven : Even front.length) :
      RepeatsTail hash (front ++ [a, a])
  | above {level : List α} (h : RepeatsTail hash (pairUp hash level)) : RepeatsTail hash level

/-- A longer list continues a shorter one and repeats its tail. -/
structure Extends (hash : α → α → α) (short long : List α) : Prop where
  front : short <+: long
  shorter : short.length < long.length
  repeats : RepeatsTail hash long

section RepeatsTail

variable {hash : α → α → α}

theorem RepeatsTail.map {hash' : β → β → β} {f : α → β}
    (hf : ∀ a b, f (hash a b) = hash' (f a) (f b)) {level : List α}
    (h : RepeatsTail hash level) : RepeatsTail hash' (level.map f) := by
  induction h with
  | @here front a hne heven =>
    rw [List.map_append]
    exact .here (by simpa using hne) (by simpa using heven)
  | above _ ih => exact .above (by rwa [pairUp_map hf])

theorem exists_take_of_repeatsTail {level : List α} (h : RepeatsTail hash level) :
    ∃ n, 0 < n ∧ n < level.length ∧ root? hash (level.take n) = root? hash level := by
  induction h with
  | @here front a hne heven =>
    have hlength := List.length_pos_iff.2 hne
    refine ⟨front.length + 1, by omega, by simp, ?_⟩
    have htake : (front ++ [a, a]).take (front.length + 1) = front ++ [a] := by
      rw [List.take_length_add_append]
      rfl
    have hshort : 2 ≤ (front ++ [a]).length := by
      rw [List.length_append, List.length_singleton]
      omega
    have hlong : 2 ≤ (front ++ [a, a]).length := by simp
    rw [htake, root?_of_two_le hshort, root?_of_two_le hlong, pairUp_append heven,
      pairUp_append heven]
    rfl
  | @above level _ ih =>
    obtain ⟨n, hpos, hlt, hroot⟩ := ih
    rw [length_pairUp] at hlt
    refine ⟨2 * n, by omega, by omega, ?_⟩
    rw [root?_of_two_le (by rw [List.length_take]; omega), pairUp_take (by omega), hroot,
      ← root?_of_two_le (by omega)]

end RepeatsTail

/-! ## The tree -/

inductive Tree (α : Type) where
  | leaf (a : α)
  | node (left right : Tree α)

namespace Tree

def value (hash : α → α → α) : Tree α → α
  | leaf a => a
  | node left right => hash (left.value hash) (right.value hash)

theorem value_node (hash : α → α → α) (left right : Tree α) :
    (node left right).value hash = hash (left.value hash) (right.value hash) := rfl

/-- The pairs that are hashed for the value. -/
def pairs (hash : α → α → α) : Tree α → List (α × α)
  | leaf _ => []
  | node left right =>
    (left.value hash, right.value hash) :: (left.pairs hash ++ right.pairs hash)

def leaves : Tree α → List α
  | leaf a => [a]
  | node left right => left.leaves ++ right.leaves

theorem length_leaves_node {w : Nat} (left right : Tree α) (hl : left.leaves.length = w)
    (hr : right.leaves.length = w) : (node left right).leaves.length = 2 * w := by
  rw [leaves, List.length_append, hl, hr, Nat.two_mul]

/-- Trees are known from their values if the hash does not collide on the pairs of `S`, which are
all that is hashed, and gives no leaf. The leaves are elements of `A`. -/
theorem value_injOn {hash : α → α → α} {S : Set (α × α)} {A : Set α}
    (hinj : Set.InjOn (fun p => hash p.1 p.2) S) (hleaf : ∀ p ∈ S, hash p.1 p.2 ∉ A) :
    Set.InjOn (value hash) {t | (∀ p ∈ t.pairs hash, p ∈ S) ∧ ∀ a ∈ t.leaves, a ∈ A} := by
  rintro t ⟨hpairs, hleaves⟩ t' ⟨hpairs', hleaves'⟩ h
  induction t generalizing t' with
  | leaf a =>
    cases t' with
    | leaf b => exact congrArg leaf h
    | node l' r' =>
      refine absurd (hleaves a (by simp [leaves])) ?_
      rw [show a = _ from h]
      exact hleaf _ (hpairs' (l'.value hash, r'.value hash) (by simp [pairs]))
  | node l r ihl ihr =>
    simp only [pairs, leaves, List.forall_mem_cons, List.forall_mem_append] at hpairs hleaves
    cases t' with
    | leaf b =>
      refine absurd (hleaves' b (by simp [leaves])) ?_
      rw [← show _ = b from h]
      exact hleaf _ hpairs.1
    | node l' r' =>
      simp only [pairs, leaves, List.forall_mem_cons, List.forall_mem_append] at hpairs' hleaves'
      have hpair := Prod.ext_iff.1 (hinj hpairs.1 hpairs'.1 h)
      rw [ihl hpairs.2.1 hleaves.1 hpairs'.2.1 hleaves'.1 hpair.1,
        ihr hpairs.2.2 hleaves.2 hpairs'.2.2 hleaves'.2 hpair.2]

end Tree

/-- The tree over a list; there is none over no elements. -/
def tree? (l : List α) : Option (Tree α) := root? Tree.node (l.map Tree.leaf)

/-- The pairs that are hashed for the root of a list. -/
def pairs (hash : α → α → α) (l : List α) : List (α × α) :=
  ((tree? l).map (Tree.pairs hash)).getD []

theorem map_value_leaf (hash : α → α → α) (l : List α) :
    (l.map Tree.leaf).map (Tree.value hash) = l := by
  rw [List.map_map]
  exact List.map_id l

theorem root?_eq_value (hash : α → α → α) (l : List α) :
    root? hash l = (tree? l).map (Tree.value hash) := by
  rw [tree?, ← root?_map (Tree.value_node hash), map_value_leaf]

theorem tree?_eq_none_iff {l : List α} : tree? l = none ↔ l = [] := by
  rw [tree?, root?_eq_none_iff, List.map_eq_nil_iff]

theorem mem_of_mem_leaves {l : List α} {t : Tree α} (h : tree? l = some t) :
    ∀ a ∈ t.leaves, a ∈ l := by
  refine root?_induction (P := fun t => ∀ a ∈ t.leaves, a ∈ l) (fun left right hl hr => ?_) ?_ h
  · exact List.forall_mem_append.2 ⟨hl, hr⟩
  · simp [Tree.leaves]

/-! ## The lists of a tree -/

section Lists

variable {level level' : List (Tree α)}

theorem flatMap_leaves_pairUp (level : List (Tree α)) :
    level.flatMap Tree.leaves <+: (pairUp Tree.node level).flatMap Tree.leaves := by
  fun_induction pairUp Tree.node level with
  | case1 => exact List.prefix_rfl
  | case2 a => simp [Tree.leaves]
  | case3 a b rest ih => simpa [Tree.leaves, List.append_assoc] using ih

/-- The leaves of the tree continue the leaves of every level. -/
theorem flatMap_leaves_root? {t : Tree α} (h : root? Tree.node level = some t) :
    level.flatMap Tree.leaves <+: t.leaves := by
  fun_induction root? Tree.node level with
  | case1 => cases h
  | case2 a =>
    cases h
    simp
  | case3 a b rest ih => exact (flatMap_leaves_pairUp _).trans (ih h)

/-- Two levels under one level are equal, or the longer one has the copy that fills the shorter one
up. -/
theorem pairUp_node_eq (hlength : level.length ≤ level'.length)
    (h : pairUp Tree.node level = pairUp Tree.node level') :
    level = level' ∨ ∃ front a, Even front.length ∧ level = front ++ [a] ∧
      level' = front ++ [a, a] := by
  fun_induction pairUp Tree.node level generalizing level' with
  | case1 =>
    have hlength' : 0 = (level'.length + 1) / 2 := by
      rw [← length_pairUp Tree.node, ← h, List.length_nil]
    have hnil : level' = [] := List.length_eq_zero_iff.1 (by omega)
    exact .inl hnil.symm
  | case2 a =>
    have hlength' : 1 = (level'.length + 1) / 2 := by
      rw [← length_pairUp Tree.node, ← h, List.length_singleton]
    have htwo : level'.length = 1 ∨ level'.length = 2 := by omega
    rcases htwo with hone | htwo
    · obtain ⟨b, rfl⟩ := List.length_eq_one_iff.1 hone
      simp only [pairUp, List.cons.injEq, Tree.node.injEq] at h
      exact .inl (by rw [h.1.1])
    · obtain ⟨b, c, rfl⟩ := List.length_eq_two.1 htwo
      simp only [pairUp, List.cons.injEq, Tree.node.injEq] at h
      obtain ⟨⟨rfl, rfl⟩, -⟩ := h
      exact .inr ⟨[], a, by simp, rfl, rfl⟩
  | case3 a b rest ih =>
    obtain ⟨c, d, rest', rfl⟩ := exists_cons_cons_of_two_le (Nat.le_trans (by simp) hlength)
    simp only [pairUp, List.cons.injEq, Tree.node.injEq] at h
    obtain ⟨⟨rfl, rfl⟩, hrest⟩ := h
    rcases ih (by simpa using hlength) hrest with rfl | ⟨front, x, heven, rfl, rfl⟩
    · exact .inl rfl
    · exact .inr ⟨a :: b :: front, x, by simpa [Nat.even_add_one] using heven, rfl, rfl⟩

/-- Of two levels of one tree, with nodes of `w` leaves each, the longer one repeats its tail. -/
theorem eq_or_repeatsTail {w : Nat} (hpos : 0 < w) (hw : ∀ t ∈ level, t.leaves.length = w)
    (hw' : ∀ t ∈ level', t.leaves.length = w) (hlength : level.length ≤ level'.length)
    (h : root? Tree.node level = root? Tree.node level') :
    level = level' ∨ RepeatsTail Tree.node level' := by
  fun_induction root? Tree.node level generalizing level' w with
  | case1 => exact .inl (root?_eq_none_iff.1 h.symm).symm
  | case2 a =>
    rw [List.length_singleton] at hlength
    rcases Nat.eq_or_lt_of_le hlength with hone | htwo
    · obtain ⟨b, rfl⟩ := List.length_eq_one_iff.1 hone.symm
      rw [root?] at h
      exact .inl (by rw [Option.some.inj h])
    · obtain ⟨b, c, rest, rfl⟩ := exists_cons_cons_of_two_le htwo
      -- The root would have as many leaves as one node of a level of at least two.
      have hle := (flatMap_leaves_root? h.symm).length_le
      simp only [List.forall_mem_cons] at hw hw'
      simp only [List.flatMap_cons, List.length_append, hw.1, hw'.1, hw'.2.1] at hle
      omega
  | case3 a b rest ih =>
    have htwo : 2 ≤ level'.length := Nat.le_trans (by simp) hlength
    rw [root?_of_two_le htwo] at h
    have hup : (pairUp Tree.node (a :: b :: rest)).length ≤ (pairUp Tree.node level').length := by
      rw [length_pairUp, length_pairUp]
      omega
    rcases ih (Nat.mul_pos Nat.two_pos hpos) (forall_mem_pairUp Tree.length_leaves_node hw)
      (forall_mem_pairUp Tree.length_leaves_node hw') hup h with heq | hrepeats
    · rcases pairUp_node_eq hlength heq with heq | ⟨front, x, heven, hshort, rfl⟩
      · exact .inl heq
      · refine .inr (.here ?_ heven)
        rintro rfl
        simp at hshort
    · exact .inr (.above hrepeats)

end Lists

theorem eq_or_extends_of_tree? (hash : α → α → α) {l l' : List α} {t : Tree α}
    (h : tree? l = some t) (h' : tree? l' = some t) (hlength : l.length ≤ l'.length) :
    l = l' ∨ Extends hash l l' := by
  have hleaves : ∀ l : List α, (l.map Tree.leaf).flatMap Tree.leaves = l := by
    intro l
    simp [List.flatMap_map, Tree.leaves]
  have hone : ∀ l : List α, ∀ t ∈ l.map Tree.leaf, t.leaves.length = 1 := by simp [Tree.leaves]
  have hfront : l <+: t.leaves := hleaves l ▸ flatMap_leaves_root? h
  have hfront' : l' <+: t.leaves := hleaves l' ▸ flatMap_leaves_root? h'
  have hcontinues : l <+: l' := List.prefix_of_prefix_length_le hfront hfront' hlength
  rcases Nat.eq_or_lt_of_le hlength with heq | hlt
  · exact .inl (hcontinues.eq_of_length heq)
  · rcases eq_or_repeatsTail Nat.one_pos (hone l) (hone l') (by simpa using hlength)
      (h.trans h'.symm) with heq | hrepeats
    · have hlength' := congrArg List.length heq
      rw [List.length_map, List.length_map] at hlength'
      exact absurd hlength' (Nat.ne_of_lt hlt)
    · refine .inr ⟨hcontinues, hlt, ?_⟩
      have hmap := hrepeats.map (Tree.value_node hash)
      rwa [map_value_leaf] at hmap

/-- **What a root commits to.** Where the hash does not collide on the pairs of `S`, which are all
that is hashed, and gives no element of the lists, two lists of one root are equal or the longer one
continues the shorter one. -/
theorem eq_or_extends {hash : α → α → α} {l l' : List α} {S : Set (α × α)}
    (hinj : Set.InjOn (fun p => hash p.1 p.2) S)
    (hleaf : ∀ p ∈ S, ∀ a ∈ l ++ l', hash p.1 p.2 ≠ a)
    (hpairs : ∀ p, p ∈ pairs hash l ∨ p ∈ pairs hash l' → p ∈ S)
    (hroot : root? hash l = root? hash l') :
    l = l' ∨ Extends hash l l' ∨ Extends hash l' l := by
  have hvalue : (tree? l).map (Tree.value hash) = (tree? l').map (Tree.value hash) := by
    rw [← root?_eq_value, ← root?_eq_value, hroot]
  cases ht : tree? l with
  | none =>
    rw [ht, Option.map_none, eq_comm, Option.map_eq_none_iff] at hvalue
    exact .inl ((tree?_eq_none_iff.1 ht).trans (tree?_eq_none_iff.1 hvalue).symm)
  | some t =>
    rw [ht, Option.map_some, eq_comm, Option.map_eq_some_iff] at hvalue
    obtain ⟨t', ht', hvalue⟩ := hvalue
    have hmem : (∀ p ∈ t.pairs hash, p ∈ S) ∧ ∀ a ∈ t.leaves, a ∈ l ++ l' :=
      ⟨fun p hp => hpairs p (.inl (by rwa [pairs, ht])),
        fun a ha => List.mem_append_left _ (mem_of_mem_leaves ht a ha)⟩
    have hmem' : (∀ p ∈ t'.pairs hash, p ∈ S) ∧ ∀ a ∈ t'.leaves, a ∈ l ++ l' :=
      ⟨fun p hp => hpairs p (.inr (by rwa [pairs, ht'])),
        fun a ha => List.mem_append_right _ (mem_of_mem_leaves ht' a ha)⟩
    cases Tree.value_injOn hinj (fun p hp ha => hleaf p hp _ ha rfl) hmem' hmem hvalue
    rcases Nat.le_total l.length l'.length with hle | hle
    · exact (eq_or_extends_of_tree? hash ht ht' hle).imp_right .inl
    · exact (eq_or_extends_of_tree? hash ht' ht hle).imp Eq.symm .inr

end SpendScript.Merkle
