import SpendScript.Block.Basic
import SpendScript.Proofs.Block.Merkle
import Mathlib.Data.List.Nodup

/-!
# SpendScript.Proofs.Block.Commitment

What the root in a header commits to. It is the root of the tree over the transaction identifiers,
so where no two of the byte strings that are hashed for it collide, the header is valid for one list
of identifiers and for the lists that continue it by repeating its tail.

* `Block.hasValidRoot_commits`: two lists under one header.
* `Block.exists_hasValidRoot_take`: a list that repeats its tail shares its root with a shorter one.
-/

namespace SpendScript

open Merkle (Extends RepeatsTail)

/-- The byte strings that are hashed for the root of a list of transactions. -/
def Transaction.rootInputs (txs : List Transaction) : List Bytes :=
  txs.map toBytes ++
    (Merkle.pairs Identifier.join (txs.map id)).map fun p => p.1.bytes ++ p.2.bytes

theorem Transaction.toBytes_mem_rootInputs {tx : Transaction} {txs : List Transaction}
    (h : tx ∈ txs) : tx.toBytes ∈ rootInputs txs :=
  List.mem_append_left _ (List.mem_map_of_mem h)

theorem Transaction.append_mem_rootInputs {p : Identifier × Identifier} {txs : List Transaction}
    (h : p ∈ Merkle.pairs Identifier.join (txs.map id)) :
    p.1.bytes ++ p.2.bytes ∈ rootInputs txs :=
  List.mem_append_right _ (List.mem_map.2 ⟨p, h, rfl⟩)

namespace Identifier

theorem append_inj {a b c d : Identifier} (h : a.bytes ++ b.bytes = c.bytes ++ d.bytes) :
    a = c ∧ b = d := by
  obtain ⟨hl, hr⟩ := List.append_inj h (a.length_eq.trans c.length_eq.symm)
  exact ⟨Digest.eq_of_bytes hl, Digest.eq_of_bytes hr⟩

theorem join_injOn {inputs : Set Bytes} (hinj : Set.InjOn Hash.sha256d inputs) :
    Set.InjOn (fun p : Identifier × Identifier => join p.1 p.2)
      {p | p.1.bytes ++ p.2.bytes ∈ inputs} := by
  intro p hp q hq h
  obtain ⟨hl, hr⟩ := append_inj (hinj hp hq h)
  exact Prod.ext hl hr

theorem join_ne_id {inputs : Set Bytes} (hinj : Set.InjOn Hash.sha256d inputs) {a b : Identifier}
    {tx : Transaction} (hpair : a.bytes ++ b.bytes ∈ inputs) (htx : tx.toBytes ∈ inputs)
    (hlong : 64 < tx.size) : join a b ≠ tx.id := by
  intro h
  have hlength := congrArg List.length (hinj hpair htx h)
  rw [List.length_append, a.length_eq, b.length_eq] at hlength
  exact absurd hlength (Nat.ne_of_lt hlong)

theorem merkleRoot_nil : merkleRoot [] = Digest.zero 32 := by
  rw [merkleRoot, Merkle.root?, Option.getD_none]

theorem root?_join {ids : List Identifier} (h : ids ≠ []) :
    Merkle.root? join ids = some (merkleRoot ids) := by
  obtain ⟨top, htop⟩ := Option.ne_none_iff_exists'.1 (mt Merkle.root?_eq_none_iff.1 h)
  rw [merkleRoot, htop, Option.getD_some]

end Identifier

namespace Block

variable {header : BlockHeader} {txs txs' : List Transaction}

theorem hasValidRoot_iff : (mk header txs).hasValidRoot = true ↔
    Identifier.merkleRoot (txs.map Transaction.id) = header.merkleRoot := by
  rw [hasValidRoot, merkleRoot, beq_iff_eq]

/-- A header that is valid for a list that repeats its tail is valid for a shorter list too. -/
theorem exists_hasValidRoot_take (h : RepeatsTail Identifier.join (txs.map Transaction.id)) :
    ∃ n, 0 < n ∧ n < txs.length ∧
      (mk header (txs.take n)).hasValidRoot = (mk header txs).hasValidRoot := by
  obtain ⟨n, hpos, hlt, hroot⟩ := Merkle.exists_take_of_repeatsTail h
  rw [List.length_map] at hlt
  refine ⟨n, hpos, hlt, ?_⟩
  rw [hasValidRoot, hasValidRoot, merkleRoot, merkleRoot, Identifier.merkleRoot,
    Identifier.merkleRoot, List.map_take, hroot]

/-- **What a header commits to.** The double hash has no collision on the byte strings that are
hashed for the roots of two lists of transactions, and each transaction is longer than a pair of
identifiers. If a header is valid for both lists, they have the same identifiers, or one of them
continues the other and repeats its tail. A root of zeros, which stands for no transactions, may
also be that of a list. -/
theorem hasValidRoot_commits
    (hinj : Set.InjOn Hash.sha256d
      {w | w ∈ Transaction.rootInputs txs ∨ w ∈ Transaction.rootInputs txs'})
    (hlong : ∀ tx ∈ txs ++ txs', 64 < tx.size)
    (hvalid : (mk header txs).hasValidRoot = true)
    (hvalid' : (mk header txs').hasValidRoot = true) :
    txs.map Transaction.id = txs'.map Transaction.id ∨
      Extends Identifier.join (txs.map Transaction.id) (txs'.map Transaction.id) ∨
      Extends Identifier.join (txs'.map Transaction.id) (txs.map Transaction.id) ∨
      (txs = [] ∨ txs' = []) ∧ header.merkleRoot = Digest.zero 32 := by
  rw [hasValidRoot_iff] at hvalid hvalid'
  by_cases hempty : txs = [] ∨ txs' = []
  · refine .inr (.inr (.inr ⟨hempty, ?_⟩))
    rcases hempty with rfl | rfl
    · rw [← hvalid, List.map_nil, Identifier.merkleRoot_nil]
    · rw [← hvalid', List.map_nil, Identifier.merkleRoot_nil]
  · obtain ⟨hne, hne'⟩ := not_or.1 hempty
    have hroot : Merkle.root? Identifier.join (txs.map Transaction.id) =
        Merkle.root? Identifier.join (txs'.map Transaction.id) := by
      rw [Identifier.root?_join (by simpa using hne), Identifier.root?_join (by simpa using hne'),
        hvalid, hvalid']
    have hpairs : ∀ p, p ∈ Merkle.pairs Identifier.join (txs.map Transaction.id) ∨
        p ∈ Merkle.pairs Identifier.join (txs'.map Transaction.id) →
        p.1.bytes ++ p.2.bytes ∈ Transaction.rootInputs txs ∨
          p.1.bytes ++ p.2.bytes ∈ Transaction.rootInputs txs' := by
      intro p hp
      exact hp.imp Transaction.append_mem_rootInputs Transaction.append_mem_rootInputs
    have hleaf : ∀ p : Identifier × Identifier,
        p.1.bytes ++ p.2.bytes ∈ Transaction.rootInputs txs ∨
          p.1.bytes ++ p.2.bytes ∈ Transaction.rootInputs txs' →
        ∀ a ∈ txs.map Transaction.id ++ txs'.map Transaction.id, Identifier.join p.1 p.2 ≠ a := by
      intro p hp a ha
      rw [← List.map_append] at ha
      obtain ⟨tx, htx, rfl⟩ := List.mem_map.1 ha
      have hbytes := (List.mem_append.1 htx).imp Transaction.toBytes_mem_rootInputs
        Transaction.toBytes_mem_rootInputs
      exact Identifier.join_ne_id hinj hp hbytes (hlong tx htx)
    rcases Merkle.eq_or_extends (Identifier.join_injOn hinj) hleaf hpairs hroot with h | h | h
    · exact .inl h
    · exact .inr (.inl h)
    · exact .inr (.inr (.inl h))

end Block

/-! ## The last transaction twice -/

namespace Transaction

/-- The byte strings that are hashed for the root of three transactions. -/
def threeInputs (a b c : Transaction) : List Bytes :=
  [a.toBytes, b.toBytes, c.toBytes, a.id.bytes ++ b.id.bytes, c.id.bytes ++ c.id.bytes,
    (Identifier.join a.id b.id).bytes ++ (Identifier.join c.id c.id).bytes]

/-- No more is hashed if the last one comes twice. -/
theorem mem_threeInputs {a b c : Transaction} {w : Bytes}
    (h : w ∈ rootInputs [a, b, c] ∨ w ∈ rootInputs [a, b, c, c]) : w ∈ threeInputs a b c := by
  simp only [rootInputs, threeInputs, Merkle.pairs, Merkle.tree?, Merkle.root?, Merkle.pairUp,
    Merkle.Tree.pairs, Merkle.Tree.value, List.map_cons, List.map_nil, Option.map_some,
    Option.getD_some, List.append_nil, List.cons_append, List.nil_append, List.mem_cons,
    List.not_mem_nil, or_false] at h ⊢
  grind only

/-- A transaction of 67 bytes, with one output. -/
def filled (b : UInt8) : Transaction := ⟨1, [], [⟨5, List.replicate 48 b⟩], 0⟩

def three : List Transaction := [filled 1, filled 2, filled 3]

/-- The three transactions and the last one again. -/
def threeAndLast : List Transaction := [filled 1, filled 2, filled 3, filled 3]

theorem sha256d_injOn_three :
    Set.InjOn Hash.sha256d {w | w ∈ rootInputs three ∨ w ∈ rootInputs threeAndLast} := by
  have hnodup : ((threeInputs (filled 1) (filled 2) (filled 3)).map Hash.sha256d).Nodup := by
    decide +kernel
  intro w hw v hv
  exact List.inj_on_of_nodup_map hnodup (mem_threeInputs hw) (mem_threeInputs hv)

end Transaction

namespace Block

def headerOfThree : BlockHeader :=
  ⟨1, Digest.zero 32, Identifier.merkleRoot (Transaction.three.map Transaction.id), 0, 0, 0⟩

theorem hasValidRoot_three : (mk headerOfThree Transaction.three).hasValidRoot = true :=
  hasValidRoot_iff.2 rfl

theorem hasValidRoot_threeAndLast :
    (mk headerOfThree Transaction.threeAndLast).hasValidRoot = true := by
  refine hasValidRoot_iff.2 ?_
  rw [headerOfThree, Identifier.merkleRoot, Identifier.merkleRoot]
  simp only [Transaction.three, Transaction.threeAndLast, List.map_cons, List.map_nil, Merkle.root?,
    Merkle.pairUp]

theorem size_three : ∀ tx ∈ Transaction.three ++ Transaction.threeAndLast, 64 < tx.size := by
  decide

theorem hasValidRoot_commits_threeAndLast :
    (Set.InjOn Hash.sha256d
        {w | w ∈ Transaction.rootInputs Transaction.three ∨
          w ∈ Transaction.rootInputs Transaction.threeAndLast} ∧
      (∀ tx ∈ Transaction.three ++ Transaction.threeAndLast, 64 < tx.size) ∧
      (mk headerOfThree Transaction.three).hasValidRoot = true ∧
      (mk headerOfThree Transaction.threeAndLast).hasValidRoot = true) ∧
    (Transaction.three.map Transaction.id = Transaction.threeAndLast.map Transaction.id ∨
      Extends Identifier.join (Transaction.three.map Transaction.id)
        (Transaction.threeAndLast.map Transaction.id) ∨
      Extends Identifier.join (Transaction.threeAndLast.map Transaction.id)
        (Transaction.three.map Transaction.id) ∨
      (Transaction.three = [] ∨ Transaction.threeAndLast = []) ∧
        headerOfThree.merkleRoot = Digest.zero 32) :=
  ⟨⟨Transaction.sha256d_injOn_three, size_three, hasValidRoot_three, hasValidRoot_threeAndLast⟩,
    hasValidRoot_commits Transaction.sha256d_injOn_three size_three hasValidRoot_three
      hasValidRoot_threeAndLast⟩

/-- The two lists do not have the same identifiers. -/
theorem hasValidRoot_threeAndLast_ne :
    Set.InjOn Hash.sha256d
        {w | w ∈ Transaction.rootInputs Transaction.three ∨
          w ∈ Transaction.rootInputs Transaction.threeAndLast} ∧
      (∀ tx ∈ Transaction.three ++ Transaction.threeAndLast, 64 < tx.size) ∧
      (mk headerOfThree Transaction.three).hasValidRoot = true ∧
      (mk headerOfThree Transaction.threeAndLast).hasValidRoot = true ∧
      Transaction.three.map Transaction.id ≠ Transaction.threeAndLast.map Transaction.id := by
  refine ⟨Transaction.sha256d_injOn_three, size_three, hasValidRoot_three,
    hasValidRoot_threeAndLast, fun h => ?_⟩
  have hlength := congrArg List.length h
  rw [List.length_map, List.length_map] at hlength
  exact absurd hlength (by decide)

end Block
end SpendScript
