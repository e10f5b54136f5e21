import SpendScript.Proofs.Script.RoundTrip
import SpendScript.Script.Class
import SpendScript.Script.Template

/-!
# SpendScript.Proofs.Script.Multisig

The builder and the recognizer of scripts that several keys sign for.

* `Script.isMultisigOut_iff`, `Script.multisigOut_eq_ok_iff`: the scripts that are recognized, and
  those that are built, as two count opcodes around pushes.
* `Script.multisigOut_sorted`: the keys of a sorted script are in ascending byte order, in whatever
  order they were given.
* `Script.isMultisigOut_iff_built`: recognized are exactly the scripts that the builder builds of
  keys that are not empty.
-/

namespace SpendScript

namespace Bytes

/-- The order of the bytes of two strings is that of lists. -/
theorem dictionaryLE_iff {a b : Bytes} : dictionaryLE a b = true ↔ a ≤ b := by
  induction a generalizing b with
  | nil => simp [dictionaryLE]
  | cons x xs ih =>
    cases b with
    | nil => simp [dictionaryLE]
    | cons y ys =>
      rw [List.cons_le_cons_iff, ← ih]
      simp [dictionaryLE]

theorem pairwise_sort (keys : List Bytes) :
    (keys.mergeSort dictionaryLE).Pairwise (· ≤ ·) := by
  have hsorted : (keys.mergeSort dictionaryLE).Pairwise (fun a b => dictionaryLE a b = true) := by
    refine List.pairwise_mergeSort ?_ ?_ keys
    · intro a b c
      simp only [dictionaryLE_iff]
      exact List.le_trans
    · intro a b
      simp only [Bool.or_eq_true, dictionaryLE_iff]
      exact List.le_total a b
  exact hsorted.imp dictionaryLE_iff.1

theorem sort_eq_of_perm {keys keys' : List Bytes} (h : keys'.Perm keys) :
    keys'.mergeSort dictionaryLE = keys.mergeSort dictionaryLE := by
  refine List.Perm.eq_of_pairwise (fun a b _ _ => List.le_antisymm) (pairwise_sort keys')
    (pairwise_sort keys) ?_
  exact (List.mergeSort_perm keys' _).trans (h.trans (List.mergeSort_perm keys _).symm)

end Bytes

namespace Opcode

theorem le_of_smallInt? {n : Nat} {op : Opcode} (h : smallInt? n = some op) : n ≤ 16 := by
  simp only [smallInt?] at h
  split at h
  · omega
  · split at h
    · assumption
    · cases h

/-- A number is read off the opcode that pushes it, and off no other. -/
theorem smallIntValue?_eq_some_iff {b : UInt8} {n : Nat} :
    smallIntValue? b = some n ↔ ∃ op, smallInt? n = some op ∧ op.byte = b := by
  constructor
  · have hread : ∀ b : UInt8, ∀ n ∈ smallIntValue? b, (smallInt? n).map byte = some b :=
      forall_byte (by decide +kernel)
    intro h
    exact Option.map_eq_some_iff.1 (hread b n h)
  · rintro ⟨op, h, rfl⟩
    have hle := le_of_smallInt? h
    interval_cases n
    all_goals
      cases h
      rfl

theorem smallInt?_injective {m n : Nat} {op : Opcode} (hm : smallInt? m = some op)
    (hn : smallInt? n = some op) : m = n := by
  have hread := smallIntValue?_eq_some_iff.2 ⟨op, hm, rfl⟩
  rw [smallIntValue?_eq_some_iff.2 ⟨op, hn, rfl⟩, Option.some.injEq] at hread
  exact hread.symm

end Opcode

namespace Chunk

theorem smallCount?_eq_some_iff {c : Chunk} {n : Nat} :
    c.smallCount? = some n ↔ ∃ op, Opcode.smallInt? n = some op ∧ c = ofOpcode op := by
  cases c with
  | op code =>
    simp only [smallCount?, ofOpcode, op.injEq, Opcode.smallIntValue?_eq_some_iff]
    exact exists_congr fun op => and_congr_right fun _ => eq_comm
  | push code data => simp [smallCount?, ofOpcode]

theorem wellFormed_of_smallInt? {n : Nat} {op : Opcode} (h : Opcode.smallInt? n = some op) :
    (ofOpcode op).WellFormed := by
  have hle := Opcode.le_of_smallInt? h
  interval_cases n
  all_goals
    cases h
    decide

/-- Whether the chunk pushes data that can be a key. -/
theorem pushes_nonempty_iff {c : Chunk} :
    c.pushes (fun data => !data.isEmpty) = true ↔ ∃ data, c.data? = some data ∧ data ≠ [] := by
  cases c with
  | op code => simp [pushes, data?]
  | push code data => simp [pushes, data?]

end Chunk

namespace Script

/-- `OP_m key ... key OP_n OP_CHECKMULTISIG`, given the two opcodes and the chunks between them. -/
def multisigOutBy (m : Opcode) (keys : List Chunk) (n : Opcode) : Script :=
  ⟨.ofOpcode m :: (keys ++ [.ofOpcode n, .ofOpcode .checkMultiSig])⟩

/-- The chunks are the shortest pushes of the keys. -/
def PushesOf (keys : List Bytes) (cs : List Chunk) : Prop :=
  List.Forall₂ (fun key c => Chunk.ofData? key = some c) keys cs

theorem PushesOf.eq_map {keys : List Bytes} {cs : List Chunk} (h : PushesOf keys cs) :
    keys = cs.map Chunk.payload := by
  induction h with
  | nil => rfl
  | cons hc _ ih => rw [List.map_cons, ← ih, Chunk.payload_of_ofData? hc]

theorem PushesOf.exists_key {keys : List Bytes} {cs : List Chunk} (h : PushesOf keys cs) :
    ∀ c ∈ cs, ∃ key ∈ keys, Chunk.ofData? key = some c := by
  induction h with
  | nil => simp
  | cons hc _ ih =>
    intro c hmem
    rcases List.mem_cons.1 hmem with rfl | hmem
    · exact ⟨_, List.mem_cons_self, hc⟩
    · obtain ⟨key, hkey, hc⟩ := ih c hmem
      exact ⟨key, List.mem_cons_of_mem _ hkey, hc⟩

/-- Pushes in the shortest form are the shortest pushes of what they push. -/
theorem pushesOf_payloads {cs : List Chunk} (hshort : ∀ c ∈ cs, c.IsShortest)
    (hpush : ∀ c ∈ cs, ∃ data, c.data? = some data ∧ data ≠ []) :
    PushesOf (cs.map Chunk.payload) cs := by
  rw [PushesOf, List.forall₂_map_left_iff, List.forall₂_same]
  intro c hc
  obtain ⟨data, hdata, -⟩ := hpush c hc
  rw [Chunk.payload, hdata]
  exact hshort c hc data hdata

theorem multisigOutBy_inj {m m' n n' : Opcode} {keys keys' : List Chunk}
    (h : multisigOutBy m keys n = multisigOutBy m' keys' n') : m = m' ∧ keys = keys' := by
  rw [multisigOutBy, multisigOutBy, Script.mk.injEq, List.cons.injEq] at h
  obtain ⟨hfirst, hrest⟩ := h
  exact ⟨Opcode.byte_injective (Chunk.op.inj hfirst), (List.append_inj' hrest rfl).1⟩

/-! ## The recognizer -/

theorem isMultisigOut_iff {s : Script} :
    s.isMultisigOut = true ↔ ∃ m n first keys count, 1 ≤ m ∧ m ≤ n ∧ keys.length = n ∧
      Opcode.smallInt? m = some first ∧ Opcode.smallInt? n = some count ∧
      (∀ c ∈ keys, ∃ data, c.data? = some data ∧ data ≠ []) ∧
      s = multisigOutBy first keys count := by
  cases s with
  | mk chunks =>
    constructor
    · intro h
      simp only [isMultisigOut] at h
      split at h
      · cases h
      · rename_i first rest
        split at h
        · rename_i last count keys hreverse
          split at h
          · rename_i m n hm hn
            simp only [Bool.and_eq_true, beq_iff_eq, decide_eq_true_eq, List.all_eq_true,
              Chunk.pushes_nonempty_iff] at h
            obtain ⟨⟨rfl, hone, hle, hlength⟩, hkeys⟩ := h
            obtain ⟨first, hfirst, rfl⟩ := Chunk.smallCount?_eq_some_iff.1 hm
            obtain ⟨count, hcount, rfl⟩ := Chunk.smallCount?_eq_some_iff.1 hn
            refine ⟨m, n, first, keys.reverse, count, hone, hle, ?_, hfirst, hcount, ?_, ?_⟩
            · rw [List.length_reverse, hlength]
            · intro c hc
              exact hkeys c (List.mem_reverse.1 hc)
            · rw [multisigOutBy, ← List.reverse_reverse rest, hreverse]
              simp
          · cases h
        · cases h
    · rintro ⟨m, n, first, keys, count, hone, hle, hlength, hm, hn, hkeys, h⟩
      have hfirst := Chunk.smallCount?_eq_some_iff.2 ⟨first, hm, rfl⟩
      have hcount := Chunk.smallCount?_eq_some_iff.2 ⟨count, hn, rfl⟩
      have hreverse : (keys ++ [Chunk.ofOpcode count, Chunk.ofOpcode .checkMultiSig]).reverse =
          .ofOpcode .checkMultiSig :: .ofOpcode count :: keys.reverse := by simp
      rw [h]
      simp only [isMultisigOut, multisigOutBy, hreverse, hfirst, hcount, Bool.and_eq_true,
        beq_self_eq_true, decide_eq_true_eq, List.all_eq_true, Chunk.pushes_nonempty_iff,
        List.length_reverse, List.mem_reverse, true_and]
      exact ⟨⟨hone, hle, hlength⟩, hkeys⟩

/-! ## The builder -/

theorem pushAll_eq_ok_iff {s s' : Script} {keys : List Bytes} :
    s.pushAll keys = .ok s' ↔ ∃ cs, PushesOf keys cs ∧ s' = ⟨s.chunks ++ cs⟩ := by
  induction keys generalizing s with
  | nil => simp [pushAll, PushesOf, eq_comm]
  | cons key keys ih =>
    simp only [pushAll, pushData]
    cases hkey : Chunk.ofData? key with
    | none =>
      refine iff_of_false nofun ?_
      rintro ⟨cs, hcs, -⟩
      cases hcs with
      | cons hc hcs =>
        rw [hkey] at hc
        cases hc
    | some c =>
      dsimp only
      rw [ih]
      constructor
      · rintro ⟨cs, hcs, rfl⟩
        exact ⟨c :: cs, .cons hkey hcs, by rw [List.append_assoc, List.singleton_append]⟩
      · rintro ⟨cs, hcs, rfl⟩
        cases hcs with
        | cons hc hcs =>
          rw [hkey, Option.some.injEq] at hc
          rw [← hc]
          exact ⟨_, hcs, by rw [List.append_assoc, List.singleton_append]⟩

theorem multisigChunks_eq_ok_iff {keys : List Bytes} {m : Nat} {s : Script} :
    multisigChunks keys m = .ok s ↔
      ∃ first cs count, Opcode.smallInt? m = some first ∧ PushesOf keys cs ∧
        Opcode.smallInt? keys.length = some count ∧ s = multisigOutBy first cs count := by
  constructor
  · intro h
    simp only [multisigChunks, pushSmallInt] at h
    cases hm : Opcode.smallInt? m with
    | none =>
      rw [hm] at h
      cases h
    | some first =>
      rw [hm] at h
      dsimp only at h
      split at h
      · cases h
      · rename_i s' hall
        obtain ⟨cs, hcs, rfl⟩ := pushAll_eq_ok_iff.1 hall
        cases hn : Opcode.smallInt? keys.length with
        | none =>
          rw [hn] at h
          cases h
        | some count =>
          rw [hn] at h
          cases h
          exact ⟨first, cs, count, rfl, hcs, rfl, by simp [multisigOutBy, pushOpcode, empty]⟩
  · rintro ⟨first, cs, count, hm, hcs, hn, rfl⟩
    have hall : (empty.pushOpcode first).pushAll keys = .ok ⟨.ofOpcode first :: cs⟩ :=
      pushAll_eq_ok_iff.2 ⟨cs, hcs, rfl⟩
    simp only [multisigChunks, pushSmallInt, hm, hall, hn]
    simp [multisigOutBy, pushOpcode]

theorem multisigOut_eq_ok_iff {keys : List Bytes} {m : Nat} {s : Script} :
    multisigOut keys m false = .ok s ↔
      1 ≤ m ∧ m ≤ keys.length ∧ ∃ first cs count, Opcode.smallInt? m = some first ∧
        PushesOf keys cs ∧ Opcode.smallInt? keys.length = some count ∧
        s = multisigOutBy first cs count := by
  simp only [multisigOut, Bool.false_eq_true, if_false]
  split_ifs with hkeys hm
  · refine iff_of_false nofun ?_
    rintro ⟨hone, hle, first, cs, count, -, -, hcount, -⟩
    have hlimit := Opcode.le_of_smallInt? hcount
    rw [maxTemplateKeys] at hkeys
    omega
  · refine iff_of_false nofun ?_
    rintro ⟨hone, hle, -⟩
    omega
  · rw [multisigChunks_eq_ok_iff]
    have hrange : 1 ≤ m ∧ m ≤ keys.length := by omega
    simp only [hrange.1, hrange.2, true_and]

theorem length_le_of_multisigOut {keys : List Bytes} {m : Nat} {s : Script}
    (h : multisigOut keys m false = .ok s) : 1 ≤ m ∧ m ≤ keys.length ∧ keys.length ≤ 16 := by
  obtain ⟨hone, hle, _, _, _, -, -, hcount, -⟩ := multisigOut_eq_ok_iff.1 h
  exact ⟨hone, hle, Opcode.le_of_smallInt? hcount⟩

/-- A script of several keys says which keys they are and how many have to sign. -/
theorem multisigOut_inj {keys keys' : List Bytes} {m m' : Nat} {s : Script}
    (h : multisigOut keys m false = .ok s) (h' : multisigOut keys' m' false = .ok s) :
    keys = keys' ∧ m = m' := by
  obtain ⟨-, -, first, cs, count, hm, hcs, -, rfl⟩ := multisigOut_eq_ok_iff.1 h
  obtain ⟨-, -, first', cs', count', hm', hcs', -, hs⟩ := multisigOut_eq_ok_iff.1 h'
  obtain ⟨rfl, rfl⟩ := multisigOutBy_inj hs
  exact ⟨hcs.eq_map.trans hcs'.eq_map.symm, Opcode.smallInt?_injective hm hm'⟩

theorem wellFormed_of_multisigOut {keys : List Bytes} {m : Nat} {s : Script}
    (h : multisigOut keys m false = .ok s) : ∀ c ∈ s.chunks, c.WellFormed := by
  obtain ⟨-, -, first, cs, count, hm, hcs, hn, rfl⟩ := multisigOut_eq_ok_iff.1 h
  intro c hc
  simp only [multisigOutBy, List.mem_cons, List.mem_append, List.not_mem_nil, or_false] at hc
  rcases hc with rfl | hc | rfl | rfl
  · exact Chunk.wellFormed_of_smallInt? hm
  · obtain ⟨key, -, hkey⟩ := hcs.exists_key c hc
    exact Chunk.wellFormed_of_ofData? hkey
  · exact Chunk.wellFormed_of_smallInt? hn
  · decide

theorem isMultisigOut_iff_built {s : Script} (hshort : ∀ c ∈ s.chunks, c.IsShortest) :
    s.isMultisigOut = true ↔
      ∃ keys m, (∀ key ∈ keys, key ≠ []) ∧ multisigOut keys m false = .ok s := by
  constructor
  · intro h
    obtain ⟨m, n, first, cs, count, hone, hle, rfl, hm, hn, hpush, rfl⟩ := isMultisigOut_iff.1 h
    have hcs : PushesOf (cs.map Chunk.payload) cs := by
      refine pushesOf_payloads (fun c hc => hshort c ?_) hpush
      exact List.mem_cons_of_mem _ (List.mem_append_left _ hc)
    refine ⟨cs.map Chunk.payload, m, ?_, multisigOut_eq_ok_iff.2 ?_⟩
    · intro key hkey
      obtain ⟨c, hc, rfl⟩ := List.mem_map.1 hkey
      obtain ⟨data, hdata, hne⟩ := hpush c hc
      rw [Chunk.payload, hdata]
      exact hne
    · rw [List.length_map]
      exact ⟨hone, hle, first, cs, count, hm, hcs, hn, rfl⟩
  · rintro ⟨keys, m, hne, h⟩
    obtain ⟨hone, hle, first, cs, count, hm, hcs, hn, rfl⟩ := multisigOut_eq_ok_iff.1 h
    refine isMultisigOut_iff.2 ⟨m, keys.length, first, cs, count, hone, hle, ?_, hm, hn, ?_, rfl⟩
    · exact (List.Forall₂.length_eq hcs).symm
    · intro c hc
      obtain ⟨key, hkey, hpush⟩ := hcs.exists_key c hc
      exact ⟨key, Chunk.data?_of_ofData? hpush (hne key hkey), hne key hkey⟩

/-! ## Sorted keys -/

theorem multisigOut_sort (keys : List Bytes) (m : Nat) :
    multisigOut keys m true = multisigOut (keys.mergeSort Bytes.dictionaryLE) m false := by
  simp [multisigOut]

/-- The keys of a sorted script in the order in which they stand there. -/
theorem multisigOut_sorted (keys : List Bytes) :
    ∃ ascending : List Bytes, ascending.Perm keys ∧ ascending.Pairwise (· ≤ ·) ∧
      ∀ keys' m, keys'.Perm keys → multisigOut keys' m true = multisigOut ascending m false := by
  refine ⟨keys.mergeSort Bytes.dictionaryLE, List.mergeSort_perm _ _, ?_, ?_⟩
  · exact Bytes.pairwise_sort keys
  · intro keys' m hperm
    rw [multisigOut_sort, Bytes.sort_eq_of_perm hperm]

/-- **Scripts of several keys.** Where every push has its shortest form, the template for several
keys is what is built from at most sixteen keys, none of them empty, and from how many of them have
to sign. Keys and number are read off the script. Sorted, the keys give the same result in whatever
order they come, namely that of the keys in ascending order. -/
theorem multisigOut_builds_recognized :
    (∀ s : Script, (∀ c ∈ s.chunks, c.IsShortest) →
      (s.isMultisigOut = true ↔ ∃ keys m, (∀ key ∈ keys, key ≠ []) ∧ 1 ≤ m ∧ m ≤ keys.length ∧
        keys.length ≤ 16 ∧ multisigOut keys m false = .ok s) ∧
      (s.isMultisigOut = true → ofBytes s.toBytes = .ok s)) ∧
    (∀ (s : Script) keys m keys' m', multisigOut keys m false = .ok s →
      multisigOut keys' m' false = .ok s → keys = keys' ∧ m = m') ∧
    ∀ keys : List Bytes, ∃ ascending : List Bytes, ascending.Perm keys ∧
      ascending.Pairwise (· ≤ ·) ∧
      ∀ keys' m, keys'.Perm keys → multisigOut keys' m true = multisigOut ascending m false := by
  refine ⟨?_, fun s keys m keys' m' => multisigOut_inj, multisigOut_sorted⟩
  intro s hshort
  refine ⟨?_, ?_⟩
  · rw [isMultisigOut_iff_built hshort]
    refine exists_congr fun keys => exists_congr fun m => and_congr_right fun _ => ?_
    constructor
    · intro h
      obtain ⟨hone, hle, hlimit⟩ := length_le_of_multisigOut h
      exact ⟨hone, hle, hlimit, h⟩
    · rintro ⟨-, -, -, h⟩
      exact h
  · intro h
    obtain ⟨keys, m, -, hbuilt⟩ := (isMultisigOut_iff_built hshort).1 h
    exact ofBytes_toBytes (wellFormed_of_multisigOut hbuilt)

/-- Two signatures for three keys, not in their order, with a key that begins another. -/
def twoOfThree : Script :=
  multisigOutBy .two [.push 1 [3], .push 2 [2, 1], .push 1 [2]] .three

theorem multisigOut_builds_recognized_unordered :
    (∀ c ∈ twoOfThree.chunks, c.IsShortest) ∧ twoOfThree.isMultisigOut = true ∧
      (∃ keys m, (∀ key ∈ keys, key ≠ []) ∧ 1 ≤ m ∧ m ≤ keys.length ∧ keys.length ≤ 16 ∧
        multisigOut keys m false = .ok twoOfThree) ∧
      ofBytes twoOfThree.toBytes = .ok twoOfThree := by
  have hshort : ∀ c ∈ twoOfThree.chunks, c.IsShortest := by decide
  have hfits : twoOfThree.isMultisigOut = true := by decide
  obtain ⟨hbuilt, hread⟩ := multisigOut_builds_recognized.1 twoOfThree hshort
  exact ⟨hshort, hfits, hbuilt.1 hfits, hread hfits⟩

end Script

end SpendScript
