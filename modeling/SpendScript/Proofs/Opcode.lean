import Mathlib
import SpendScript.Opcode

/-!
# SpendScript.Proofs.Opcode

The names of the opcodes as words of a text.

* `toList_name`: a name is a word of visible characters that begins with `O`, as no hexadecimal
  data does.
* `name_injective`, `ofName?_name`: an opcode is found under its own name.
* `eq_or_mem_of_ofName?`: what else it is found under.
-/

namespace SpendScript.Opcode

theorem mem_all (op : Opcode) : op ∈ all := List.mem_of_find?_eq_some (ofByte?_byte op)

theorem exists_letters (op : Opcode) :
    ∃ w, op.name = String.ofList w ∧ w.head? = some 'O' ∧
      w.all (fun c => decide (0x21 ≤ c.toNat ∧ c.toNat ≤ 0x7e)) = true := by
  cases op
  all_goals exact ⟨_, rfl, rfl, rfl⟩

theorem toList_name (op : Opcode) :
    op.name.toList.head? = some 'O' ∧ ∀ c ∈ op.name.toList, 0x21 ≤ c.toNat ∧ c.toNat ≤ 0x7e := by
  obtain ⟨w, hw, hhead, hvisible⟩ := op.exists_letters
  rw [hw, String.toList_ofList]
  simp only [List.all_eq_true, decide_eq_true_eq] at hvisible
  exact ⟨hhead, hvisible⟩

/-- The letters of a word as the digits of a number. -/
def wordNumber (w : List Char) : Nat := w.foldl (fun n c => 256 * n + c.toNat) 0

/-- All names letter by letter. Their numbers are compared and not the names themselves, since every
comparison of strings would spell both of them out again. -/
theorem exists_spellings :
    ∃ words, List.Forall₂ (fun op w => op.name = String.ofList w) all words ∧
      (words.map wordNumber).Nodup := by
  apply Exists.intro
  refine ⟨?names, ?nodup⟩
  case names =>
    simp only [all]
    repeat' constructor
  case nodup => decide +kernel

theorem nodup_names : (all.map name).Nodup := by
  obtain ⟨words, hnames, hnodup⟩ := exists_spellings
  have hmap : all.map name = words.map String.ofList := by
    rw [← List.forall₂_eq_eq_eq, List.forall₂_map_left_iff, List.forall₂_map_right_iff]
    exact hnames
  rw [hmap]
  exact (List.Nodup.of_map wordNumber hnodup).map fun _ _ => String.ofList_injective

theorem name_injective {a b : Opcode} (h : a.name = b.name) : a = b :=
  List.inj_on_of_nodup_map nodup_names a.mem_all b.mem_all h

theorem ofName?_name (op : Opcode) : ofName? op.name = some op := by
  rw [ofName?]
  cases hfind : all.find? (fun o => o.name == op.name) with
  | none =>
    have hne := List.find?_eq_none.1 hfind op op.mem_all
    rw [beq_self_eq_true] at hne
    exact absurd rfl hne
  | some found =>
    have hname := List.find?_some hfind
    rw [name_injective (eq_of_beq hname)]

theorem eq_or_mem_of_ofName? {s : String} {op : Opcode} (h : ofName? s = some op) :
    op.name = s ∨ (s, op) ∈ aliases := by
  rw [ofName?] at h
  split at h
  · rename_i found hfind
    cases h
    have hname := List.find?_some hfind
    exact .inl (eq_of_beq hname)
  · obtain ⟨before, after, hsplit, -⟩ := List.lookup_eq_some_iff.1 h
    rw [hsplit]
    exact .inr (List.mem_append_right before List.mem_cons_self)

theorem exists_letters_of_mem_aliases :
    ∀ p ∈ aliases, ∃ w, p.1 = String.ofList w ∧ w.head? = some 'O' := by
  simp only [aliases, List.forall_mem_cons]
  exact ⟨⟨_, rfl, rfl⟩, ⟨_, rfl, rfl⟩, ⟨_, rfl, rfl⟩, ⟨_, rfl, rfl⟩, nofun⟩

/-- A word that does not begin with `O` names no opcode. -/
theorem ofName?_eq_none {w : List Char} (h : w.head? ≠ some 'O') :
    ofName? (String.ofList w) = none := by
  cases hname : ofName? (String.ofList w) with
  | none => rfl
  | some op =>
    rcases eq_or_mem_of_ofName? hname with hop | halias
    · have hhead := op.toList_name.1
      rw [hop, String.toList_ofList] at hhead
      exact absurd hhead h
    · obtain ⟨letters, hletters, hhead⟩ := exists_letters_of_mem_aliases _ halias
      rw [String.ofList_injective hletters] at h
      exact absurd hhead h

end SpendScript.Opcode
