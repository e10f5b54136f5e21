import SpendScript.Proofs.Eval.OpEffects
import SpendScript.Proofs.Eval.Reachable

/-!
# SpendScript.Proofs.Eval.Limits

The resources that an evaluation holds at any moment. The limit on the stacks is tested after each
chunk and the limit on the operations when one is counted; the length of an item is tested for
pushes alone, and what the opcodes make is short or no longer than what they take.

* `Machine.WithinLimits.exec`, `Machine.WithinLimits.runOn`: one chunk, and one script.
* `Evaluation.reachable_withinLimits`: every state of an evaluation.
-/

namespace SpendScript

/-- The limits hold for a machine that has come to the chunk at `offset`. -/
structure Machine.WithinLimits (limits : Limits) (offset : Nat) (m : Machine) : Prop where
  depth : m.depth ≤ limits.maxStackSize
  opCount : m.opCount ≤ limits.maxOps
  items : ∀ x ∈ m.items, x.length ≤ max limits.maxElementSize 32
  codeStart : m.codeStart ≤ offset

/-- The limits hold for a state of an evaluation, and the place in the running script is one of its
chunks. -/
structure Evaluation.WithinLimits (limits : Limits) (e : Evaluation) : Prop where
  depth : e.machine.data.length + e.machine.alt.length ≤ limits.maxStackSize
  opCount : e.machine.opCount ≤ limits.maxOps
  data : ∀ x ∈ e.machine.data, x.length ≤ max limits.maxElementSize 32
  alt : ∀ x ∈ e.machine.alt, x.length ≤ max limits.maxElementSize 32
  saved : ∀ x ∈ e.saved, x.length ≤ max limits.maxElementSize 32
  scripts : e.scripts.length ≤ 3
  place : e.finished = false → e.machine.codeStart ≤ e.offset ∧ e.offset < e.running.length

namespace Machine

variable {env : Env} {chunks : List Chunk} {offset : Nat} {c : Chunk} {m m' : Machine}
  {data data' : Stack}

theorem WithinLimits.exec (hword : env.limits.maxStackSize < 2 ^ 64)
    (h : m.WithinLimits env.limits offset) (hexec : m.exec env chunks offset c = .ok m')
    (hdepth : m'.depth ≤ env.limits.maxStackSize) :
    m'.WithinLimits env.limits (offset + 1) := by
  have heffect := exec_outcome.of_ok hexec
  refine ⟨hdepth, heffect.opCount h.opCount, ?_, ?_⟩
  · intro x hx
    obtain hshort | ⟨y, hy, hxy⟩ := heffect.items x hx
    · exact Nat.le_trans hshort (Nat.le_max_right _ _)
    · refine Nat.le_trans hxy ?_
      obtain rfl | hy := List.mem_cons.1 hy
      · exact Nat.le_trans heffect.payload (Nat.le_max_left _ _)
      · obtain rfl | hy := List.mem_cons.1 hy
        · have hdata : m.data.depth < 2 ^ 64 :=
            Nat.lt_of_le_of_lt (Nat.le_trans (Nat.le_add_right _ _) h.depth) hword
          refine Nat.le_trans (Number.length_encode_of_lt ?_) (Nat.le_max_right _ _)
          rwa [Int.natAbs_natCast]
        · exact h.items y hy
  · have hstart := h.codeStart
    obtain heq | heq := heffect.codeStart <;> omega

theorem withinLimits_initial (limits : Limits) : initial.WithinLimits limits 0 :=
  ⟨Nat.zero_le _, Nat.zero_le _, fun _ hx => absurd hx List.not_mem_nil, Nat.le_refl _⟩

/-- What a script leaves, at the beginning of the next one. -/
theorem WithinLimits.fresh (h : m.WithinLimits env.limits offset) :
    (fresh m.data).WithinLimits env.limits 0 := by
  refine ⟨Nat.le_trans ?_ h.depth, Nat.zero_le _, ?_, Nat.le_refl _⟩
  · exact Nat.le_add_right _ _
  · intro x hx
    rw [items_fresh] at hx
    exact h.items x (List.mem_append_left _ hx)

theorem WithinLimits.runOn (hword : env.limits.maxStackSize < 2 ^ 64) {s : Script}
    (h : (Machine.fresh data).WithinLimits env.limits 0) (hrun : s.runOn env data = .ok data') :
    (Machine.fresh data').WithinLimits env.limits 0 := by
  obtain ⟨m, hall, -, rfl⟩ := runOn_eq_ok_iff.1 hrun
  exact (execAll_invariant (fun hm => hm.exec hword) h hall).fresh

theorem WithinLimits.tail {x : Bytes} (h : (Machine.fresh (x :: data)).WithinLimits env.limits 0) :
    (Machine.fresh data).WithinLimits env.limits 0 := by
  refine ⟨Nat.le_trans (Nat.le_succ _) h.depth, Nat.zero_le _, ?_, Nat.le_refl _⟩
  intro y hy
  exact h.items y (List.mem_cons_of_mem x hy)

end Machine

theorem Partway.withinLimits {env : Env} {s : Script} {data : Stack} {k : Nat} {m : Machine}
    (hword : env.limits.maxStackSize < 2 ^ 64) (hk : Partway env s data k m)
    (h : (Machine.fresh data).WithinLimits env.limits 0) : m.WithinLimits env.limits k :=
  hk.invariant (fun hm => hm.exec hword) h

namespace Evaluation

variable {env : Env} {unlocking locking : Script} {e : Evaluation}

theorem withinLimits_of_machine {limits : Limits} {offset : Nat}
    (hm : e.machine.WithinLimits limits offset)
    (hsaved : ∀ x ∈ e.saved, x.length ≤ max limits.maxElementSize 32)
    (hscripts : e.scripts.length ≤ 3)
    (hplace : e.finished = false → offset = e.offset ∧ e.offset < e.running.length) :
    e.WithinLimits limits := by
  refine ⟨hm.depth, hm.opCount, fun x hx => hm.items x (List.mem_append_left _ hx),
    fun x hx => hm.items x (List.mem_append_right _ hx), hsaved, hscripts, fun hrunning => ?_⟩
  obtain ⟨rfl, hlt⟩ := hplace hrunning
  exact ⟨hm.codeStart, hlt⟩

theorem Stage.withinLimits {n : Nat} (hword : env.limits.maxStackSize < 2 ^ 64)
    (h : Stage env unlocking locking n e) : e.WithinLimits env.limits := by
  have hinitial := Machine.withinLimits_initial env.limits
  rw [← Machine.fresh_nil] at hinitial
  have hnone : ∀ x ∈ ([] : Stack), x.length ≤ max env.limits.maxElementSize 32 := by simp
  cases h with
  | unlocking hk =>
    exact withinLimits_of_machine (hk.withinLimits hword hinitial) hnone (by simp)
      fun _ => ⟨rfl, hk.lt⟩
  | @locking k m left hn hleft hk =>
    have hdata := hinitial.runOn hword hleft
    refine withinLimits_of_machine (hk.withinLimits hword hdata) ?_ (by simp)
      fun _ => ⟨rfl, hk.lt⟩
    intro x hx
    split at hx
    · exact hdata.items x (List.mem_append_left _ hx)
    · exact hnone x hx
  | redeem hn hwraps hleft hread hk =>
    have hdata := (hinitial.runOn hword hleft).tail
    exact withinLimits_of_machine (hk.withinLimits hword hdata) hnone (by simp)
      fun _ => ⟨rfl, hk.lt⟩
  | ended hn hwraps hleft hdata =>
    have hm := (hinitial.runOn hword hleft).runOn hword hdata
    exact withinLimits_of_machine hm hnone (by simp) fun hrunning => by cases hrunning
  | endedRedeem hn hwraps hleft hread hdata =>
    have hm := (hinitial.runOn hword hleft).tail.runOn hword hdata
    exact withinLimits_of_machine hm hnone (by simp) fun hrunning => by cases hrunning

/-- **The limits hold in every state.** The depth of the data stack is the one number that an opcode
pushes without a bound of its own; the limit on the stacks is a machine word. -/
theorem reachable_withinLimits (hword : env.limits.maxStackSize < 2 ^ 64)
    (h : Reachable env unlocking locking e) : e.WithinLimits env.limits := by
  obtain ⟨n, hstage⟩ := h.stage
  exact hstage.withinLimits hword

/-- Within a locking script, behind a separator. -/
theorem reachable_withinLimits_separator :
    ({} : Limits).maxStackSize < 2 ^ 64 ∧
      ∃ e, Reachable ⟨.none, {}, none, 0⟩ ⟨[.push 2 [5, 6]]⟩
          ⟨[.ofOpcode .codeSeparator, .ofOpcode .toAltStack, .ofOpcode .fromAltStack]⟩ e ∧
        e.machine = ⟨[], [[5, 6]], [], 2, 1⟩ ∧ e.WithinLimits {} := by
  have hword : ({} : Limits).maxStackSize < 2 ^ 64 := by decide
  have hreach : Reachable ⟨.none, {}, none, 0⟩ ⟨[.push 2 [5, 6]]⟩
      ⟨[.ofOpcode .codeSeparator, .ofOpcode .toAltStack, .ofOpcode .fromAltStack]⟩
      ⟨_, _, _, _, _, _, _⟩ := reachable_iff.2 ⟨3, rfl⟩
  exact ⟨hword, _, hreach, rfl, reachable_withinLimits hword hreach⟩

end Evaluation
end SpendScript
