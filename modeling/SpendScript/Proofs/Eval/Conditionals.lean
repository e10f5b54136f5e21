import SpendScript.Proofs.Eval.OpEffects
import SpendScript.Proofs.Eval.Reachable

/-!
# SpendScript.Proofs.Eval.Conditionals

How conditionals nest. Which branches are taken depends on the stacks, but how many are open depends
on the chunks alone, and no conditional goes from one script into the next: a script that leaves one
open for the next script to close fails, and so does one that closes what it has not opened.

* `Balanced`: every conditional of a list of chunks is closed in it, and no other is touched.
* `nesting`: the number of open conditionals, chunk by chunk.
* `balanced_iff_nesting`: the two say the same.
* `conditionals_by_syntax`: the open conditionals of every state, and the scripts of a spend that
  succeeds.
-/

namespace SpendScript

namespace Chunk

def opens (c : Chunk) : Bool := c.code == Opcode.ifOp.byte || c.code == Opcode.notIf.byte

def switches (c : Chunk) : Bool := c.code == Opcode.elseOp.byte

def closes (c : Chunk) : Bool := c.code == Opcode.endIf.byte

end Chunk

/-- Every chunk that switches or closes a branch stands within a conditional of the list, and every
conditional of the list is closed. -/
structure Balanced (cs : List Chunk) : Prop where
  within : ∀ before c after, before ++ c :: after = cs → c.switches || c.closes →
    before.countP Chunk.closes < before.countP Chunk.opens
  closed : cs.countP Chunk.closes = cs.countP Chunk.opens

/-- The number of open conditionals after the chunks, if each chunk stands where it may. -/
def nesting : List Chunk → Nat → Option Nat
  | [], d => some d
  | c :: cs, d =>
    match c.nest d with
    | none => none
    | some d' => nesting cs d'

/-! ## Counting -/

section Counting

variable {c : Chunk} {cs : List Chunk} {d d' : Nat}

theorem nest_eq_some_iff :
    c.nest d = some d' ↔
      (c.switches || c.closes → 0 < d) ∧ d' + c.closes.toNat = d + c.opens.toNat := by
  unfold Chunk.nest Chunk.switches Chunk.closes Chunk.opens
  cases hnamed : Opcode.ofByte? c.code with
  | none =>
    have hne : ∀ op : Opcode, (c.code == op.byte) = false := by
      intro op
      rw [beq_eq_false_iff_ne]
      rintro hcode
      rw [hcode, Opcode.ofByte?_byte] at hnamed
      cases hnamed
    simp only [hne, Bool.or_self, Bool.toNat_false, Option.some.injEq, Bool.false_eq_true,
      false_imp_iff, true_and, Nat.add_zero]
    exact eq_comm
  | some op =>
    have hcode : ∀ op' : Opcode, (c.code == op'.byte) = decide (op = op') := by
      intro op'
      rw [← Opcode.byte_eq_of_ofByte? hnamed, Bool.eq_iff_iff, beq_iff_eq, decide_eq_true_eq]
      exact ⟨fun h => Opcode.byte_injective h, congrArg Opcode.byte⟩
    simp only [hcode]
    cases hconditional : op.isConditional with
    | false =>
      have hne : ∀ op' : Opcode, op'.isConditional = true → op ≠ op' := by
        rintro op' hop' rfl
        rw [hconditional] at hop'
        cases hop'
      simp only [Machine.nest_of_not_conditional hconditional, hne .ifOp rfl, hne .notIf rfl,
        hne .elseOp rfl, hne .endIf rfl, decide_false, Bool.or_self, Bool.toNat_false,
        Option.some.injEq, Bool.false_eq_true, false_imp_iff, true_and, Nat.add_zero]
      exact eq_comm
    | true =>
      cases op
      case ifOp | notIf | verIf | verNotIf | elseOp | endIf =>
        cases d <;> simp [Opcode.nest] <;> omega
      all_goals cases hconditional

theorem countP_cons_toNat (p : Chunk → Bool) :
    (c :: cs).countP p = cs.countP p + (p c).toNat := by
  rw [List.countP_cons]
  cases p c <;> rfl

/-- By induction on the chunks; `d` conditionals are open before them. -/
theorem nesting_eq_some_iff (cs : List Chunk) :
    ∀ d d', nesting cs d = some d' ↔
      (∀ before c after, before ++ c :: after = cs → c.switches || c.closes →
        before.countP Chunk.closes < d + before.countP Chunk.opens) ∧
      d' + cs.countP Chunk.closes = d + cs.countP Chunk.opens := by
  induction cs with
  | nil =>
    intro d d'
    simp [nesting]
    exact eq_comm
  | cons c cs ih =>
    intro d d'
    rw [nesting]
    constructor
    · intro h
      split at h
      · cases h
      · rename_i d₁ hnest
        obtain ⟨hinside, hstep⟩ := nest_eq_some_iff.1 hnest
        obtain ⟨hwithin, hcount⟩ := (ih d₁ d').1 h
        refine ⟨?_, ?_⟩
        · rintro before c₁ after hcs hc₁
          cases before with
          | nil =>
            cases hcs
            simpa using hinside hc₁
          | cons c₀ before =>
            cases hcs
            have hlt := hwithin before c₁ after rfl hc₁
            simp only [countP_cons_toNat]
            omega
        · simp only [countP_cons_toNat]
          omega
    · rintro ⟨hwithin, hcount⟩
      have hinside : c.switches || c.closes → 0 < d := by
        intro hc
        simpa using hwithin [] c cs rfl hc
      simp only [countP_cons_toNat] at hcount
      obtain ⟨d₁, hstep⟩ : ∃ d₁, d₁ + c.closes.toNat = d + c.opens.toNat := by
        cases hc : c.closes with
        | false => exact ⟨_, rfl⟩
        | true =>
          have hpos := hinside (by simp [hc])
          exact ⟨d + c.opens.toNat - 1, by simp only [Bool.toNat_true]; omega⟩
      rw [nest_eq_some_iff.2 ⟨hinside, hstep⟩]
      refine (ih d₁ d').2 ⟨?_, by omega⟩
      intro before c₁ after hcs hc₁
      have hlt := hwithin (c :: before) c₁ after (by rw [List.cons_append, hcs]) hc₁
      simp only [countP_cons_toNat] at hlt
      omega

theorem balanced_iff_nesting : Balanced cs ↔ nesting cs 0 = some 0 := by
  rw [nesting_eq_some_iff]
  constructor
  · intro h
    exact ⟨by simpa using h.within, by simpa using h.closed⟩
  · rintro ⟨hwithin, hclosed⟩
    exact ⟨by simpa using hwithin, by simpa using hclosed⟩

end Counting

/-! ## Running -/

section Running

variable {env : Env} {chunks : List Chunk} {m m' : Machine}

/-- By induction on the chunks. -/
theorem nesting_of_execAll (cs : List Chunk) :
    ∀ (offset : Nat) (m : Machine), Machine.execAll env chunks offset m cs = .ok m' →
      nesting cs m.branches.length = some m'.branches.length := by
  induction cs with
  | nil =>
    intro offset m hrun
    cases Machine.execAll_nil_eq_ok_iff.1 hrun
    rfl
  | cons c cs ih =>
    intro offset m hrun
    obtain ⟨m₁, hexec, -, hrest⟩ := Machine.execAll_cons_eq_ok_iff.1 hrun
    have hnest := (Machine.exec_outcome.of_ok hexec).branches
    rw [nesting, hnest]
    exact ih (offset + 1) m₁ hrest

theorem balanced_of_runOn {s : Script} {data data' : Stack} (hrun : s.runOn env data = .ok data') :
    Balanced s.chunks := by
  obtain ⟨m, hall, hclosed, -⟩ := runOn_eq_ok_iff.1 hrun
  have hnesting := nesting_of_execAll s.chunks 0 (.fresh data) hall
  rw [hclosed] at hnesting
  exact balanced_iff_nesting.2 hnesting

theorem Partway.branches {s : Script} {data : Stack} {k : Nat} (h : Partway env s data k m) :
    m.branches.length + (s.chunks.take k).countP Chunk.closes =
      (s.chunks.take k).countP Chunk.opens := by
  have hnesting := nesting_of_execAll _ 0 (.fresh data) h.run
  have hcount := ((nesting_eq_some_iff _ _ _).1 hnesting).2
  simpa [Machine.fresh, Machine.initial] using hcount

end Running

namespace Evaluation

variable {env : Env} {unlocking locking : Script} {n : Nat} {e : Evaluation}

theorem Stage.branches (h : Stage env unlocking locking n e) :
    e.machine.branches.length + (e.running.chunks.take e.offset).countP Chunk.closes =
      (e.running.chunks.take e.offset).countP Chunk.opens := by
  cases h with
  | unlocking hk => exact hk.branches
  | locking hn hleft hk => exact hk.branches
  | redeem hn hwraps hleft hread hk => exact hk.branches
  | ended => rfl
  | endedRedeem => rfl

/-- The scripts of a spend that succeeds, as far as they are known. -/
theorem Stage.balanced (h : Stage env unlocking locking n e)
    (hphases : phases env unlocking locking = .ok ()) : ∀ s ∈ e.scripts, Balanced s.chunks := by
  obtain ⟨left, hleft, hfrom⟩ := phases_eq_ok_iff.1 hphases
  have hunlocking := balanced_of_runOn hleft
  have hlocking : Balanced locking.chunks := by
    cases hwraps : env.wraps locking with
    | false =>
      obtain ⟨data, hdata, -⟩ := (phasesFrom_eq_ok_iff hwraps).1 hfrom
      exact balanced_of_runOn hdata
    | true =>
      obtain ⟨data, hdata, -⟩ := (phasesFrom_eq_ok_iff_of_wraps hwraps).1 hfrom
      exact balanced_of_runOn hdata
  have hredeem : ∀ {top : Bytes} {rest : Stack} {redeem : Script}, env.wraps locking = true →
      unlocking.runOn env [] = .ok (top :: rest) → Script.ofBytes top = .ok redeem →
        Balanced redeem.chunks := by
    intro top rest redeem hwraps htop hread
    obtain ⟨_, -, -, data, hdata, -⟩ := (phasesFrom_eq_ok_iff_of_wraps hwraps).1 hfrom
    obtain ⟨top', rest', redeem', rfl, hread', -, hrun⟩ := runRedeem_eq_ok_iff.1 hdata
    cases hleft.symm.trans htop
    cases hread.symm.trans hread'
    exact balanced_of_runOn hrun
  cases h with
  | unlocking | locking | ended => simpa using ⟨hunlocking, hlocking⟩
  | redeem hn hwraps htop hread => simpa using ⟨hunlocking, hlocking, hredeem hwraps htop hread⟩
  | endedRedeem hn hwraps htop hread =>
    simpa using ⟨hunlocking, hlocking, hredeem hwraps htop hread⟩

/-- **Conditionals nest by the chunks alone.** In every state as many conditionals are open as the
chunks before it in the running script open without closing, whatever was on the stacks; and no
script of a spend that succeeds leaves a conditional to another. -/
theorem conditionals_by_syntax (env : Env) (unlocking locking : Script) :
    (∀ e, Reachable env unlocking locking e →
      e.machine.branches.length + (e.running.chunks.take e.offset).countP Chunk.closes =
        (e.running.chunks.take e.offset).countP Chunk.opens) ∧
    (execute env unlocking locking = .ok () →
      ∀ e, Reachable env unlocking locking e → ∀ s ∈ e.scripts, Balanced s.chunks) := by
  constructor
  · intro e h
    obtain ⟨n, hstage⟩ := h.stage
    exact hstage.branches
  · intro hok e h
    obtain ⟨n, hstage⟩ := h.stage
    exact hstage.balanced (execute_eq_ok_iff.1 hok).2

/-- Each branch of a conditional, one within the other. -/
def nestedConditional : Script :=
  ⟨[.ofOpcode .ifOp, .ofOpcode .ifOp, .ofOpcode .elseOp, .ofOpcode .endIf, .ofOpcode .elseOp,
    .ofOpcode .endIf]⟩

/-- The outer branch is not taken, and the state is within the inner one. -/
theorem conditionals_by_syntax_nested :
    execute ⟨.none, {}, none, 0⟩ ⟨[.push 1 [1], .op 0]⟩ nestedConditional = .ok () ∧
      ∃ e, Reachable ⟨.none, {}, none, 0⟩ ⟨[.push 1 [1], .op 0]⟩ nestedConditional e ∧
        e.offset = 2 ∧ e.machine.branches.length = 2 ∧ Balanced nestedConditional.chunks := by
  have hnest := conditionals_by_syntax ⟨.none, {}, none, 0⟩ ⟨[.push 1 [1], .op 0]⟩ nestedConditional
  have hok : execute ⟨.none, {}, none, 0⟩ ⟨[.push 1 [1], .op 0]⟩ nestedConditional = .ok () :=
    execute_eq_ok_iff.2 ⟨start_isOk_iff.1 ⟨_, rfl⟩, rfl⟩
  have hreach : Reachable ⟨.none, {}, none, 0⟩ ⟨[.push 1 [1], .op 0]⟩ nestedConditional
      ⟨_, _, _, _, _, _, _⟩ := reachable_iff.2 ⟨4, rfl⟩
  have hlocking : nestedConditional ∈ [⟨[.push 1 [1], .op 0]⟩, nestedConditional] := by simp
  exact ⟨hok, _, hreach, rfl, hnest.1 _ hreach, hnest.2 hok _ hreach _ hlocking⟩

end Evaluation
end SpendScript
