import SpendScript.Proofs.Eval.OpEffects
import SpendScript.Proofs.Eval.Reachable
import SpendScript.Proofs.Eval.Templates

/-!
# SpendScript.Proofs.Eval.Ending

How an evaluation ends. It takes no more steps than the scripts have chunks, the redeem script among
them although it is not known at the beginning; it never comes to a place where there is nothing to
execute, and finds a redeem script wherever it looks for one.

* `redeem?`: the redeem script of a spend.
* `Evaluation.trail_length_add_le`: the number of steps.
* `phases_outcome`: the faults that a spend can end with.
* `Evaluation.endScript_ne_noRedeem`: a locking script that asks for a redeem script has read it.
* `evaluation_ends`: the three together.
-/

namespace SpendScript

/-- The redeem script of a spend whose locking script asks for one: what the unlocking script leaves
on top, if it can be read. -/
def redeem? (env : Env) (unlocking locking : Script) : Option Script :=
  match unlocking.runOn env [] with
  | .ok (top :: _) => if env.wraps locking then (Script.ofBytes top).toOption else none
  | _ => none

theorem redeem?_eq_some {env : Env} {unlocking locking redeem : Script} {top : Bytes} {rest : Stack}
    (hwraps : env.wraps locking = true) (hleft : unlocking.runOn env [] = .ok (top :: rest))
    (hread : Script.ofBytes top = .ok redeem) : redeem? env unlocking locking = some redeem := by
  simp [redeem?, hleft, hwraps, hread, Except.toOption]

namespace Evaluation

variable {env : Env} {unlocking locking : Script} {n : Nat} {e e' : Evaluation}

/-! ## The number of steps -/

theorem Stage.lt_of_running (h : Stage env unlocking locking n e) (hrunning : e.finished = false) :
    n < unlocking.length + locking.length +
      (redeem? env unlocking locking).elim 0 Script.length := by
  cases h with
  | unlocking hk =>
    have hlt := hk.lt
    omega
  | locking hn hleft hk =>
    have hlt := hk.lt
    omega
  | redeem hn hwraps hleft hread hk =>
    have hlt := hk.lt
    rw [redeem?_eq_some hwraps hleft hread, Option.elim_some]
    omega
  | ended => cases hrunning
  | endedRedeem => cases hrunning

/-- By induction on the steps; every one of them is one chunk further. -/
theorem trail_length_add_le (h : Stage env unlocking locking n e) (hrunning : e.finished = false) :
    e.trail.length + n ≤ unlocking.length + locking.length +
      (redeem? env unlocking locking).elim 0 Script.length := by
  have hlt := h.lt_of_running hrunning
  fun_induction trail e generalizing n with
  | case1 e f hstep =>
    simp only [List.length_singleton]
    omega
  | case2 e e' hstep _ ih =>
    have h' := h.step hstep
    cases hfinished : e'.finished with
    | true =>
      simp only [if_true, List.length_singleton]
      omega
    | false =>
      have hrest := ih h' hfinished (h'.lt_of_running hfinished)
      simp only [Bool.false_eq_true, if_false, List.length_cons]
      omega

/-- What a run comes to that ends with this step. -/
def verdict : Except Fault Evaluation → Except Fault Unit
  | .error f => .error f
  | .ok e => checkResult e.env true e.machine.data

/-- By induction on the steps. -/
theorem exists_getLast?_trail (e : Evaluation) :
    ∃ last, e.trail.getLast? = some last ∧ e.run = verdict last := by
  fun_induction trail e with
  | case1 e f hstep => exact ⟨_, rfl, by rw [run_eq, hstep]; rfl⟩
  | case2 e e' hstep _ ih =>
    rw [run_eq, hstep]
    cases hfinished : e'.finished with
    | true => exact ⟨.ok e', rfl, by simp only [resume, hfinished, if_true, verdict]⟩
    | false =>
      obtain ⟨last, hlast, hrun⟩ := ih
      refine ⟨last, ?_, by simpa only [resume, hfinished, Bool.false_eq_true, if_false] using hrun⟩
      rw [if_neg Bool.false_ne_true, List.getLast?_cons, hlast]
      rfl

theorem finished_of_start (h : start env unlocking locking = .ok e) : e.finished = false := by
  obtain ⟨-, rfl⟩ := start_ok h
  cases unlocking.isEmpty <;> rfl

/-! ## The redeem script -/

/-- A fault that says what is wrong with a result or with a script. -/
theorem checkResult_outcome (last : Bool) (data : Stack) :
    Outcome (fun _ => True) (fun f => f.Ordinary ∧ f ≠ .noRedeem) (checkResult env last data) := by
  unfold checkResult
  cases data with
  | nil => simp [Outcome, Fault.Ordinary, Fault.code]
  | cons top rest =>
    simp only
    split
    · simp [Outcome, Fault.Ordinary, Fault.code]
    · split
      · trivial
      · simp [Outcome, Fault.Ordinary, Fault.code]

theorem checkScript_outcome (limits : Limits) (role : ScriptRole) (s : Script) :
    Outcome (fun _ => True) (fun f => f.Ordinary ∧ f ≠ .noRedeem) (limits.checkScript role s) := by
  unfold Limits.checkScript
  split
  · simp [Outcome, Fault.Ordinary, Fault.code]
  · trivial

theorem loadRedeem_ne_noRedeem (hsaved : e.saved ≠ []) : e.loadRedeem ≠ .error .noRedeem := by
  unfold loadRedeem
  split
  · rename_i f hresult
    rw [Ne, Except.error.injEq]
    exact ((checkResult_outcome false e.machine.data).of_error hresult).2
  · split
    · rename_i hnone
      exact absurd hnone hsaved
    · split
      · simp
      · split
        · rename_i f hscript
          rw [Ne, Except.error.injEq]
          exact ((checkScript_outcome _ _ _).of_error hscript).2
        · simp

/-- A locking script that asks for a redeem script begins with taking an item. -/
theorem ne_nil_of_wraps {left : Stack} {k : Nat} {m : Machine} {c : Chunk}
    (hwraps : env.wraps locking = true) (hk : Partway env locking left k m)
    (hup : locking.chunks.drop k = [c]) : left ≠ [] := by
  rw [Env.wraps, Bool.and_eq_true, Script.isScriptHashOut] at hwraps
  obtain ⟨-, hform⟩ := hwraps
  split at hform
  · rename_i a b c' hchunks
    simp only [Bool.and_eq_true, beq_iff_eq] at hform
    have hlen : locking.length = k + 1 := Partway.length_drop hup
    rw [Script.length, hchunks] at hlen
    have htwo : k = 2 := by simpa using hlen.symm
    have hrun := hk.run
    rw [hchunks, htwo, hform.1.1] at hrun
    obtain ⟨m₁, hhash, -, -⟩ := Machine.execAll_cons_eq_ok_iff.1 hrun
    obtain ⟨-, top, rest, rfl, -⟩ := Machine.exec_hash160_eq_ok_iff.1 hhash
    simp
  · cases hform

/-- Where a script ends, whatever its last chunk comes to, the redeem script is there if it is
needed. -/
theorem Stage.endScript_ne_noRedeem {c : Chunk} {m : Machine}
    (h : Stage env unlocking locking n e) (hup : e.upcoming = [c]) :
    e.endScript m ≠ .error .noRedeem := by
  unfold endScript
  split
  · cases h with
    | unlocking hk => simp [nextScript_unlocking]
    | @locking k _ left hn hleft hk =>
      cases hwraps : env.wraps locking with
      | false =>
        rw [nextScript_last rfl (.inl rfl)]
        simp
      | true =>
        have hsaved := ne_nil_of_wraps hwraps hk hup
        rw [nextScript_locking rfl rfl]
        split
        · rename_i f hload
          rw [← hload]
          exact loadRedeem_ne_noRedeem hsaved
        · simp
    | redeem hn hwraps hleft hread hk =>
      rw [nextScript_last rfl (.inr Nat.one_lt_two)]
      simp
    | ended => cases hup
    | endedRedeem => cases hup
  · simp

/-! ## Faults -/

section Faults

variable {data : Stack} {chunks : List Chunk}

/-- By induction on the chunks. -/
theorem execAll_outcome (cs : List Chunk) :
    ∀ (offset : Nat) (m : Machine),
      Outcome (fun _ => True) env.Explains (Machine.execAll env chunks offset m cs) := by
  induction cs with
  | nil =>
    intro offset m
    trivial
  | cons c cs ih =>
    intro offset m
    rw [Machine.execAll]
    split
    · rename_i hexec
      exact Machine.exec_outcome.of_error hexec
    · split
      · exact outcome_fault (by simp [Fault.code])
      · exact ih _ _

theorem runOn_outcome (s : Script) (data : Stack) :
    Outcome (fun _ => True) env.Explains (s.runOn env data) := by
  unfold Script.runOn
  split
  · rename_i hrun
    exact (execAll_outcome s.chunks 0 _).of_error hrun
  · split
    · trivial
    · exact outcome_fault (by simp [Fault.code])

theorem runRedeem_outcome (left : Stack) :
    Outcome (fun _ => True) env.Explains (runRedeem env left) := by
  unfold runRedeem
  split
  · exact outcome_fault (by simp [Fault.code])
  · split
    · exact outcome_fault (by simp [Fault.code])
    · split
      · exact outcome_fault (by simp [Fault.code])
      · exact runOn_outcome _ _

theorem phasesFrom_outcome (left : Stack) :
    Outcome (fun _ => True) env.Explains (phasesFrom env locking left) := by
  have hresult : ∀ last data, Outcome (fun _ => True) env.Explains (checkResult env last data) :=
    fun last data => (checkResult_outcome last data).mono (fun _ h => h)
      fun _ hf => hf.1.explained env
  have hjudged : ∀ data, Outcome (fun _ => True) env.Explains (trueTop data) := by
    intro data
    rw [← checkResult_locking env]
    exact hresult false data
  have hended : ∀ data, Outcome (fun _ => True) env.Explains (finalCheck env data) := by
    intro data
    rw [← checkResult_last]
    exact hresult true data
  unfold phasesFrom
  split
  · rename_i hrun
    exact (runOn_outcome locking left).of_error hrun
  · split
    · split
      · rename_i hfault
        exact (hjudged _).of_error hfault
      · split
        · rename_i hrun
          exact (runRedeem_outcome left).of_error hrun
        · exact hended _
    · exact hended _

theorem phases_outcome :
    Outcome (fun _ => True) env.Explains (phases env unlocking locking) := by
  unfold phases
  split
  · rename_i hrun
    exact (runOn_outcome unlocking []).of_error hrun
  · exact phasesFrom_outcome _

theorem start_outcome :
    Outcome (fun _ => True) Fault.Ordinary (start env unlocking locking) := by
  unfold start
  simp only
  split
  · simp [Outcome, Fault.Ordinary, Fault.code]
  · split
    · rename_i hscript
      exact ((checkScript_outcome _ _ _).of_error hscript).1
    · split
      · rename_i hscript
        exact ((checkScript_outcome _ _ _).of_error hscript).1
      · split
        · simp [Outcome, Fault.Ordinary, Fault.code]
        · split
          · simp [Outcome, Fault.Ordinary, Fault.code]
          · split
            · simp [Outcome, Fault.Ordinary, Fault.code]
            · trivial

theorem execute_outcome :
    Outcome (fun _ => True) env.Explains (execute env unlocking locking) := by
  unfold execute
  split
  · rename_i hstart
    exact (start_outcome.of_error hstart).explained env
  · rename_i hstart
    rw [run_of_start hstart]
    exact phases_outcome

end Faults

/-- **An evaluation ends in time and within its scripts.** Where the context itself reports no
internal fault, the steps of a run are no more than the chunks of its scripts, no fault is an
internal one, and the redeem script is never found missing. -/
theorem evaluation_ends (env : Env) (unlocking locking : Script)
    (hcontext : ∀ f, env.Reports f → f.code ≠ .internal) :
    (∀ e, start env unlocking locking = .ok e →
      (∃ last, e.trail.getLast? = some last ∧ execute env unlocking locking = verdict last) ∧
        e.trail.length ≤ unlocking.length + locking.length +
          (redeem? env unlocking locking).elim 0 Script.length) ∧
    (∀ f, execute env unlocking locking = .error f → f.code ≠ .internal) ∧
    (∀ e c m, Reachable env unlocking locking e → e.upcoming = [c] →
      e.endScript m ≠ .error .noRedeem) := by
  refine ⟨?_, ?_, ?_⟩
  · intro e h
    obtain ⟨last, hlast, hrun⟩ := exists_getLast?_trail e
    refine ⟨⟨last, hlast, ?_⟩, ?_⟩
    · rw [execute, h]
      exact hrun
    · exact trail_length_add_le (Stage.of_start h) (finished_of_start h)
  · intro f hf hinternal
    exact hcontext f (execute_outcome.of_error hf hinternal) hinternal
  · intro e c m h hup
    obtain ⟨n, hstage⟩ := h.stage
    exact hstage.endScript_ne_noRedeem hup

/-- A context that refuses to look at signatures. -/
def refusing : Context := ⟨fun _ => .error (.reported .evalFalse ""), 0, 0, fun _ => .ok 0⟩

/-- A redeem script of one opcode. -/
theorem evaluation_ends_redeem :
    (∀ f, Env.Reports ⟨.payToScriptHash, {}, some refusing, 0⟩ f → f.code ≠ .internal) ∧
      ∃ e, start ⟨.payToScriptHash, {}, some refusing, 0⟩ ⟨[.push 1 [0x51]]⟩
          (Script.scriptHashOut (Hash.hash160 [0x51])) = .ok e ∧ e.trail.length ≤ 1 + 3 + 1 := by
  have hcontext : ∀ f, Env.Reports ⟨.payToScriptHash, {}, some refusing, 0⟩ f →
      f.code ≠ .internal := by
    rintro f ⟨ctx, hctx, ⟨q, hq⟩ | ⟨i, hi⟩⟩
    · cases hctx
      cases hq
      simp [Fault.code]
    · cases hctx
      cases hi
  have hredeem : redeem? ⟨.payToScriptHash, {}, some refusing, 0⟩ ⟨[.push 1 [0x51]]⟩
      (Script.scriptHashOut (Hash.hash160 [0x51])) = some ⟨[.op 0x51]⟩ := by
    decide +kernel
  have hends := (evaluation_ends ⟨.payToScriptHash, {}, some refusing, 0⟩ ⟨[.push 1 [0x51]]⟩
    (Script.scriptHashOut (Hash.hash160 [0x51])) hcontext).1 _ rfl
  rw [hredeem] at hends
  exact ⟨hcontext, _, rfl, hends.2⟩

end Evaluation
end SpendScript
