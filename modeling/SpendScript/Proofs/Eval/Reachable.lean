import SpendScript.Proofs.Eval.Success

/-!
# SpendScript.Proofs.Eval.Reachable

The states that an evaluation goes through. Each is some way into one of the scripts of the spend,
and the chunks before that place, executed by themselves, give the machine that is there; or all
scripts are ended. The number of steps to a state is the number of chunks that are executed.

* `Evaluation.Reachable`: the states that steps lead to.
* `Evaluation.after`, `Evaluation.reachable_iff`: the same, computed by the number of steps.
* `Evaluation.step_eq_ok_iff`: what a step does.
* `Evaluation.Stage`: where in the scripts a state is, and how many steps lead there.
* `Evaluation.Reachable.stage`: every reachable state has a stage.
* `Evaluation.Reachable.execute_eq_run`: the evaluation is the run from any of its states.
-/

namespace SpendScript

/-- What one chunk preserves, by induction on the chunks. -/
theorem Machine.execAll_invariant {env : Env} {chunks : List Chunk} {P : Nat → Machine → Prop}
    (hstep : ∀ {offset c m m'}, P offset m → m.exec env chunks offset c = .ok m' →
      m'.depth ≤ env.limits.maxStackSize → P (offset + 1) m') :
    ∀ {cs : List Chunk} {offset : Nat} {m m' : Machine}, P offset m →
      execAll env chunks offset m cs = .ok m' → P (offset + cs.length) m' := by
  intro cs
  induction cs with
  | nil =>
    intro offset m m' h hrun
    cases execAll_nil_eq_ok_iff.1 hrun
    exact h
  | cons c cs ih =>
    intro offset m m' h hrun
    obtain ⟨m₁, hexec, hdepth, hrest⟩ := execAll_cons_eq_ok_iff.1 hrun
    have hcs := ih (hstep h hexec hdepth) hrest
    rwa [Nat.add_right_comm, Nat.add_assoc] at hcs

/-- A machine `k` chunks into a script that began on `data`, with chunks left to execute. -/
structure Partway (env : Env) (s : Script) (data : Stack) (k : Nat) (m : Machine) : Prop where
  lt : k < s.length
  run : Machine.execAll env s.chunks 0 (.fresh data) (s.chunks.take k) = .ok m

namespace Partway

variable {env : Env} {s : Script} {data : Stack} {k : Nat} {m m' : Machine} {c : Chunk}
  {rest : List Chunk}

theorem start (hne : s.isEmpty = false) : Partway env s data 0 (.fresh data) := by
  refine ⟨?_, rfl⟩
  rw [Script.length, List.length_pos_iff]
  simpa [Script.isEmpty] using hne

/-- One more chunk of the script. -/
theorem execAll_take (h : Partway env s data k m) (hup : s.chunks.drop k = c :: rest)
    (hexec : m.exec env s.chunks k c = .ok m') (hdepth : m'.depth ≤ env.limits.maxStackSize) :
    Machine.execAll env s.chunks 0 (.fresh data) (s.chunks.take (k + 1)) = .ok m' := by
  have htake : s.chunks.take (k + 1) = s.chunks.take k ++ [c] := by
    rw [List.take_add, hup]
    rfl
  have hlen : 0 + (s.chunks.take k).length = k := by
    rw [List.length_take, Nat.zero_add]
    exact Nat.min_eq_left (Nat.le_of_lt h.lt)
  rw [htake, Machine.execAll_append, h.run]
  show Machine.execAll env s.chunks (0 + (s.chunks.take k).length) m [c] = .ok m'
  rw [hlen]
  exact Machine.execAll_cons_eq_ok_iff.2 ⟨m', hexec, hdepth, rfl⟩

theorem length_drop (hup : s.chunks.drop k = c :: rest) : s.length = k + 1 + rest.length := by
  have hlen := congrArg List.length hup
  simp only [List.length_drop, List.length_cons] at hlen
  rw [Script.length]
  omega

theorem next (h : Partway env s data k m) (hup : s.chunks.drop k = c :: rest)
    (hexec : m.exec env s.chunks k c = .ok m') (hdepth : m'.depth ≤ env.limits.maxStackSize)
    (hmore : rest ≠ []) : Partway env s data (k + 1) m' := by
  refine ⟨?_, h.execAll_take hup hexec hdepth⟩
  have hlen := length_drop hup
  have hpos := List.length_pos_iff.2 hmore
  omega

theorem runOn (h : Partway env s data k m) (hup : s.chunks.drop k = [c])
    (hexec : m.exec env s.chunks k c = .ok m') (hdepth : m'.depth ≤ env.limits.maxStackSize)
    (hclosed : m'.branches = []) : s.runOn env data = .ok m'.data := by
  have hrun := h.execAll_take hup hexec hdepth
  have hall : s.chunks.take (k + 1) = s.chunks :=
    List.take_of_length_le (Nat.le_of_eq (length_drop hup))
  rw [hall] at hrun
  exact runOn_eq_ok_iff.2 ⟨m', hrun, hclosed, rfl⟩

theorem invariant {P : Nat → Machine → Prop}
    (hstep : ∀ {offset c m m'}, P offset m → m.exec env s.chunks offset c = .ok m' →
      m'.depth ≤ env.limits.maxStackSize → P (offset + 1) m')
    (h : Partway env s data k m) (hfresh : P 0 (.fresh data)) : P k m := by
  have hlen : (s.chunks.take k).length = k := List.length_take_of_le (Nat.le_of_lt h.lt)
  have hm := Machine.execAll_invariant hstep hfresh h.run
  rwa [hlen, Nat.zero_add] at hm

end Partway

namespace Evaluation

/-- The states that steps from the beginning of a spend lead to. -/
inductive Reachable (env : Env) (unlocking locking : Script) : Evaluation → Prop where
  | start {e : Evaluation} (h : start env unlocking locking = .ok e) :
    Reachable env unlocking locking e
  | step {e e' : Evaluation} (he : Reachable env unlocking locking e) (h : e.step = .ok e') :
    Reachable env unlocking locking e'

/-- The state after a number of steps. -/
def after (env : Env) (unlocking locking : Script) : Nat → Except Fault Evaluation
  | 0 => start env unlocking locking
  | n + 1 =>
    match after env unlocking locking n with
    | .error f => .error f
    | .ok e => e.step

theorem reachable_iff {env : Env} {unlocking locking : Script} {e : Evaluation} :
    Reachable env unlocking locking e ↔ ∃ n, after env unlocking locking n = .ok e := by
  constructor
  · intro h
    induction h with
    | start h => exact ⟨0, h⟩
    | step _ h ih =>
      obtain ⟨n, hn⟩ := ih
      exact ⟨n + 1, by simp only [after, hn, h]⟩
  · rintro ⟨n, hn⟩
    induction n generalizing e with
    | zero => exact .start hn
    | succ n ih =>
      rw [after] at hn
      split at hn
      · cases hn
      · rename_i e₁ he₁
        exact .step (ih he₁) hn

/-! ## One step -/

theorem step_eq_ok_iff {e e' : Evaluation} :
    e.step = .ok e' ↔
      ∃ c rest m, e.upcoming = c :: rest ∧
        e.machine.exec e.env e.running.chunks e.offset c = .ok m ∧
        m.depth ≤ e.env.limits.maxStackSize ∧
        (rest ≠ [] ∧ { e with machine := m, offset := e.offset + 1 } = e' ∨
          rest = [] ∧ m.branches = [] ∧ e.nextScript m.data = .ok e') := by
  rw [step]
  cases hup : e.upcoming with
  | nil => simp
  | cons c rest =>
    cases hexec : e.machine.exec e.env e.running.chunks e.offset c with
    | error f => simp [hexec]
    | ok m =>
      by_cases hdeep : e.env.limits.maxStackSize < m.depth
      · simp [hexec, hdeep, Nat.not_le.2 hdeep, and_assoc]
      · cases rest <;> cases hopen : m.branches <;>
          simp [hexec, hdeep, Nat.not_lt.1 hdeep, endScript, hopen, and_assoc]

theorem loadRedeem_eq_ok_iff {e e' : Evaluation} :
    e.loadRedeem = .ok e' ↔
      checkResult e.env false e.machine.data = .ok () ∧
        ∃ top rest redeem, e.saved = top :: rest ∧ Script.ofBytes top = .ok redeem ∧
          redeem.encodedLength ≤ e.env.limits.maxScriptSize ∧
          { e with
            scripts := e.scripts ++ [redeem]
            machine := { e.machine with data := rest }
            saved := [] } = e' := by
  rw [loadRedeem]
  cases checkResult e.env false e.machine.data with
  | error f => simp
  | ok _ =>
    cases hsaved : e.saved with
    | nil => simp
    | cons top rest =>
      cases hread : Script.ofBytes top with
      | error err => simp [hread]
      | ok redeem =>
        by_cases hbig : e.env.limits.maxScriptSize < redeem.encodedLength
        · simp [hread, Limits.checkScript, hbig, Nat.not_le.2 hbig]
        · simp [hread, Limits.checkScript, hbig, Nat.not_lt.1 hbig, and_assoc]

/-! ## Stages -/

/-- Where in the scripts of a spend an evaluation is after a number of steps. -/
inductive Stage (env : Env) (unlocking locking : Script) : Nat → Evaluation → Prop where
  | unlocking {k : Nat} {m : Machine} (h : Partway env unlocking [] k m) :
    Stage env unlocking locking k ⟨env, [unlocking, locking], env.wraps locking, 0, k, m, []⟩
  | locking {n k : Nat} {m : Machine} {left : Stack} (hn : n = unlocking.length + k)
    (hleft : unlocking.runOn env [] = .ok left) (h : Partway env locking left k m) :
    Stage env unlocking locking n
      ⟨env, [unlocking, locking], env.wraps locking, 1, k, m,
        if env.wraps locking then left else []⟩
  | redeem {n k : Nat} {m : Machine} {top : Bytes} {rest : Stack} {redeem : Script}
    (hn : n = unlocking.length + locking.length + k) (hwraps : env.wraps locking = true)
    (hleft : unlocking.runOn env [] = .ok (top :: rest)) (hread : Script.ofBytes top = .ok redeem)
    (h : Partway env redeem rest k m) :
    Stage env unlocking locking n ⟨env, [unlocking, locking, redeem], true, 2, k, m, []⟩
  | ended {n : Nat} {left data : Stack} (hn : n = unlocking.length + locking.length)
    (hwraps : env.wraps locking = false) (hleft : unlocking.runOn env [] = .ok left)
    (hdata : locking.runOn env left = .ok data) :
    Stage env unlocking locking n ⟨env, [unlocking, locking], false, 2, 0, .fresh data, []⟩
  | endedRedeem {n : Nat} {top : Bytes} {rest data : Stack} {redeem : Script}
    (hn : n = unlocking.length + locking.length + redeem.length)
    (hwraps : env.wraps locking = true) (hleft : unlocking.runOn env [] = .ok (top :: rest))
    (hread : Script.ofBytes top = .ok redeem) (hdata : redeem.runOn env rest = .ok data) :
    Stage env unlocking locking n
      ⟨env, [unlocking, locking, redeem], true, 3, 0, .fresh data, []⟩

namespace Stage

variable {env : Env} {unlocking locking : Script} {n : Nat} {e e' : Evaluation} {left : Stack}

theorem length_of_isEmpty {s : Script} (h : s.isEmpty = true) : s.length = 0 := by
  rw [Script.length, List.length_eq_zero_iff]
  simpa [Script.isEmpty] using h

/-- The beginning of the locking script, which may have no chunks. -/
theorem of_unlocking (hn : n = unlocking.length) (hleft : unlocking.runOn env [] = .ok left) :
    Stage env unlocking locking n (atLocking env unlocking locking left).skipEmpty := by
  cases hempty : locking.isEmpty with
  | false =>
    have hrunning : (atLocking env unlocking locking left).running.isEmpty = false := hempty
    rw [skipEmpty_of_chunks hrunning]
    exact .locking hn hleft (Partway.start hempty)
  | true =>
    have hwraps : env.wraps locking = false := by
      cases hwraps : env.wraps locking with
      | false => rfl
      | true => rw [isEmpty_of_wraps hwraps] at hempty; cases hempty
    have hskip : (atLocking env unlocking locking left).skipEmpty =
        ⟨env, [unlocking, locking], false, 2, 0, .fresh left, []⟩ := by
      simp [skipEmpty, atLocking, running, finished, hempty, hwraps]
    rw [hskip]
    refine .ended ?_ hwraps hleft (runOn_of_isEmpty hempty left)
    rw [length_of_isEmpty hempty]
    exact hn

theorem of_start (h : start env unlocking locking = .ok e) : Stage env unlocking locking 0 e := by
  obtain ⟨hsome, rfl⟩ := start_ok h
  cases hempty : unlocking.isEmpty with
  | true =>
    have hat : (atLocking env unlocking locking []).running.isEmpty = false := hsome hempty
    have hstage : Stage env unlocking locking 0 (atLocking env unlocking locking []).skipEmpty :=
      of_unlocking (length_of_isEmpty hempty).symm (runOn_of_isEmpty hempty [])
    rw [skipEmpty_of_chunks hat] at hstage
    simpa [atLocking] using hstage
  | false => exact .unlocking (Partway.start hempty)

/-- The beginning of the redeem script, which may have no chunks. -/
theorem of_locking {top : Bytes} {rest : Stack} {redeem : Script}
    (hn : n = unlocking.length + locking.length) (hwraps : env.wraps locking = true)
    (hleft : unlocking.runOn env [] = .ok (top :: rest))
    (hread : Script.ofBytes top = .ok redeem) :
    Stage env unlocking locking n
      (skipEmpty ⟨env, [unlocking, locking, redeem], true, 2, 0, .fresh rest, []⟩) := by
  let e : Evaluation := ⟨env, [unlocking, locking, redeem], true, 2, 0, .fresh rest, []⟩
  have hrunning : e.running = redeem := rfl
  show Stage env unlocking locking n e.skipEmpty
  cases hempty : redeem.isEmpty with
  | false =>
    rw [skipEmpty_of_chunks (by rw [hrunning]; exact hempty)]
    exact .redeem hn hwraps hleft hread (Partway.start hempty)
  | true =>
    have hskip : e.skipEmpty =
        ⟨env, [unlocking, locking, redeem], true, 3, 0, .fresh rest, []⟩ := by
      simp [e, skipEmpty, running, finished, hempty]
    rw [hskip]
    refine .endedRedeem ?_ hwraps hleft hread (runOn_of_isEmpty hempty rest)
    rw [length_of_isEmpty hempty]
    exact hn

/-- One step is one chunk further. -/
theorem step (h : Stage env unlocking locking n e) (hstep : e.step = .ok e') :
    Stage env unlocking locking (n + 1) e' := by
  obtain ⟨c, more, m', hup, hexec, hdepth, hnext⟩ := step_eq_ok_iff.1 hstep
  cases h with
  | unlocking h =>
    obtain ⟨hmore, rfl⟩ | ⟨rfl, hclosed, hnext⟩ := hnext
    · exact .unlocking (h.next hup hexec hdepth hmore)
    · have hleft := h.runOn hup hexec hdepth hclosed
      rw [nextScript_unlocking] at hnext
      cases hnext
      exact of_unlocking (Partway.length_drop hup).symm hleft
  | @locking k m left hn hleft h =>
    obtain ⟨hmore, rfl⟩ | ⟨rfl, hclosed, hnext⟩ := hnext
    · exact .locking (by rw [hn]; rfl) hleft (h.next hup hexec hdepth hmore)
    · have hdata := h.runOn hup hexec hdepth hclosed
      have hlen : locking.length = k + 1 := Partway.length_drop hup
      cases hwraps : env.wraps locking with
      | false =>
        rw [nextScript_last rfl (.inl hwraps)] at hnext
        cases hnext
        simp only [advance, hwraps]
        exact .ended (by rw [hn, hlen]; rfl) hwraps hleft hdata
      | true =>
        rw [nextScript_locking rfl hwraps] at hnext
        split at hnext
        · cases hnext
        · rename_i loaded hload
          obtain ⟨-, top, rest, redeem, hsaved, hread, -, rfl⟩ := loadRedeem_eq_ok_iff.1 hload
          cases hnext
          simp only [advance, hwraps, if_true] at hsaved ⊢
          rw [hsaved] at hleft
          exact of_locking (by rw [hn, hlen]; rfl) hwraps hleft hread
  | @redeem k m top rest redeem hn hwraps hleft hread h =>
    obtain ⟨hmore, rfl⟩ | ⟨rfl, hclosed, hnext⟩ := hnext
    · exact .redeem (by rw [hn]; rfl) hwraps hleft hread (h.next hup hexec hdepth hmore)
    · have hdata := h.runOn hup hexec hdepth hclosed
      have hlen : redeem.length = k + 1 := Partway.length_drop hup
      rw [nextScript_last rfl (.inr Nat.one_lt_two)] at hnext
      cases hnext
      exact .endedRedeem (by rw [hn, hlen]; rfl) hwraps hleft hread hdata
  | ended => cases hup
  | endedRedeem => cases hup

end Stage

/-- By induction on the steps. -/
theorem Reachable.stage {env : Env} {unlocking locking : Script} {e : Evaluation}
    (h : Reachable env unlocking locking e) : ∃ n, Stage env unlocking locking n e := by
  induction h with
  | start h => exact ⟨0, .of_start h⟩
  | step _ h ih =>
    obtain ⟨n, hstage⟩ := ih
    exact ⟨n + 1, hstage.step h⟩

theorem finished_eq_false_of_upcoming {e : Evaluation} {c : Chunk} {rest : List Chunk}
    (h : e.upcoming = c :: rest) : e.finished = false := by
  simpa [finished] using index_lt_of_upcoming h

/-- The rest of the evaluation, from a state on its way; by induction on the steps to that state. -/
theorem Reachable.execute_eq_run {env : Env} {unlocking locking : Script} {e : Evaluation}
    (h : Reachable env unlocking locking e) (hrunning : e.finished = false) :
    execute env unlocking locking = e.run := by
  induction h with
  | start hstart => rw [execute, hstart]
  | step he hstep ih =>
    rename_i e e'
    obtain ⟨c, rest, -, hup, -⟩ := step_eq_ok_iff.1 hstep
    rw [ih (finished_eq_false_of_upcoming hup), run_eq, hstep]
    simp only [resume, hrunning, Bool.false_eq_true, if_false]

theorem Reachable.env_eq {env : Env} {unlocking locking : Script} {e : Evaluation}
    (h : Reachable env unlocking locking e) : e.env = env := by
  obtain ⟨n, hstage⟩ := h.stage
  cases hstage <;> rfl

end Evaluation
end SpendScript
