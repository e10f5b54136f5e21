import SpendScript.Proofs.Eval.Phases
import SpendScript.Proofs.Eval.RelaxedOps

/-!
# SpendScript.Proofs.Eval.FewerRules

Flags only restrict. A spend that is allowed under some flags is allowed under fewer of them. The
scripts of a spend leave the same data stack under both, by induction on their chunks; only the
redeem script may be left out, and then the locking script has left what it would have to.

* `runOn_relaxed`: one script.
* `phases_relaxed`: the scripts of a spend.
* `start_relaxed`: the rules about the scripts as a whole.
* `execute_relaxed`: a whole spend.
-/

namespace SpendScript

variable {env : Env} {f g : Flags}

/-- By induction on the chunks that are left. -/
theorem execAll_relaxed (h : f.Relaxes g) {chunks : List Chunk} {m' : Machine} (cs : List Chunk) :
    ∀ (offset : Nat) (m : Machine),
      Machine.execAll (env.withFlags g) chunks offset m cs = .ok m' →
        Machine.execAll (env.withFlags f) chunks offset m cs = .ok m' := by
  induction cs with
  | nil =>
    intro offset m hg
    exact hg
  | cons c cs ih =>
    intro offset m hg
    simp only [Machine.execAll] at hg ⊢
    split at hg
    · cases hg
    · rename_i hexec
      rw [exec_relaxed h hexec]
      simp only
      split at hg
      · cases hg
      · rename_i hdepth
        rw [if_neg]
        · exact ih _ _ hg
        · exact hdepth

theorem runOn_relaxed (h : f.Relaxes g) {s : Script} {data data' : Stack}
    (hg : s.runOn (env.withFlags g) data = .ok data') :
    s.runOn (env.withFlags f) data = .ok data' := by
  unfold Script.runOn at hg ⊢
  split at hg
  · cases hg
  · rename_i hall
    rw [execAll_relaxed h s.chunks 0 _ hall]
    exact hg

theorem finalCheck_relaxed (h : f.Relaxes g) {data : Stack}
    (hg : finalCheck (env.withFlags g) data = .ok ()) :
    finalCheck (env.withFlags f) data = .ok () := by
  unfold finalCheck at hg ⊢
  split at hg
  · cases hg
  · rename_i hsome
    split at hg
    · cases hg
    · rename_i hclean
      rw [if_neg hsome, if_neg]
      · exact hg
      · rintro ⟨hf, hmore⟩
        exact hclean ⟨h.of_has hf, hmore⟩

/-- Without `cleanStack` only the item on top is looked at. -/
theorem finalCheck_of_not_clean (hf : f.has .cleanStack = false) (data : Stack) :
    finalCheck (env.withFlags f) data = trueTop data := by
  cases data with
  | nil => rfl
  | cons top rest => simp [finalCheck, hf]

theorem runRedeem_relaxed (h : f.Relaxes g) {left data : Stack}
    (hg : runRedeem (env.withFlags g) left = .ok data) :
    runRedeem (env.withFlags f) left = .ok data := by
  unfold runRedeem at hg ⊢
  split at hg
  · cases hg
  · split at hg
    · cases hg
    · split at hg
      · cases hg
      · rename_i hsize
        exact (if_neg hsize).trans (runOn_relaxed h hg)

theorem wraps_relaxed (h : f.Relaxes g) {locking : Script}
    (hf : (env.withFlags f).wraps locking = true) : (env.withFlags g).wraps locking = true := by
  unfold Env.wraps at hf ⊢
  rw [Bool.and_eq_true] at hf ⊢
  exact ⟨h.of_has hf.1, hf.2⟩

theorem phasesFrom_relaxed (h : f.Relaxes g) {locking : Script} {left : Stack}
    (hg : phasesFrom (env.withFlags g) locking left = .ok ()) :
    phasesFrom (env.withFlags f) locking left = .ok () := by
  unfold phasesFrom at hg ⊢
  split at hg
  · cases hg
  · rename_i hlocking
    rw [runOn_relaxed h hlocking]
    simp only
    cases hf : (env.withFlags f).wraps locking with
    | true =>
      rw [wraps_relaxed h hf, if_pos rfl] at hg
      rw [if_pos rfl]
      split at hg
      · cases hg
      · split at hg
        · cases hg
        · rename_i hredeem
          rw [runRedeem_relaxed h hredeem]
          exact finalCheck_relaxed h hg
    | false =>
      rw [if_neg Bool.false_ne_true]
      split at hg
      · -- The redeem script is left out: `f` does not know the form, so it has no `cleanStack`.
        rename_i hwraps
        have hunknown : f.has .payToScriptHash = false := by
          unfold Env.wraps at hf hwraps
          rw [Bool.and_eq_true] at hwraps
          simpa [hwraps.2] using hf
        have hclean : f.has .cleanStack = false := by
          cases hc : f.has .cleanStack with
          | false => rfl
          | true => rw [h.clean hc] at hunknown; cases hunknown
        rw [finalCheck_of_not_clean hclean]
        split at hg
        · cases hg
        · rename_i hjudged
          exact hjudged
      · exact finalCheck_relaxed h hg

theorem phases_relaxed (h : f.Relaxes g) {unlocking locking : Script}
    (hg : phases (env.withFlags g) unlocking locking = .ok ()) :
    phases (env.withFlags f) unlocking locking = .ok () := by
  unfold phases at hg ⊢
  split at hg
  · cases hg
  · rename_i hunlocking
    rw [runOn_relaxed h hunlocking]
    exact phasesFrom_relaxed h hg

theorem start_relaxed (h : f.Relaxes g) {unlocking locking : Script} {e : Evaluation}
    (hg : Evaluation.start (env.withFlags g) unlocking locking = .ok e) :
    ∃ e', Evaluation.start (env.withFlags f) unlocking locking = .ok e' := by
  simp only [Evaluation.start, Env.withFlags_limits] at hg ⊢
  split at hg
  · cases hg
  · rw [if_neg]
    · split at hg
      · cases hg
      · split at hg
        · cases hg
        · split at hg
          · cases hg
          · rename_i hempty
            rw [if_neg hempty]
            split at hg
            · cases hg
            · rename_i hpush
              rw [if_neg]
              · split at hg
                · cases hg
                · rename_i hwrap
                  rw [if_neg]
                  · exact ⟨_, rfl⟩
                  · intro hf
                    rw [Bool.and_eq_true] at hf hwrap
                    have hwraps : (env.withFlags f).wraps locking = true := hf.1
                    exact hwrap ⟨wraps_relaxed h hwraps, hf.2⟩
              · exact h.not_has_and hpush
    · intro hf
      simp only [Env.withFlags_flags, Bool.and_eq_true, Bool.not_eq_true'] at hf
      rw [h.clean hf.1] at hf
      exact Bool.noConfusion hf.2

/-- **Flags only restrict.** A spend that is allowed under `g` is allowed under fewer flags. -/
theorem execute_relaxed (h : f.Relaxes g) {unlocking locking : Script}
    (hg : execute (env.withFlags g) unlocking locking = .ok ()) :
    execute (env.withFlags f) unlocking locking = .ok () := by
  unfold execute at hg ⊢
  split at hg
  · cases hg
  · rename_i e hstart
    obtain ⟨e', hstart'⟩ := start_relaxed h hstart
    rw [Evaluation.run_of_start hstart] at hg
    rw [hstart']
    calc e'.run = phases (env.withFlags f) unlocking locking := Evaluation.run_of_start hstart'
      _ = .ok () := phases_relaxed h hg

/-- A redeem script of one opcode, which `minimalData` by itself leaves out. -/
theorem execute_relaxed_minimalData :
    Flags.Relaxes .minimalData .standard ∧
    execute (Env.withFlags ⟨.none, {}, none, 0⟩ .standard) ⟨[.push 1 [0x51]]⟩
      (Script.scriptHashOut (Hash.hash160 [0x51])) = .ok () ∧
    execute (Env.withFlags ⟨.none, {}, none, 0⟩ .minimalData) ⟨[.push 1 [0x51]]⟩
      (Script.scriptHashOut (Hash.hash160 [0x51])) = .ok () := by
  have hfewer : Flags.Relaxes .minimalData .standard :=
    ⟨by decide, by decide, by decide, by decide⟩
  have hallowed : execute (Env.withFlags ⟨.none, {}, none, 0⟩ .standard) ⟨[.push 1 [0x51]]⟩
      (Script.scriptHashOut (Hash.hash160 [0x51])) = .ok () := by
    have hok : (phases (Env.withFlags ⟨.none, {}, none, 0⟩ .standard) ⟨[.push 1 [0x51]]⟩
        (Script.scriptHashOut (Hash.hash160 [0x51]))).isOk = true := by decide +kernel
    rw [← Evaluation.run_of_start rfl] at hok
    show Evaluation.run _ = .ok ()
    revert hok
    cases Evaluation.run _ with
    | error fault => exact fun hok => Bool.noConfusion hok
    | ok _ => exact fun _ => rfl
  exact ⟨hfewer, hallowed, execute_relaxed hfewer hallowed⟩

end SpendScript
