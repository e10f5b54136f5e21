import SpendScript.Proofs.Eval.Reachable

/-!
# SpendScript.Proofs.Eval.Questions

What an evaluation asks the context about signatures. `Machine.exec` asks as it goes along;
`Machine.queries` lists the questions of one chunk and `Evaluation.asked` those of a whole run,
beside the execution. The lists are the questions that are put, no more and no less: other answers
to questions outside of the list change nothing, and a question of the list that fails ends the
evaluation with its fault.

* `Machine.checks`, `Evaluation.checks`: the signatures and keys that a step compares.
* `Machine.queries_eq_flatMap_checks`: the questions come from the comparisons.
* `Evaluation.execute_eq_error_of_mem_checks`: a check that fails ends the whole evaluation.
* `Evaluation.mem_asked_iff`: the questions of a run are those of the states on its way.
* `Evaluation.execute_withVerify`: nothing but the listed questions is asked.
* `Evaluation.execute_eq_error_of_mem_asked`: each of them is asked.
-/

namespace SpendScript

/-- One signature held against one key. -/
structure Comparison where
  /-- What the signature covers. -/
  code : Script
  signature : Bytes
  key : Bytes

def Comparison.outcome (env : Env) (p : Comparison) : Except Fault Bool :=
  env.checkSig p.code p.signature p.key

/-- The question of a comparison, if the forms let it come to one. -/
def Comparison.questions (env : Env) (p : Comparison) : List SigQuery :=
  Machine.queryList env p.code p.signature p.key

/-- A pair that fails ends the walk. -/
theorem matchSigs_eq_error_of_mem {check : Bytes → Bytes → Except Fault Bool} {sig key : Bytes}
    {f : Fault} (hf : check sig key = .error f) {sigs keys : List Bytes}
    (h : (sig, key) ∈ comparisons check sigs keys) : matchSigs check sigs keys = .error f := by
  fun_induction comparisons check sigs keys with
  | case1 => cases h
  | case2 => cases h
  | case3 sig' sigs key' keys f' hcheck =>
    obtain ⟨rfl, rfl⟩ := Prod.mk.inj (List.mem_singleton.1 h)
    rw [matchSigs, hf]
  | case4 sig' sigs key' keys found hcheck left ih =>
    rw [matchSigs, hcheck]
    rcases List.mem_cons.1 h with heq | hrest
    · obtain ⟨rfl, rfl⟩ := Prod.mk.inj heq
      rw [hf] at hcheck
      cases hcheck
    · by_cases hfew : keys.length < left.length
      · rw [if_pos hfew] at hrest
        cases hrest
      · rw [if_neg hfew] at hrest
        exact (if_neg hfew).trans (ih hrest)

/-- The walk looks at the listed pairs only. -/
theorem matchSigs_congr {check check' : Bytes → Bytes → Except Fault Bool} {sigs keys : List Bytes}
    (h : ∀ pair ∈ comparisons check sigs keys, check' pair.1 pair.2 = check pair.1 pair.2) :
    matchSigs check' sigs keys = matchSigs check sigs keys := by
  fun_induction comparisons check sigs keys with
  | case1 => rw [matchSigs, matchSigs]
  | case2 => rfl
  | case3 sig sigs key keys f hcheck =>
    have hsame : check' sig key = .error f := (h _ List.mem_cons_self).trans hcheck
    rw [matchSigs, matchSigs, hcheck, hsame]
  | case4 sig sigs key keys found hcheck left ih =>
    have hsame : check' sig key = .ok found := (h _ List.mem_cons_self).trans hcheck
    rw [matchSigs, matchSigs, hcheck, hsame]
    by_cases hfew : keys.length < left.length
    · exact (if_pos hfew).trans (if_pos hfew).symm
    · rw [if_neg hfew] at h
      have hrest := ih fun pair hpair => h pair (List.mem_cons_of_mem _ hpair)
      exact (if_neg hfew).trans (hrest.trans (if_neg hfew).symm)

/-! ## Other answers -/

/-- The same environment with other answers about signatures. -/
def Env.withVerify (env : Env) (verify : SigQuery → Except Fault Bool) : Env :=
  { env with context := env.context.map fun ctx => { ctx with verify := verify } }

/-- The other answers are the same to these questions. -/
def Env.SameAnswers (env : Env) (verify : SigQuery → Except Fault Bool) (qs : List SigQuery) :
    Prop :=
  ∀ q ∈ qs, (env.withVerify verify).ask q = env.ask q

theorem Env.SameAnswers.mono {env : Env} {verify : SigQuery → Except Fault Bool}
    {qs qs' : List SigQuery} (h : env.SameAnswers verify qs) (hsub : qs' ⊆ qs) :
    env.SameAnswers verify qs' :=
  fun q hq => h q (hsub hq)

/-- One question at most comes from a comparison, and its answer is the outcome. -/
theorem Comparison.outcome_eq_ask {env : Env} {p : Comparison} {q : SigQuery}
    (h : q ∈ p.questions env) : p.outcome env = env.ask q := by
  unfold Comparison.questions Machine.queryList at h
  unfold Comparison.outcome Env.checkSig
  split at h
  · rename_i hquery
    cases List.mem_singleton.1 h
    rw [hquery]
  · cases h

theorem Comparison.outcome_withVerify {env : Env} {verify : SigQuery → Except Fault Bool}
    {p : Comparison} (h : env.SameAnswers verify (p.questions env)) :
    p.outcome (env.withVerify verify) = p.outcome env := by
  have hquery : (env.withVerify verify).sigQuery? p.code p.signature p.key =
      env.sigQuery? p.code p.signature p.key := rfl
  unfold Comparison.questions Machine.queryList at h
  unfold Comparison.outcome Env.checkSig
  rw [hquery]
  split
  · rfl
  · rfl
  · rename_i q hq
    rw [hq] at h
    exact h q List.mem_cons_self

namespace Machine

variable {env : Env} {chunks : List Chunk} {offset : Nat} {m : Machine} {c : Chunk} {f : Fault}
  {p : Comparison} {q : SigQuery} {verify : SigQuery → Except Fault Bool}

/-- The comparison of the item on top of the data stack with the one below it. -/
def sigComparisons (chunks : List Chunk) (m : Machine) : List Comparison :=
  match m.data with
  | key :: sig :: _ => [⟨signedCode chunks m.codeStart [sig], sig, key⟩]
  | _ => []

def multiSigComparisons (env : Env) (chunks : List Chunk) (m : Machine) : List Comparison :=
  match m.multisigArgs env with
  | .error _ => []
  | .ok (_, args) =>
    let code := signedCode chunks m.codeStart args.sigs
    (comparisons (env.checkSig code) args.sigs args.keys).map fun pair => ⟨code, pair.1, pair.2⟩

/-- What the execution of a chunk compares, in order. -/
def checks (env : Env) (chunks : List Chunk) (m : Machine) (c : Chunk) : List Comparison :=
  match resolve env m c with
  | .ok (m', .perform .checkSig) | .ok (m', .perform .checkSigVerify) => m'.sigComparisons chunks
  | .ok (m', .perform .checkMultiSig) | .ok (m', .perform .checkMultiSigVerify) =>
    m'.multiSigComparisons env chunks
  | _ => []

theorem checkSigQueries_eq :
    m.checkSigQueries env chunks =
      (m.sigComparisons chunks).flatMap fun p => p.questions env := by
  unfold checkSigQueries sigComparisons
  rcases m.data with _ | ⟨key, _ | ⟨sig, rest⟩⟩
  · rfl
  · rfl
  · rw [List.flatMap_singleton]
    rfl

theorem checkMultiSigQueries_eq :
    m.checkMultiSigQueries env chunks =
      (m.multiSigComparisons env chunks).flatMap fun p => p.questions env := by
  unfold checkMultiSigQueries multiSigComparisons
  rcases m.multisigArgs env with f | ⟨m', args⟩
  · rfl
  · simp only [List.flatMap_map]
    rfl

/-- The questions to the context come from the comparisons. -/
theorem queries_eq_flatMap_checks :
    m.queries env chunks c = (m.checks env chunks c).flatMap fun p => p.questions env := by
  unfold queries checks
  grind [checkSigQueries_eq, checkMultiSigQueries_eq]

/-! ### A comparison that fails -/

theorem checkSig_eq_error_of_mem (h : p ∈ m.sigComparisons chunks)
    (hf : p.outcome env = .error f) : m.checkSig env chunks = .error f := by
  unfold sigComparisons at h
  split at h
  · rename_i key sig rest hdata
    cases List.mem_singleton.1 h
    rw [checkSig, hdata]
    simp only [Comparison.outcome] at hf
    simp only [hf]
  · cases h

theorem checkMultiSig_eq_error_of_mem (h : p ∈ m.multiSigComparisons env chunks)
    (hf : p.outcome env = .error f) : m.checkMultiSig env chunks = .error f := by
  unfold multiSigComparisons at h
  split at h
  · cases h
  · rename_i m' args hargs
    obtain ⟨pair, hpair, rfl⟩ := List.mem_map.1 h
    rw [checkMultiSig, hargs]
    simp only [matchSigs_eq_error_of_mem hf hpair]

theorem exec_eq_error_of_mem_checks (h : p ∈ m.checks env chunks c)
    (hf : p.outcome env = .error f) : m.exec env chunks offset c = .error f := by
  unfold checks at h
  unfold exec
  split at h
  · rename_i hresolve
    rw [hresolve]
    exact checkSig_eq_error_of_mem h hf
  · rename_i hresolve
    rw [hresolve]
    exact congrArg (andVerify .checkSigVerify) (checkSig_eq_error_of_mem h hf)
  · rename_i hresolve
    rw [hresolve]
    exact checkMultiSig_eq_error_of_mem h hf
  · rename_i hresolve
    rw [hresolve]
    exact congrArg (andVerify .checkMultiSigVerify) (checkMultiSig_eq_error_of_mem h hf)
  · cases h

/-! ### Comparisons that come out the same -/

theorem checkSig_withVerify
    (h : ∀ p ∈ m.sigComparisons chunks, p.outcome (env.withVerify verify) = p.outcome env) :
    m.checkSig (env.withVerify verify) chunks = m.checkSig env chunks := by
  unfold sigComparisons at h
  unfold checkSig
  split
  · rename_i key sig rest hdata
    rw [hdata] at h
    have hcheck : (env.withVerify verify).checkSig (signedCode chunks m.codeStart [sig]) sig key =
        env.checkSig (signedCode chunks m.codeStart [sig]) sig key := h _ List.mem_cons_self
    rw [hcheck]
    rfl
  · rfl

theorem checkMultiSig_withVerify
    (h : ∀ p ∈ m.multiSigComparisons env chunks,
      p.outcome (env.withVerify verify) = p.outcome env) :
    m.checkMultiSig (env.withVerify verify) chunks = m.checkMultiSig env chunks := by
  have hargs : m.multisigArgs (env.withVerify verify) = m.multisigArgs env := rfl
  unfold multiSigComparisons at h
  unfold checkMultiSig
  rw [hargs]
  split
  · rfl
  · rename_i m' args hok
    rw [hok] at h
    have hwalk : matchSigs
        ((env.withVerify verify).checkSig (signedCode chunks m.codeStart args.sigs)) args.sigs
        args.keys =
        matchSigs (env.checkSig (signedCode chunks m.codeStart args.sigs)) args.sigs args.keys :=
      matchSigs_congr fun pair hpair => h _ (List.mem_map_of_mem hpair)
    rw [hwalk]
    rfl

theorem checkLockTime_withVerify :
    m.checkLockTime (env.withVerify verify) = m.checkLockTime env := by
  obtain ⟨flags, limits, context, input⟩ := env
  cases context <;> rfl

theorem checkSequence_withVerify :
    m.checkSequence (env.withVerify verify) = m.checkSequence env := by
  obtain ⟨flags, limits, context, input⟩ := env
  cases context <;> rfl

/-- Only the four opcodes that check signatures depend on the answers. -/
theorem exec_withVerify_of_checks
    (h : ∀ p ∈ m.checks env chunks c, p.outcome (env.withVerify verify) = p.outcome env) :
    m.exec (env.withVerify verify) chunks offset c = m.exec env chunks offset c := by
  have hresolve : resolve (env.withVerify verify) m c = resolve env m c := rfl
  unfold checks at h
  unfold exec
  rw [hresolve]
  rcases hchunk : resolve env m c with f | ⟨m', _ | data | op⟩
  · rfl
  · rfl
  · rfl
  · rw [hchunk] at h
    cases op
    case checkSig => exact checkSig_withVerify h
    case checkSigVerify => exact congrArg (andVerify .checkSigVerify) (checkSig_withVerify h)
    case checkMultiSig => exact checkMultiSig_withVerify h
    case checkMultiSigVerify =>
      exact congrArg (andVerify .checkMultiSigVerify) (checkMultiSig_withVerify h)
    case checkLockTimeVerify => exact checkLockTime_withVerify
    case checkSequenceVerify => exact checkSequence_withVerify
    all_goals rfl

/-- A chunk asks nothing but the questions that are listed for it. -/
theorem exec_withVerify (h : env.SameAnswers verify (m.queries env chunks c)) :
    m.exec (env.withVerify verify) chunks offset c = m.exec env chunks offset c := by
  rw [queries_eq_flatMap_checks] at h
  refine exec_withVerify_of_checks fun p hp => Comparison.outcome_withVerify (h.mono ?_)
  exact fun q hq => List.mem_flatMap.2 ⟨p, hp, hq⟩

end Machine

namespace Evaluation

variable {env : Env} {unlocking locking : Script} {e e' : Evaluation} {p : Comparison} {f : Fault}
  {q : SigQuery} {verify : SigQuery → Except Fault Bool}

/-- What the next step compares. -/
def checks (e : Evaluation) : List Comparison :=
  match e.upcoming with
  | [] => []
  | chunk :: _ => e.machine.checks e.env e.running.chunks chunk

theorem queries_eq_flatMap_checks :
    e.queries = e.checks.flatMap fun p => p.questions e.env := by
  rw [queries, checks]
  cases e.upcoming with
  | nil => rfl
  | cons c rest => exact Machine.queries_eq_flatMap_checks

theorem step_eq_error_of_mem_checks (h : p ∈ e.checks) (hf : p.outcome e.env = .error f) :
    e.step = .error f := by
  rw [step]
  unfold checks at h
  cases hup : e.upcoming with
  | nil =>
    rw [hup] at h
    cases h
  | cons c rest =>
    rw [hup] at h
    simp only [Machine.exec_eq_error_of_mem_checks h hf]

theorem execute_eq_error_of_mem_checks (h : Reachable env unlocking locking e) (hp : p ∈ e.checks)
    (hf : p.outcome env = .error f) : execute env unlocking locking = .error f := by
  have hrunning : e.finished = false := by
    unfold checks at hp
    split at hp
    · cases hp
    · rename_i hup
      exact finished_eq_false_of_upcoming hup
  rw [← h.env_eq] at hf
  rw [h.execute_eq_run hrunning, run_eq, step_eq_error_of_mem_checks hp hf]

/-! ## The questions of a run -/

theorem upcoming_of_finished (h : e.finished = true) : e.upcoming = [] := by
  cases hup : e.upcoming with
  | nil => rfl
  | cons c rest =>
    rw [finished_eq_false_of_upcoming hup] at h
    cases h

theorem asked_of_upcoming_nil (h : e.upcoming = []) : e.asked = [] := by
  have hqueries : e.queries = [] := by rw [queries, h]
  have hstep : e.step = .error (.pastEnd e.index e.offset) := by rw [step, h]
  rw [asked, trail, hqueries]
  split
  · rfl
  · rename_i e' hok
    rw [hstep] at hok
    cases hok

/-- The questions of the next step, and then those of the steps after it. -/
theorem asked_eq :
    e.asked = e.queries ++ match e.step with
      | .error _ => []
      | .ok e' => e'.asked := by
  rw [asked, trail]
  split
  · rename_i f hstep
    simp only [hstep]
    rfl
  · rename_i e' hstep
    simp only [hstep, List.flatMap_cons]
    cases hfin : e'.finished with
    | true =>
      have hasked := asked_of_upcoming_nil (upcoming_of_finished hfin)
      have hqueries : e'.queries = [] := (List.append_eq_nil_iff.1 hasked).1
      rw [hasked, hqueries]
      rfl
    | false => rfl

/-- The questions of the next step are among those of the run. -/
theorem queries_subset_asked : e.queries ⊆ e.asked := by
  rw [asked]
  exact List.subset_append_left _ _

/-- A question of the run is one of a state on its way; by induction on the steps that are left. -/
theorem Reachable.exists_of_mem_asked (h : Reachable env unlocking locking e) (hq : q ∈ e.asked) :
    ∃ e', Reachable env unlocking locking e' ∧ q ∈ e'.queries := by
  induction e using run.induct with
  | case1 e f hstep =>
    rw [asked_eq, hstep] at hq
    exact ⟨e, h, by simpa using hq⟩
  | case2 e e' hstep hlt hfin =>
    rw [asked_eq, hstep] at hq
    simp only [asked_of_upcoming_nil (upcoming_of_finished hfin), List.append_nil] at hq
    exact ⟨e, h, hq⟩
  | case3 e e' hstep hlt hmore ih =>
    rw [asked_eq, hstep] at hq
    rcases List.mem_append.1 hq with hnow | hlater
    · exact ⟨e, h, hnow⟩
    · exact ih (h.step hstep) hlater

/-- The rest of a run asks nothing new; by induction on the steps to its beginning. -/
theorem Reachable.asked_subset (h : Reachable env unlocking locking e')
    (hstart : Evaluation.start env unlocking locking = .ok e) : e'.asked ⊆ e.asked := by
  induction h with
  | start h =>
    rw [h] at hstart
    cases hstart
    exact List.Subset.refl _
  | step h hstep ih =>
    intro q hq
    apply ih
    rw [asked_eq, hstep]
    exact List.mem_append_right _ hq

/-- What a spend asks is what its states ask. -/
theorem mem_asked_iff (hstart : start env unlocking locking = .ok e) :
    q ∈ e.asked ↔ ∃ e', Reachable env unlocking locking e' ∧ q ∈ e'.queries := by
  constructor
  · exact (Reachable.start hstart).exists_of_mem_asked
  · rintro ⟨e', h, hq⟩
    exact h.asked_subset hstart (queries_subset_asked hq)

/-- Every listed question is put: where one has no answer, the evaluation ends with its fault. -/
theorem execute_eq_error_of_mem_asked (hstart : start env unlocking locking = .ok e)
    (hq : q ∈ e.asked) (hf : env.ask q = .error f) : execute env unlocking locking = .error f := by
  obtain ⟨e', hreach, hq'⟩ := (mem_asked_iff hstart).1 hq
  rw [queries_eq_flatMap_checks, hreach.env_eq] at hq'
  obtain ⟨p, hp, hquestion⟩ := List.mem_flatMap.1 hq'
  refine execute_eq_error_of_mem_checks hreach hp ?_
  rw [Comparison.outcome_eq_ask hquestion, hf]

/-! ## Nothing else is asked -/

/-- The same state with other answers about signatures. -/
def withVerify (e : Evaluation) (verify : SigQuery → Except Fault Bool) : Evaluation :=
  { e with env := e.env.withVerify verify }

theorem advance_withVerify (data : Stack) :
    (e.withVerify verify).advance data = (e.advance data).withVerify verify := rfl

theorem skipEmpty_withVerify :
    (e.withVerify verify).skipEmpty = e.skipEmpty.withVerify verify := by
  rw [skipEmpty, skipEmpty]
  -- Both sides look at the same scripts and the same place in them.
  by_cases hskip : (e.running.isEmpty && !e.finished) = true
  · rw [if_pos hskip]
    exact if_pos hskip
  · rw [if_neg hskip]
    exact if_neg hskip

theorem loadRedeem_withVerify :
    (e.withVerify verify).loadRedeem = e.loadRedeem.map (·.withVerify verify) := by
  have hjudged : checkResult (e.withVerify verify).env false (e.withVerify verify).machine.data =
      checkResult e.env false e.machine.data := rfl
  have hsaved : (e.withVerify verify).saved = e.saved := rfl
  have hsize : (e.withVerify verify).env.limits = e.env.limits := rfl
  rw [loadRedeem, loadRedeem, hjudged, hsaved, hsize]
  rcases checkResult e.env false e.machine.data with f | _
  · rfl
  · rcases e.saved with _ | ⟨top, rest⟩
    · rfl
    · simp only
      rcases Script.ofBytes top with err | redeem
      · rfl
      · simp only
        rcases e.env.limits.checkScript .redeem redeem with f | _ <;> rfl

theorem nextScript_withVerify (data : Stack) :
    (e.withVerify verify).nextScript data = (e.nextScript data).map (·.withVerify verify) := by
  simp only [nextScript]
  by_cases hfirst : (e.wrapped && e.index == 0) = true
  · rw [if_pos hfirst]
    refine (if_pos hfirst).trans ?_
    exact congrArg Except.ok (skipEmpty_withVerify (e := { e.advance data with saved := data }))
  · rw [if_neg hfirst]
    refine (if_neg hfirst).trans ?_
    by_cases hlocking : (e.wrapped && e.index == 1) = true
    · rw [if_pos hlocking]
      refine (if_pos hlocking).trans ?_
      rw [advance_withVerify, loadRedeem_withVerify]
      rcases (e.advance data).loadRedeem with f | loaded
      · rfl
      · exact congrArg Except.ok skipEmpty_withVerify
    · rw [if_neg hlocking]
      refine (if_neg hlocking).trans ?_
      exact congrArg Except.ok (skipEmpty_withVerify (e := e.advance data))

theorem endScript_withVerify (m : Machine) :
    (e.withVerify verify).endScript m = (e.endScript m).map (·.withVerify verify) := by
  rw [endScript, endScript]
  split
  · exact nextScript_withVerify m.data
  · rfl

/-- A step asks nothing but the questions that are listed for it. -/
theorem step_withVerify (h : e.env.SameAnswers verify e.queries) :
    (e.withVerify verify).step = e.step.map (·.withVerify verify) := by
  have hup : (e.withVerify verify).upcoming = e.upcoming := rfl
  rw [queries] at h
  rw [step, step, hup]
  rcases hleft : e.upcoming with _ | ⟨c, rest⟩
  · rfl
  · rw [hleft] at h
    have hexec : (e.withVerify verify).machine.exec (e.withVerify verify).env
        (e.withVerify verify).running.chunks (e.withVerify verify).offset c =
        e.machine.exec e.env e.running.chunks e.offset c := Machine.exec_withVerify h
    simp only [hexec]
    rcases e.machine.exec e.env e.running.chunks e.offset c with f | m
    · rfl
    · by_cases hdeep : e.env.limits.maxStackSize < m.depth
      · simp only [if_pos hdeep]
        exact if_pos hdeep
      · simp only [if_neg hdeep]
        refine (if_neg hdeep).trans ?_
        split
        · exact endScript_withVerify m
        · rfl

theorem Reachable.step_withVerify (h : Reachable env unlocking locking e)
    (hagree : env.SameAnswers verify e.asked) :
    (e.withVerify verify).step = e.step.map (·.withVerify verify) := by
  rw [← h.env_eq] at hagree
  exact Evaluation.step_withVerify (hagree.mono queries_subset_asked)

/-- The rest of a run asks nothing but the questions that are listed for it; by induction on the
steps that are left. -/
theorem Reachable.run_withVerify (h : Reachable env unlocking locking e)
    (hagree : env.SameAnswers verify e.asked) :
    (e.withVerify verify).run = e.run := by
  induction e using run.induct with
  | case1 e f hfail =>
    rw [run_eq, run_eq, h.step_withVerify hagree, hfail]
    rfl
  | case2 e e' hok hlt hfin =>
    rw [run_eq, run_eq, h.step_withVerify hagree, hok]
    show (e'.withVerify verify).resume = e'.resume
    rw [resume, resume, if_pos hfin]
    exact if_pos hfin
  | case3 e e' hok hlt hmore ih =>
    have hrest : (e'.withVerify verify).run = e'.run := by
      rw [asked_eq, hok] at hagree
      exact ih (h.step hok) (hagree.mono (List.subset_append_right _ _))
    rw [run_eq, run_eq, h.step_withVerify hagree, hok]
    show (e'.withVerify verify).resume = e'.resume
    rw [resume, resume, if_neg hmore]
    exact (if_neg hmore).trans hrest

theorem start_withVerify (h : start env unlocking locking = .ok e) :
    start (env.withVerify verify) unlocking locking = .ok (e.withVerify verify) := by
  have hadmitted : Admitted env unlocking locking := start_isOk_iff.1 ⟨e, h⟩
  have hother : Admitted (env.withVerify verify) unlocking locking := { hadmitted with }
  obtain ⟨e', h'⟩ := start_isOk_iff.2 hother
  rw [h', (start_ok h).2, (start_ok h').2]
  rfl

/-- Nothing but the listed questions is asked: where the answers to them stay as they are, the
evaluation comes to the same. -/
theorem execute_withVerify (hstart : start env unlocking locking = .ok e)
    (hagree : env.SameAnswers verify e.asked) :
    execute (env.withVerify verify) unlocking locking = execute env unlocking locking := by
  rw [execute, execute, hstart, start_withVerify hstart]
  exact (Reachable.start hstart).run_withVerify hagree

end Evaluation
end SpendScript
