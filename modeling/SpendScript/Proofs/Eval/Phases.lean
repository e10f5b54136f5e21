import SpendScript.Eval.Evaluation

/-!
# SpendScript.Proofs.Eval.Phases

The evaluation of a spend, script by script. `Evaluation.step` keeps one place in all the scripts of
a spend: it goes past scripts without chunks, begins each script with a machine that has only the
data stack of the one before, keeps what the unlocking script left and appends the redeem script.
Here each script is run by itself, and a spend is two or three such runs.

* `Script.runOn`: one script by itself on a data stack.
* `trueTop`, `finalCheck`: what a script has to leave.
* `phases`: the scripts of a spend, one after the other.
* `run_fresh`: steps from the beginning of a script come to `Script.runOn` and then to what follows
  the script.
* `run_of_start`: steps from the beginning of a spend come to `phases`.
-/

namespace SpendScript

namespace Machine

/-- The machine at the beginning of a script. -/
def fresh (data : Stack) : Machine := { initial with data := data }

@[simp] theorem fresh_nil : fresh [] = initial := rfl

/-- Executes chunks of the script `chunks`, the first of them at `offset`, and holds both stacks to
their limit after each. -/
def execAll (env : Env) (chunks : List Chunk) : Nat → Machine → List Chunk → Except Fault Machine
  | _, m, [] => .ok m
  | offset, m, c :: cs =>
    match m.exec env chunks offset c with
    | .error f => .error f
    | .ok m' =>
      if env.limits.maxStackSize < m'.depth then
        .error (.stackOverflow m'.depth env.limits.maxStackSize)
      else execAll env chunks (offset + 1) m' cs

end Machine

/-- Runs a script by itself on a data stack, and gives the data stack that it leaves. -/
def Script.runOn (env : Env) (s : Script) (data : Stack) : Except Fault Stack :=
  match Machine.execAll env s.chunks 0 (Machine.fresh data) s.chunks with
  | .error f => .error f
  | .ok m => if m.branches.isEmpty then .ok m.data else .error .openConditional

/-- There is an item on top, and it is true. -/
def trueTop (data : Stack) : Except Fault Unit :=
  match data with
  | [] => .error .emptyResult
  | top :: _ => if Number.truth top then .ok () else .error .falseResult

/-- The check at the end: there is an item on top, it is the only one where the flags ask for a clean
stack, and it is true. -/
def finalCheck (env : Env) (data : Stack) : Except Fault Unit :=
  if data.length = 0 then .error .emptyResult
  else if env.flags.has .cleanStack = true ∧ data.length ≠ 1 then
    .error (.unclean (data.length - 1))
  else trueTop data

/-- Runs the redeem script, which is the top of what the unlocking script left, on the rest. -/
def runRedeem (env : Env) (left : Stack) : Except Fault Stack :=
  match left with
  | [] => .error .noRedeem
  | top :: rest =>
    match Script.ofBytes top with
    | .error err => .error (.badRedeem err)
    | .ok redeem =>
      if env.limits.maxScriptSize < redeem.encodedLength then
        .error (.scriptTooBig .redeem redeem.encodedLength env.limits.maxScriptSize)
      else redeem.runOn env rest

/-- Whether the locking script asks for a redeem script. -/
def Env.wraps (env : Env) (locking : Script) : Bool :=
  env.flags.has .payToScriptHash && locking.isScriptHashOut

/-- Runs the locking script, and the redeem script if it asks for one, on what the unlocking script
left. -/
def phasesFrom (env : Env) (locking : Script) (left : Stack) : Except Fault Unit :=
  match locking.runOn env left with
  | .error f => .error f
  | .ok data =>
    if env.wraps locking then
      match trueTop data with
      | .error f => .error f
      | .ok _ =>
        match runRedeem env left with
        | .error f => .error f
        | .ok data' => finalCheck env data'
    else finalCheck env data

/-- Runs the scripts of a spend one after the other. -/
def phases (env : Env) (unlocking locking : Script) : Except Fault Unit :=
  match unlocking.runOn env [] with
  | .error f => .error f
  | .ok left => phasesFrom env locking left

theorem runOn_of_isEmpty {env : Env} {s : Script} (h : s.isEmpty) (data : Stack) :
    s.runOn env data = .ok data := by
  have hnil : s.chunks = [] := by simpa [Script.isEmpty] using h
  simp [Script.runOn, hnil, Machine.execAll, Machine.fresh, Machine.initial]

namespace Evaluation

theorem checkResult_locking (env : Env) (data : Stack) :
    checkResult env false data = trueTop data := by
  cases data <;> rfl

theorem checkResult_last (env : Env) (data : Stack) :
    checkResult env true data = finalCheck env data := by
  cases data with
  | nil => rfl
  | cons top rest =>
    rw [checkResult, finalCheck, trueTop]
    cases env.flags.has .cleanStack <;> cases rest <;> simp

/-- What follows a step. -/
def resume (e : Evaluation) : Except Fault Unit :=
  if e.finished then checkResult e.env true e.machine.data else e.run

/-- What follows the running script, which left `data`. -/
def conclude (e : Evaluation) (data : Stack) : Except Fault Unit :=
  match e.nextScript data with
  | .error f => .error f
  | .ok e' => e'.resume

theorem run_eq (e : Evaluation) :
    e.run = match e.step with
      | .error f => .error f
      | .ok e' => e'.resume := by
  rw [run]
  split
  · rename_i f h
    simp only [h]
  · rename_i e' h
    simp only [h]
    rfl

/-- Steps through the rest of the running script, by induction on the chunks that are left. -/
theorem run_upcoming (cs : List Chunk) :
    ∀ (e : Evaluation) (c : Chunk), e.upcoming = c :: cs →
      e.run = match Machine.execAll e.env e.running.chunks e.offset e.machine (c :: cs) with
        | .error f => .error f
        | .ok m => if m.branches.isEmpty then e.conclude m.data else .error .openConditional := by
  induction cs with
  | nil =>
    intro e c hup
    rw [run_eq, step, hup]
    simp only [Machine.execAll, List.isEmpty_nil, if_true]
    cases hx : e.machine.exec e.env e.running.chunks e.offset c with
    | error f => rfl
    | ok m =>
      by_cases hd : e.env.limits.maxStackSize < m.depth
      · simp only [hd, if_true]
      · by_cases hb : m.branches.isEmpty
        · simp only [hd, if_false, endScript, hb, if_true]
          rfl
        · simp only [hd, if_false, endScript, hb]
          rfl
  | cons c' cs ih =>
    intro e c hup
    rw [run_eq, step, hup, Machine.execAll]
    simp only [List.isEmpty_cons]
    cases hx : e.machine.exec e.env e.running.chunks e.offset c with
    | error f => rfl
    | ok m =>
      by_cases hd : e.env.limits.maxStackSize < m.depth
      · simp only [hd, if_true]
      · simp only [hd, if_false]
        let e' : Evaluation := { e with machine := m, offset := e.offset + 1 }
        have hup' : e'.upcoming = c' :: cs := by
          have htail := congrArg List.tail hup
          simpa [e', upcoming, running, List.tail_drop] using htail
        have hmore : e'.finished = false := by
          have hlt := index_lt_of_upcoming hup'
          simp only [finished, decide_eq_false_iff_not]
          omega
        have hrun := ih e' c' hup'
        simp only [Bool.false_eq_true, if_false]
        show e'.resume = _
        rw [resume, hmore, if_neg Bool.false_ne_true, hrun]
        rfl

/-- Steps from the beginning of a script. -/
theorem run_fresh {e : Evaluation} (data : Stack) (hm : e.machine = Machine.fresh data)
    (ho : e.offset = 0) (hne : e.running.isEmpty = false) :
    e.run = match e.running.runOn e.env data with
      | .error f => .error f
      | .ok left => e.conclude left := by
  obtain ⟨c, cs, hcs⟩ : ∃ c cs, e.running.chunks = c :: cs := by
    cases hc : e.running.chunks with
    | nil => simp [Script.isEmpty, hc] at hne
    | cons c cs => exact ⟨c, cs, rfl⟩
  have hup : e.upcoming = c :: cs := by simp [upcoming, ho, hcs]
  rw [run_upcoming cs e c hup, Script.runOn, ho, hm, hcs]
  cases Machine.execAll e.env (c :: cs) 0 (Machine.fresh data) (c :: cs) with
  | error f => rfl
  | ok m => by_cases hb : m.branches.isEmpty <;> simp only [hb] <;> rfl

theorem skipEmpty_of_finished {e : Evaluation} (h : e.finished = true) : e.skipEmpty = e := by
  simp [skipEmpty, h]

theorem skipEmpty_of_chunks {e : Evaluation} (h : e.running.isEmpty = false) :
    e.skipEmpty = e := by
  simp [skipEmpty, h]

theorem resume_of_running {e : Evaluation} (h : e.index < e.scripts.length) :
    e.resume = e.run := by
  rw [resume, finished, if_neg (by simpa using h)]

theorem nextScript_last {e : Evaluation} (hlast : e.index + 1 = e.scripts.length)
    (hkeep : e.wrapped = false ∨ 1 < e.index) (data : Stack) :
    e.nextScript data = .ok (e.advance data) := by
  have hskip : (e.advance data).skipEmpty = e.advance data :=
    skipEmpty_of_finished (by simp [finished, advance, hlast])
  rcases hkeep with hw | hi
  · simp [nextScript, hw, hskip]
  · have h0 : e.index ≠ 0 := by omega
    have h1 : e.index ≠ 1 := by omega
    simp [nextScript, h0, h1, hskip]

/-- After the last script nothing is left to run. -/
theorem conclude_last {e : Evaluation} (hlast : e.index + 1 = e.scripts.length)
    (hkeep : e.wrapped = false ∨ 1 < e.index) (data : Stack) :
    e.conclude data = finalCheck e.env data := by
  have hfin : (e.advance data).finished = true := by
    simp [finished, advance, hlast]
  rw [conclude, nextScript_last hlast hkeep]
  simp only [resume, hfin, if_true, checkResult_last]
  rfl

/-- The last script, which may have no chunks. -/
theorem resume_skipEmpty_last {e : Evaluation} (data : Stack)
    (hm : e.machine = Machine.fresh data) (ho : e.offset = 0)
    (hlast : e.index + 1 = e.scripts.length)
    (hkeep : e.wrapped = false ∨ 1 < e.index) :
    e.skipEmpty.resume = match e.running.runOn e.env data with
      | .error f => .error f
      | .ok left => finalCheck e.env left := by
  have hrun : e.finished = false := by simp [finished]; omega
  cases hemp : e.running.isEmpty with
  | true =>
    have hskip : e.skipEmpty = { e with index := e.index + 1 } := by
      simp [skipEmpty, hemp, hrun]
    have hfin : e.skipEmpty.finished = true := by
      rw [hskip]
      simp [finished, hlast]
    rw [runOn_of_isEmpty hemp, resume, hfin, if_pos rfl, hskip, checkResult_last]
    simp only [hm]
    rfl
  | false =>
    rw [skipEmpty_of_chunks hemp, resume_of_running (by omega), run_fresh data hm ho hemp]
    simp only [conclude_last hlast hkeep]

theorem nextScript_locking {e : Evaluation} (hi : e.index = 1) (hw : e.wrapped = true)
    (data : Stack) :
    e.nextScript data = match (e.advance data).loadRedeem with
      | .error f => .error f
      | .ok e' => .ok e'.skipEmpty := by
  simp only [nextScript, hi, hw]
  rfl

/-- After a locking script that asks for a redeem script, that script runs. -/
theorem conclude_locking {e : Evaluation} (hi : e.index = 1) (hs : e.scripts.length = 2)
    (hw : e.wrapped = true) (data : Stack) :
    e.conclude data = match trueTop data with
      | .error f => .error f
      | .ok _ =>
        match runRedeem e.env e.saved with
        | .error f => .error f
        | .ok left => finalCheck e.env left := by
  rw [conclude, nextScript_locking hi hw, loadRedeem]
  simp only [advance, runRedeem, checkResult_locking]
  cases trueTop data with
  | error f => rfl
  | ok _ =>
    cases hsaved : e.saved with
    | nil => rfl
    | cons top rest =>
      cases hread : Script.ofBytes top with
      | error err => simp only [hread]
      | ok redeem =>
        by_cases hbig : e.env.limits.maxScriptSize < redeem.encodedLength
        · simp only [hread, Limits.checkScript, hbig, if_true]
        · simp only [hread, Limits.checkScript, hbig, if_false]
          let e' : Evaluation := ⟨e.env, e.scripts ++ [redeem], e.wrapped, e.index + 1, 0,
            Machine.fresh rest, []⟩
          have hrunning : e'.running = redeem := by simp [running, e', hi, hs]
          have hlast := resume_skipEmpty_last (e := e') rest rfl rfl (by simp [e', hi, hs])
            (.inr (by simp [e', hi]))
          rw [hrunning] at hlast
          exact hlast

theorem isEmpty_of_wraps {env : Env} {locking : Script} (h : env.wraps locking = true) :
    locking.isEmpty = false := by
  cases hc : locking.chunks with
  | nil => simp [Env.wraps, Script.isScriptHashOut, hc] at h
  | cons c cs => simp [Script.isEmpty, hc]

/-- The evaluation at the beginning of the locking script, with what the unlocking script left. -/
def atLocking (env : Env) (unlocking locking : Script) (left : Stack) : Evaluation :=
  ⟨env, [unlocking, locking], env.wraps locking, 1, 0, Machine.fresh left,
    if env.wraps locking then left else []⟩

theorem nextScript_unlocking {env : Env} {unlocking locking : Script} (k : Nat) (m : Machine)
    (left : Stack) :
    nextScript ⟨env, [unlocking, locking], env.wraps locking, 0, k, m, []⟩ left =
      .ok (atLocking env unlocking locking left).skipEmpty := by
  cases hw : env.wraps locking <;> simp [hw, nextScript, advance, atLocking, Machine.fresh]

theorem resume_atLocking (env : Env) (unlocking locking : Script) (left : Stack) :
    (atLocking env unlocking locking left).skipEmpty.resume = phasesFrom env locking left := by
  let e := atLocking env unlocking locking left
  show e.skipEmpty.resume = _
  rw [phasesFrom]
  cases hw : env.wraps locking with
  | true =>
    have hne : e.running.isEmpty = false := isEmpty_of_wraps hw
    have hsaved : e.saved = left := by simp [e, atLocking, hw]
    rw [skipEmpty_of_chunks hne, resume_of_running (by simp [e, atLocking]),
      run_fresh left rfl rfl hne]
    simp only [conclude_locking (e := e) rfl rfl hw, hsaved]
    rfl
  | false =>
    rw [resume_skipEmpty_last left rfl rfl rfl (.inl hw)]
    rfl

theorem start_ok {env : Env} {unlocking locking : Script} {e : Evaluation}
    (h : start env unlocking locking = .ok e) :
    (unlocking.isEmpty = true → locking.isEmpty = false) ∧
      e = ⟨env, [unlocking, locking], env.wraps locking, if unlocking.isEmpty then 1 else 0, 0,
        .initial, []⟩ := by
  simp only [start] at h
  split at h
  · cases h
  · split at h
    · cases h
    · split at h
      · cases h
      · split at h
        · cases h
        · rename_i hempty
          split at h
          · cases h
          · split at h
            · cases h
            · cases h
              exact ⟨by simpa using hempty, rfl⟩

/-- Steps from the beginning of a spend. -/
theorem run_of_start {env : Env} {unlocking locking : Script} {e : Evaluation}
    (h : start env unlocking locking = .ok e) : e.run = phases env unlocking locking := by
  obtain ⟨hsome, he⟩ := start_ok h
  rw [phases]
  cases hu : unlocking.isEmpty with
  | true =>
    -- The evaluation begins at the locking script.
    have hat : e = atLocking env unlocking locking [] := by simp [he, hu, atLocking]
    have hne : e.running.isEmpty = false := by rw [hat]; exact hsome hu
    rw [runOn_of_isEmpty hu]
    show e.run = phasesFrom env locking []
    rw [← resume_atLocking env unlocking locking, ← hat, skipEmpty_of_chunks hne,
      resume_of_running (by simp [hat, atLocking])]
  | false =>
    have hne : e.running.isEmpty = false := by simp [he, running, hu]
    have hconclude : ∀ left, e.conclude left = phasesFrom env locking left := by
      intro left
      have hnext : e.nextScript left = .ok (atLocking env unlocking locking left).skipEmpty := by
        rw [he, hu]
        exact nextScript_unlocking 0 .initial left
      rw [conclude, hnext]
      exact resume_atLocking env unlocking locking left
    rw [run_fresh [] (by rw [he]; rfl) (by rw [he]) hne]
    simp only [hconclude]
    rw [he]
    simp [running, hu]

end Evaluation

/-- **A spend, script by script.** Where the rules about the scripts as a whole are met, steps over
all scripts of a spend come to the same, fault or not, as its scripts run one after the other. -/
theorem execute_eq_phases {env : Env} {unlocking locking : Script} {e : Evaluation}
    (h : Evaluation.start env unlocking locking = .ok e) :
    execute env unlocking locking = phases env unlocking locking := by
  rw [execute, h]
  exact Evaluation.run_of_start h

/-- A redeem script of one opcode. -/
theorem execute_eq_phases_redeem :
    (∃ e, Evaluation.start ⟨.payToScriptHash, {}, none, 0⟩ ⟨[.push 1 [0x51]]⟩
      (Script.scriptHashOut (Hash.hash160 [0x51])) = .ok e) ∧
    execute ⟨.payToScriptHash, {}, none, 0⟩ ⟨[.push 1 [0x51]]⟩
        (Script.scriptHashOut (Hash.hash160 [0x51])) =
      phases ⟨.payToScriptHash, {}, none, 0⟩ ⟨[.push 1 [0x51]]⟩
        (Script.scriptHashOut (Hash.hash160 [0x51])) :=
  ⟨⟨_, rfl⟩, execute_eq_phases rfl⟩

end SpendScript
