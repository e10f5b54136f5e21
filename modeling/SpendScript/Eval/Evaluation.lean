import SpendScript.Eval.Exec
import SpendScript.Script.Class

/-!
# SpendScript.Eval.Evaluation

The evaluation of a spend. The unlocking script runs first and leaves its data stack to the locking
script. Where the locking script asks for a script hash and the flags know that form, the bytes on
top of the first of these stacks are then run as a third script, the redeem script, on the rest of
that stack. Nothing but the data stack passes from one script to the next.

* `step` — executes one chunk; the step that ends a script makes the next one ready.
* `run` — steps to the end and looks at what is left.
* `execute` — the whole evaluation.
-/

namespace SpendScript

structure Evaluation where
  env : Env
  /-- The unlocking script, the locking script, and the redeem script once it is known. -/
  scripts : List Script
  /-- The locking script asks for a redeem script. -/
  wrapped : Bool
  /-- The number of the running script. -/
  index : Nat
  /-- The next chunk of the running script. -/
  offset : Nat
  machine : Machine
  /-- What the unlocking script left, while it is still needed. -/
  saved : Stack

def Limits.checkScript (limits : Limits) (role : ScriptRole) (s : Script) : Except Fault Unit :=
  if limits.maxScriptSize < s.encodedLength then
    .error (.scriptTooBig role s.encodedLength limits.maxScriptSize)
  else .ok ()

namespace Evaluation

/-- The evaluation before its first step. Rules about the scripts as a whole are enforced here. -/
def start (env : Env) (unlocking locking : Script) : Except Fault Evaluation :=
  let wrapped := env.flags.has .payToScriptHash && locking.isScriptHashOut
  if env.flags.has .cleanStack && !env.flags.has .payToScriptHash then .error .invalidFlags
  else
    match env.limits.checkScript .unlocking unlocking with
    | .error f => .error f
    | .ok _ =>
      match env.limits.checkScript .locking locking with
      | .error f => .error f
      | .ok _ =>
        if unlocking.isEmpty && locking.isEmpty then .error .falseResult
        else if env.flags.has .sigPushOnly && !unlocking.isPushOnly then
          .error .unlockingNotPushOnly
        else if wrapped && !unlocking.isPushOnly then .error .scriptHashNotPushOnly
        else
          .ok ⟨env, [unlocking, locking], wrapped, if unlocking.isEmpty then 1 else 0, 0,
            .initial, []⟩

def running (e : Evaluation) : Script := e.scripts.getD e.index .empty

/-- The chunks of the running script that are still to be executed. -/
def upcoming (e : Evaluation) : List Chunk := e.running.chunks.drop e.offset

def finished (e : Evaluation) : Bool := e.scripts.length ≤ e.index

/-- Judges what a script left: there must be a top item, it must be true, and where the flags ask
for a clean stack it must be the only one. The last is asked of the last script only. -/
def checkResult (env : Env) (last : Bool) (data : Stack) : Except Fault Unit :=
  match data with
  | [] => .error .emptyResult
  | top :: rest =>
    if last && env.flags.has .cleanStack && !rest.isEmpty then .error (.unclean rest.length)
    else if Number.truth top then .ok ()
    else .error .falseResult

/-- Adds the redeem script, which runs on what the unlocking script left below it. -/
def loadRedeem (e : Evaluation) : Except Fault Evaluation :=
  match checkResult e.env false e.machine.data with
  | .error f => .error f
  | .ok _ =>
    match e.saved with
    | [] => .error .noRedeem
    | top :: rest =>
      match Script.ofBytes top with
      | .error err => .error (.badRedeem err)
      | .ok redeem =>
        match e.env.limits.checkScript .redeem redeem with
        | .error f => .error f
        | .ok _ =>
          .ok { e with
            scripts := e.scripts ++ [redeem]
            machine := { e.machine with data := rest }
            saved := [] }

/-- Goes past a running script without chunks. -/
def skipEmpty (e : Evaluation) : Evaluation :=
  if e.running.isEmpty && !e.finished then { e with index := e.index + 1 } else e

/-- The beginning of the script after the running one. -/
def advance (e : Evaluation) (data : Stack) : Evaluation :=
  { e with index := e.index + 1, offset := 0, machine := { Machine.initial with data := data } }

/-- Passes from the running script, which left `data`, to the next one. -/
def nextScript (e : Evaluation) (data : Stack) : Except Fault Evaluation :=
  let next := e.advance data
  if e.wrapped && e.index == 0 then .ok { next with saved := data }.skipEmpty
  else if e.wrapped && e.index == 1 then
    match next.loadRedeem with
    | .error f => .error f
    | .ok next' => .ok next'.skipEmpty
  else .ok next.skipEmpty

def endScript (e : Evaluation) (m : Machine) : Except Fault Evaluation :=
  if m.branches.isEmpty then e.nextScript m.data else .error .openConditional

def step (e : Evaluation) : Except Fault Evaluation :=
  match e.upcoming with
  | [] => .error (.pastEnd e.index e.offset)
  | chunk :: rest =>
    match e.machine.exec e.env e.running.chunks e.offset chunk with
    | .error f => .error f
    | .ok m =>
      if e.env.limits.maxStackSize < m.depth then
        .error (.stackOverflow m.depth e.env.limits.maxStackSize)
      else if rest.isEmpty then e.endScript m
      else .ok { e with machine := m, offset := e.offset + 1 }

/-- The questions that the next step puts to the context. -/
def queries (e : Evaluation) : List SigQuery :=
  match e.upcoming with
  | [] => []
  | chunk :: _ => e.machine.queries e.env e.running.chunks chunk

/-- Scripts that are not ended yet, one that is still to be loaded among them. -/
def scriptsLeft (e : Evaluation) : Nat :=
  e.scripts.length - e.index + if e.wrapped && decide (e.index < 2) then 1 else 0

theorem scriptsLeft_skipEmpty_le (e : Evaluation) : e.skipEmpty.scriptsLeft ≤ e.scriptsLeft := by
  unfold skipEmpty
  split
  · simp only [scriptsLeft]
    grind
  · exact Nat.le_refl _

theorem index_lt_of_upcoming {e : Evaluation} {c : Chunk} {rest : List Chunk}
    (h : e.upcoming = c :: rest) : e.index < e.scripts.length := by
  by_cases hlt : e.index < e.scripts.length
  · exact hlt
  · simp [upcoming, running, List.getD, List.getElem?_eq_none (Nat.not_lt.1 hlt), Script.empty] at h

theorem loadRedeem_shape {e e' : Evaluation} (h : e.loadRedeem = .ok e') :
    e'.scripts.length = e.scripts.length + 1 ∧ e'.index = e.index ∧ e'.wrapped = e.wrapped := by
  unfold loadRedeem at h
  split at h
  · cases h
  · split at h
    · cases h
    · split at h
      · cases h
      · split at h
        · cases h
        · cases h
          simp

theorem scriptsLeft_nextScript_lt {e e' : Evaluation} {data : Stack}
    (hlt : e.index < e.scripts.length) (h : e.nextScript data = .ok e') :
    e'.scriptsLeft < e.scriptsLeft := by
  simp only [nextScript] at h
  split at h
  · cases h
    have hle := scriptsLeft_skipEmpty_le { e.advance data with saved := data }
    simp only [scriptsLeft, advance] at hle ⊢
    grind
  · split at h
    · split at h
      · cases h
      · next next' hload =>
        cases h
        have hle := scriptsLeft_skipEmpty_le next'
        obtain ⟨hlen, hindex, hwrapped⟩ := loadRedeem_shape hload
        simp only [scriptsLeft, hlen, hindex, hwrapped, advance] at hle ⊢
        grind
    · cases h
      have hle := scriptsLeft_skipEmpty_le (e.advance data)
      simp only [scriptsLeft, advance] at hle ⊢
      grind

/-- A step ends a script or executes one of its chunks. -/
theorem step_lt {e e' : Evaluation} (h : e.step = .ok e') :
    e'.scriptsLeft < e.scriptsLeft ∨
      e'.scriptsLeft = e.scriptsLeft ∧ e'.upcoming.length < e.upcoming.length := by
  unfold step at h
  split at h
  · cases h
  · next chunk rest hup =>
    split at h
    · cases h
    · split at h
      · cases h
      · split at h
        · left
          unfold endScript at h
          split at h
          · exact scriptsLeft_nextScript_lt (index_lt_of_upcoming hup) h
          · cases h
        · right
          cases h
          refine ⟨rfl, ?_⟩
          have hlen := congrArg List.length hup
          simp only [upcoming, running, List.length_drop, List.length_cons] at hlen ⊢
          omega

/-- Steps to the end, and judges what is left. -/
def run (e : Evaluation) : Except Fault Unit :=
  match h : e.step with
  | .error f => .error f
  | .ok e' =>
    have := step_lt h
    if e'.finished then checkResult e'.env true e'.machine.data else e'.run
termination_by (e.scriptsLeft, e.upcoming.length)
decreasing_by
  rcases this with hlt | ⟨heq, hlt⟩
  · exact Prod.Lex.left _ _ hlt
  · rw [heq]; exact Prod.Lex.right _ hlt

/-- What each step comes to, up to the first that fails or the one that ends the last script. -/
def trail (e : Evaluation) : List (Except Fault Evaluation) :=
  match h : e.step with
  | .error f => [.error f]
  | .ok e' =>
    have := step_lt h
    .ok e' :: if e'.finished then [] else e'.trail
termination_by (e.scriptsLeft, e.upcoming.length)
decreasing_by
  rcases this with hlt | ⟨heq, hlt⟩
  · exact Prod.Lex.left _ _ hlt
  · rw [heq]; exact Prod.Lex.right _ hlt

/-- The questions that the whole run puts to the context, in order. -/
def asked (e : Evaluation) : List SigQuery :=
  e.queries ++ e.trail.flatMap fun outcome =>
    match outcome with
    | .error _ => []
    | .ok e' => e'.queries

end Evaluation

/-- Evaluates a spend; an evaluation that does not fail allows it. -/
def execute (env : Env) (unlocking locking : Script) : Except Fault Unit :=
  match Evaluation.start env unlocking locking with
  | .error f => .error f
  | .ok e => e.run

/-- Whether the scripts allow the spend. -/
def accepts (env : Env) (unlocking locking : Script) : Bool :=
  match execute env unlocking locking with
  | .error _ => false
  | .ok _ => true

end SpendScript
