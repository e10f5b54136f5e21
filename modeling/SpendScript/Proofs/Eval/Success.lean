import SpendScript.Proofs.Eval.Phases

/-!
# SpendScript.Proofs.Eval.Success

What it takes for an evaluation to succeed, and what it comes to then, layer by layer.

* `exec_data`, `exec_ofOpcode`: one chunk in a taken branch.
* `execAll_cons_eq_ok_iff`, `execAll_append`, `runOn_eq_ok_iff`: the chunks of a script.
* `execute_eq_ok_iff`: a spend, whose scripts as a whole have to meet the rules of `Admitted`.
-/

namespace SpendScript

namespace Machine

variable {env : Env} {chunks : List Chunk} {offset : Nat} {m m' : Machine}

/-! ## One chunk -/

theorem onData_eq_ok_iff {f : Stack → Except Fault Stack} :
    m.onData f = .ok m' ↔ ∃ data, f m.data = .ok data ∧ { m with data := data } = m' := by
  unfold onData
  cases f m.data <;> simp

theorem andVerify_eq_ok_iff {op : Opcode} {r : Except Fault Machine} :
    andVerify op r = .ok m' ↔
      ∃ m₁ x rest, r = .ok m₁ ∧ m₁.data = x :: rest ∧ Number.truth x = true ∧
        { m₁ with data := rest } = m' := by
  cases r with
  | error f => simp [andVerify]
  | ok m₁ =>
    simp only [andVerify, verifyTop, Stack.popBool]
    cases hdata : m₁.data with
    | nil => simp [Stack.pop, hdata]
    | cons x rest =>
      cases hx : Number.truth x with
      | false => grind [Stack.pop]
      | true => grind [Stack.pop]

/-- A check of one signature. A false one that is not empty fails where the flags say so. -/
theorem checkSig_eq_ok_iff :
    m.checkSig env chunks = .ok m' ↔
      ∃ key sig rest valid, m.data = key :: sig :: rest ∧
        env.checkSig (signedCode chunks m.codeStart [sig]) sig key = .ok valid ∧
        (valid = false → env.flags.has .nullFail = true → sig = []) ∧
        { m with data := Stack.pushBool valid rest } = m' := by
  unfold checkSig
  constructor
  · intro h
    split at h
    · rename_i key sig rest hdata
      split at h
      · cases h
      · rename_i valid hvalid
        split at h
        · cases h
        · rename_i hnull
          cases h
          exact ⟨key, sig, rest, valid, hdata, hvalid, by simpa using hnull, rfl⟩
    · cases h
  · rintro ⟨key, sig, rest, valid, hdata, hvalid, hnull, rfl⟩
    simp only [hdata, hvalid]
    rw [if_neg]
    simpa using hnull

theorem sixteen_lt_byte_of_isDisabled {op : Opcode} (h : op.isDisabled = true) :
    Opcode.sixteen.byte < op.byte := by
  revert h
  cases op <;> decide

/-- No opcode up to the one for 16 is disabled. -/
theorem filter_isDisabled_of_le {b : UInt8} (h : b ≤ Opcode.sixteen.byte) :
    (Opcode.ofByte? b).filter Opcode.isDisabled = none := by
  rw [Option.filter_eq_none_iff]
  intro op hop hdisabled
  have hlt := sixteen_lt_byte_of_isDisabled hdisabled
  rw [Opcode.byte_eq_of_ofByte? hop] at hlt
  exact absurd h (UInt8.not_le.2 hlt)

theorem countOp_of_le {c : Chunk} (h : c.code ≤ Opcode.sixteen.byte) : countOp env m c = .ok m :=
  if_neg (UInt8.not_lt.2 h)

/-- Data, and the opcode for zero, which stands for no data. -/
theorem exec_data {c : Chunk} (hcode : c.code ≤ Chunk.pushData4) (hx : m.executing = true) :
    m.exec env chunks offset c =
      if env.limits.maxElementSize < c.payload.length then
        .error (.elementTooBig c.payload.length env.limits.maxElementSize)
      else if env.flags.has .minimalData && !c.isMinimalPush then .error (.longPush c)
      else .ok (m.push c.payload) := by
  have hlow : c.code ≤ Opcode.sixteen.byte := UInt8.le_trans hcode (by decide)
  have haction : actionOf env m c =
      if env.flags.has .minimalData && !c.isMinimalPush then .error (.longPush c)
      else .ok (.push c.payload) := by
    rw [actionOf, if_pos hcode, hx]
    rfl
  simp only [exec, resolve, checkElement, countOp_of_le hlow, filter_isDisabled_of_le hlow, haction]
  by_cases hbig : env.limits.maxElementSize < c.payload.length
  · simp only [hbig, if_true]
  · cases hform : env.flags.has .minimalData && !c.isMinimalPush <;> simp [hbig]

theorem exec_data_eq_ok_iff {c : Chunk} (hcode : c.code ≤ Chunk.pushData4)
    (hx : m.executing = true) :
    m.exec env chunks offset c = .ok m' ↔
      c.payload.length ≤ env.limits.maxElementSize ∧
        (env.flags.has .minimalData = true → c.isMinimalPush = true) ∧
        m.push c.payload = m' := by
  rw [exec_data hcode hx]
  by_cases hbig : env.limits.maxElementSize < c.payload.length
  · simp [hbig, Nat.not_le.2 hbig]
  · cases hmin : env.flags.has .minimalData <;> cases hform : c.isMinimalPush <;>
      simp [hbig, Nat.not_lt.1 hbig]

theorem checkElement_ofOpcode (op : Opcode) : checkElement env (.ofOpcode op) = .ok () :=
  if_neg (Nat.not_lt_zero _)

/-- An opcode that is not disabled, once it is counted. -/
theorem exec_of_countOp {op : Opcode} (hopcode : Chunk.pushData4 < op.byte)
    (henabled : op.isDisabled = false) (hcount : countOp env m (.ofOpcode op) = .ok m')
    (hx : m'.executing = true) :
    m.exec env chunks offset (.ofOpcode op) = m'.perform env chunks offset op := by
  have hdisabled : (Opcode.ofByte? (Chunk.ofOpcode op).code).filter Opcode.isDisabled = none := by
    simp [Chunk.ofOpcode, Chunk.code, Opcode.ofByte?_byte, henabled]
  have haction : actionOf env m' (.ofOpcode op) = .ok (.perform op) := by
    simp [actionOf, Chunk.ofOpcode, Chunk.code, UInt8.not_le.2 hopcode, Opcode.ofByte?_byte, hx]
  simp only [exec, resolve, checkElement_ofOpcode, hcount, hdisabled, haction]

theorem exec_ofOpcode {op : Opcode} (hcounted : Opcode.sixteen.byte < op.byte)
    (henabled : op.isDisabled = false) (hx : m.executing = true) :
    m.exec env chunks offset (.ofOpcode op) =
      if env.limits.maxOps < m.opCount + 1 then .error (.tooManyOps env.limits.maxOps)
      else perform env chunks offset { m with opCount := m.opCount + 1 } op := by
  have hopcode : Chunk.pushData4 < op.byte :=
    UInt8.lt_trans (by decide : Chunk.pushData4 < Opcode.sixteen.byte) hcounted
  have hcount : countOp env m (.ofOpcode op) = m.count env 1 := if_pos hcounted
  by_cases hmany : env.limits.maxOps < m.opCount + 1
  · simp only [exec, resolve, checkElement_ofOpcode, hcount, count, hmany, if_true]
  · rw [if_neg hmany]
    exact exec_of_countOp hopcode henabled (by rw [hcount, count, if_neg hmany]) hx

/-- An opcode for which there is room in the limit on operations. -/
theorem exec_ofOpcode_of_le {op : Opcode} (hcounted : Opcode.sixteen.byte < op.byte)
    (henabled : op.isDisabled = false) (hx : m.executing = true)
    (hops : m.opCount + 1 ≤ env.limits.maxOps) :
    m.exec env chunks offset (.ofOpcode op) =
      perform env chunks offset { m with opCount := m.opCount + 1 } op := by
  rw [exec_ofOpcode hcounted henabled hx, if_neg (Nat.not_lt.2 hops)]

theorem exec_ofOpcode_eq_ok_iff {op : Opcode} (hcounted : Opcode.sixteen.byte < op.byte)
    (henabled : op.isDisabled = false) (hx : m.executing = true) :
    m.exec env chunks offset (.ofOpcode op) = .ok m' ↔
      m.opCount + 1 ≤ env.limits.maxOps ∧
        perform env chunks offset { m with opCount := m.opCount + 1 } op = .ok m' := by
  rw [exec_ofOpcode hcounted henabled hx]
  by_cases hmany : env.limits.maxOps < m.opCount + 1
  · simp [hmany, Nat.not_le.2 hmany]
  · simp [hmany, Nat.not_lt.1 hmany]

theorem exec_ne_ok_of_isDisabled {op : Opcode} (h : op.isDisabled = true) :
    m.exec env chunks offset (.ofOpcode op) ≠ .ok m' := by
  have hdisabled : (Opcode.ofByte? (Chunk.ofOpcode op).code).filter Opcode.isDisabled = some op := by
    simp [Chunk.ofOpcode, Chunk.code, Opcode.ofByte?_byte, h]
  simp only [exec, resolve, hdisabled]
  cases checkElement env (.ofOpcode op) with
  | error f => simp
  | ok _ => cases countOp env m (.ofOpcode op) <;> simp

/-! ## The chunks of a script -/

theorem execAll_nil_eq_ok_iff : execAll env chunks offset m [] = .ok m' ↔ m = m' := by
  rw [execAll, Except.ok.injEq]

theorem execAll_cons_eq_ok_iff {c : Chunk} {cs : List Chunk} :
    execAll env chunks offset m (c :: cs) = .ok m' ↔
      ∃ m₁, m.exec env chunks offset c = .ok m₁ ∧ m₁.depth ≤ env.limits.maxStackSize ∧
        execAll env chunks (offset + 1) m₁ cs = .ok m' := by
  rw [execAll]
  cases m.exec env chunks offset c with
  | error f => simp
  | ok m₁ =>
    by_cases hdeep : env.limits.maxStackSize < m₁.depth
    · simp [hdeep, Nat.not_le.2 hdeep]
    · simp [hdeep, Nat.not_lt.1 hdeep]

theorem execAll_append (as bs : List Chunk) :
    ∀ (offset : Nat) (m : Machine),
      execAll env chunks offset m (as ++ bs) = match execAll env chunks offset m as with
        | .error f => .error f
        | .ok m' => execAll env chunks (offset + as.length) m' bs := by
  induction as with
  | nil =>
    intro offset m
    rfl
  | cons c as ih =>
    intro offset m
    simp only [List.cons_append, execAll]
    cases m.exec env chunks offset c with
    | error f => rfl
    | ok m₁ =>
      by_cases hdeep : env.limits.maxStackSize < m₁.depth
      · simp only [hdeep, if_true]
      · simp only [hdeep, if_false, ih, List.length_cons, Nat.add_assoc, Nat.add_comm 1]

end Machine

theorem runOn_eq_ok_iff {env : Env} {s : Script} {data data' : Stack} :
    s.runOn env data = .ok data' ↔
      ∃ m, Machine.execAll env s.chunks 0 (Machine.fresh data) s.chunks = .ok m ∧
        m.branches = [] ∧ m.data = data' := by
  rw [Script.runOn]
  cases Machine.execAll env s.chunks 0 (Machine.fresh data) s.chunks with
  | error f => simp
  | ok m => cases hb : m.branches <;> simp [hb]

theorem trueTop_eq_ok_iff {data : Stack} :
    trueTop data = .ok () ↔ ∃ top rest, data = top :: rest ∧ Number.truth top = true := by
  unfold trueTop
  cases data with
  | nil => simp
  | cons top rest => cases htop : Number.truth top <;> simp [htop]

theorem finalCheck_eq_ok_iff {env : Env} {data : Stack} :
    finalCheck env data = .ok () ↔
      ∃ top rest, data = top :: rest ∧ Number.truth top = true ∧
        (env.flags.has .cleanStack = true → rest = []) := by
  unfold finalCheck
  cases data with
  | nil => simp
  | cons top rest =>
    have htop := @trueTop_eq_ok_iff (top :: rest)
    cases env.flags.has .cleanStack <;> cases rest <;> simp [htop]

/-! ## A spend -/

theorem checkScript_eq_ok_iff {limits : Limits} {role : ScriptRole} {s : Script} :
    limits.checkScript role s = .ok () ↔ s.encodedLength ≤ limits.maxScriptSize := by
  unfold Limits.checkScript
  by_cases hbig : limits.maxScriptSize < s.encodedLength
  · simp [hbig, Nat.not_le.2 hbig]
  · simp [hbig, Nat.not_lt.1 hbig]

theorem runRedeem_eq_ok_iff {env : Env} {left data : Stack} :
    runRedeem env left = .ok data ↔
      ∃ top rest redeem, left = top :: rest ∧ Script.ofBytes top = .ok redeem ∧
        redeem.encodedLength ≤ env.limits.maxScriptSize ∧ redeem.runOn env rest = .ok data := by
  cases left with
  | nil => simp [runRedeem]
  | cons top rest =>
    cases hread : Script.ofBytes top with
    | error err => simp [runRedeem, hread]
    | ok redeem =>
      by_cases hbig : env.limits.maxScriptSize < redeem.encodedLength
      · simp [runRedeem, hread, hbig, Nat.not_le.2 hbig]
      · simp [runRedeem, hread, hbig, Nat.not_lt.1 hbig, and_assoc]

theorem phases_eq_ok_iff {env : Env} {unlocking locking : Script} :
    phases env unlocking locking = .ok () ↔
      ∃ left, unlocking.runOn env [] = .ok left ∧ phasesFrom env locking left = .ok () := by
  rw [phases]
  cases unlocking.runOn env [] <;> simp

theorem phasesFrom_eq_ok_iff {env : Env} {locking : Script} {left : Stack}
    (hplain : env.wraps locking = false) :
    phasesFrom env locking left = .ok () ↔
      ∃ data, locking.runOn env left = .ok data ∧ finalCheck env data = .ok () := by
  rw [phasesFrom, hplain]
  cases locking.runOn env left <;> simp

theorem phasesFrom_eq_ok_iff_of_wraps {env : Env} {locking : Script} {left : Stack}
    (hwraps : env.wraps locking = true) :
    phasesFrom env locking left = .ok () ↔
      ∃ data, locking.runOn env left = .ok data ∧ trueTop data = .ok () ∧
        ∃ data', runRedeem env left = .ok data' ∧ finalCheck env data' = .ok () := by
  rw [phasesFrom, hwraps]
  cases locking.runOn env left with
  | error f => simp
  | ok data =>
    cases hresult : trueTop data <;>
      cases runRedeem env left <;> simp [hresult]

/-- The rules about the scripts of a spend as a whole. -/
structure Admitted (env : Env) (unlocking locking : Script) : Prop where
  flags : env.flags.has .cleanStack = true → env.flags.has .payToScriptHash = true
  unlockingSize : unlocking.encodedLength ≤ env.limits.maxScriptSize
  lockingSize : locking.encodedLength ≤ env.limits.maxScriptSize
  nonempty : unlocking.isEmpty = true → locking.isEmpty = false
  pushOnly : env.flags.has .sigPushOnly = true → unlocking.isPushOnly = true
  wrappedPushOnly : env.wraps locking = true → unlocking.isPushOnly = true

theorem start_isOk_iff {env : Env} {unlocking locking : Script} :
    (∃ e, Evaluation.start env unlocking locking = .ok e) ↔ Admitted env unlocking locking := by
  unfold Evaluation.start
  constructor
  · rintro ⟨e, h⟩
    simp only at h
    split at h
    · cases h
    · rename_i hflags
      split at h
      · cases h
      · rename_i hunlocking
        split at h
        · cases h
        · rename_i hlocking
          split at h
          · cases h
          · rename_i hempty
            split at h
            · cases h
            · rename_i hpush
              split at h
              · cases h
              · rename_i hwrapped
                exact ⟨by simpa using hflags, checkScript_eq_ok_iff.1 hunlocking,
                  checkScript_eq_ok_iff.1 hlocking, by simpa using hempty, by simpa using hpush,
                  by simpa [Env.wraps] using hwrapped⟩
  · intro h
    have hflags := h.flags
    have hempty := h.nonempty
    have hpush := h.pushOnly
    have hwrapped := h.wrappedPushOnly
    simp only [checkScript_eq_ok_iff.2 h.unlockingSize, checkScript_eq_ok_iff.2 h.lockingSize]
    rw [if_neg, if_neg, if_neg, if_neg]
    · exact ⟨_, rfl⟩
    · simpa [Env.wraps] using hwrapped
    · simpa using hpush
    · simpa using hempty
    · simpa using hflags

theorem execute_eq_ok_iff {env : Env} {unlocking locking : Script} :
    execute env unlocking locking = .ok () ↔
      Admitted env unlocking locking ∧ phases env unlocking locking = .ok () := by
  rw [← start_isOk_iff, execute]
  cases hstart : Evaluation.start env unlocking locking with
  | error f => simp
  | ok e => simp [Evaluation.run_of_start hstart]

end SpendScript
