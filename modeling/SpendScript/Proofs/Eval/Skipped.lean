import SpendScript.Proofs.Eval.Conditionals

/-!
# SpendScript.Proofs.Eval.Skipped

Chunks in a branch that is not taken. They are still counted and held against the limits, some
opcodes fail though nothing would execute them, and the conditionals among them are followed, which
switches branches of their own on and off; but what runs of them is nothing. So a stretch of such
chunks that closes what it opens either fails, for a reason that is seen from the chunks and the
count alone, or changes the count and nothing else.

* `Chunk.Forbidden`: the chunks that fail even here.
* `exec_skipped`: one chunk, which may stand within conditionals of the stretch itself.
* `skipped_inert`: a stretch of chunks.
-/

namespace SpendScript

/-- Whether the chunk is an operation, of which a script may have only so many. -/
def Chunk.isCounted (c : Chunk) : Bool := Opcode.sixteen.byte < c.code

/-- The chunk must not stand in a script, in whatever branch. -/
def Chunk.Forbidden (limits : Limits) (c : Chunk) : Prop :=
  limits.maxElementSize < c.payload.length ∨
    ∃ op, Opcode.ofByte? c.code = some op ∧
      (op.isDisabled = true ∨ op = .verIf ∨ op = .verNotIf)

namespace Machine

/-- Executes chunks one after the other as the chunk at `offset`. -/
def execEach (env : Env) (chunks : List Chunk) (offset : Nat) :
    Machine → List Chunk → Except Fault Machine
  | m, [] => .ok m
  | m, c :: cs =>
    match m.exec env chunks offset c with
    | .error f => .error f
    | .ok m' => execEach env chunks offset m' cs

/-- The machine with `n` more operations counted. -/
def addOps (m : Machine) (n : Nat) : Machine := { m with opCount := m.opCount + n }

variable {env : Env} {chunks : List Chunk} {offset n : Nat} {m : Machine} {c : Chunk}
  {outer inner : List Bool} {d : Nat}

@[simp] theorem addOps_opCount : (m.addOps n).opCount = m.opCount + n := rfl

@[simp] theorem addOps_executing : (m.addOps n).executing = m.executing := rfl

theorem addOps_addOps (a b : Nat) : (m.addOps a).addOps b = m.addOps (a + b) := by
  simp [addOps, Nat.add_assoc]

/-! ## One chunk -/

theorem executing_eq_false (h : false ∈ m.branches) : m.executing = false := by
  rw [executing, List.all_eq_false]
  exact ⟨false, h, by simp⟩

/-- In a branch that is not taken, conditionals are performed and all else is left out. -/
theorem actionOf_skipped (hx : m.executing = false) :
    actionOf env m c = .ok (match Opcode.ofByte? c.code with
      | some op => if op.isConditional then .perform op else .skip
      | none => .skip) := by
  rw [actionOf, hx]
  cases hnamed : Opcode.ofByte? c.code with
  | none => simp
  | some op =>
    have hbyte := Opcode.byte_eq_of_ofByte? hnamed
    cases hconditional : op.isConditional with
    | false => simp [hconditional]
    | true =>
      have hhigh : ¬ c.code ≤ Chunk.pushData4 := by
        rw [← hbyte]
        revert hconditional
        cases op <;> decide
      simp [hhigh, hconditional]

theorem countOp_eq (hops : m.opCount ≤ env.limits.maxOps) :
    countOp env m c =
      if env.limits.maxOps < m.opCount + c.isCounted.toNat then
        .error (.tooManyOps env.limits.maxOps)
      else .ok (m.addOps c.isCounted.toNat) := by
  cases hc : c.isCounted with
  | false =>
    have hlow : ¬ Opcode.sixteen.byte < c.code := by simpa [Chunk.isCounted] using hc
    rw [countOp, if_neg hlow, if_neg (by simpa using hops)]
    rfl
  | true =>
    have hhigh : Opcode.sixteen.byte < c.code := by simpa [Chunk.isCounted] using hc
    rw [countOp, if_pos hhigh]
    rfl

/-- A conditional within a branch that is not taken changes the branches opened since. -/
theorem perform_skipped (chunks : List Chunk) (offset : Nat) {op : Opcode}
    (houter : false ∈ outer) (hm : m.branches = inner ++ outer) (hop : op.isConditional = true)
    (hnest : op.nest inner.length = some d) :
    Outcome
      (fun m' => ¬ (op = .verIf ∨ op = .verNotIf) ∧
        ∃ inner', inner'.length = d ∧ m' = { m with branches := inner' ++ outer })
      (fun _ => op = .verIf ∨ op = .verNotIf) (m.perform env chunks offset op) := by
  have hx : m.executing = false :=
    executing_eq_false (by rw [hm]; exact List.mem_append_right inner houter)
  cases op
  case ifOp | notIf =>
    cases hnest
    simp only [perform, openBranch, hx, hm, Bool.false_eq_true, if_false]
    exact ⟨by simp, false :: inner, rfl, rfl⟩
  case elseOp =>
    cases inner with
    | nil => cases hnest
    | cons b inner =>
      cases hnest
      simp only [perform, switchBranch, hm, List.cons_append]
      exact ⟨by simp, (!b) :: inner, rfl, rfl⟩
  case endIf =>
    cases inner with
    | nil => cases hnest
    | cons b inner =>
      cases hnest
      simp only [perform, closeBranch, hm, List.cons_append]
      exact ⟨by simp, inner, rfl, rfl⟩
  case verIf => exact .inl rfl
  case verNotIf => exact .inr rfl
  all_goals cases hop

/-- What a chunk that keeps to the limits does in a branch that is not taken. -/
theorem exec_not_executing (hx : m.executing = false)
    (hpayload : c.payload.length ≤ env.limits.maxElementSize)
    (hcount : m.opCount + c.isCounted.toNat ≤ env.limits.maxOps) :
    m.exec env chunks offset c =
      match Opcode.ofByte? c.code with
      | none => .ok (m.addOps c.isCounted.toNat)
      | some op =>
        if op.isDisabled then .error (.disabledOpcode op)
        else if op.isConditional then
          perform env chunks offset (m.addOps c.isCounted.toNat) op
        else .ok (m.addOps c.isCounted.toNat) := by
  have hops : m.opCount ≤ env.limits.maxOps := by omega
  rw [exec, resolve, checkElement, if_neg (Nat.not_lt.2 hpayload), countOp_eq hops,
    if_neg (Nat.not_lt.2 hcount)]
  simp only [actionOf_skipped (addOps_executing.trans hx)]
  cases Opcode.ofByte? c.code with
  | none => rfl
  | some op =>
    cases hdisabled : op.isDisabled <;> cases hconditional : op.isConditional <;>
      simp [Option.filter, hdisabled, hconditional]

theorem forbidden_iff {limits : Limits} (hpayload : c.payload.length ≤ limits.maxElementSize) :
    c.Forbidden limits ↔ ∃ op, Opcode.ofByte? c.code = some op ∧
      (op.isDisabled = true ∨ op = .verIf ∨ op = .verNotIf) :=
  or_iff_right (Nat.not_lt.2 hpayload)

/-- A chunk within a branch that is not taken, `inner` being the branches opened since. -/
theorem exec_skipped (chunks : List Chunk) (offset : Nat) (houter : false ∈ outer)
    (hm : m.branches = inner ++ outer) (hops : m.opCount ≤ env.limits.maxOps)
    (hnest : c.nest inner.length = some d) :
    Outcome
      (fun m' => ¬ c.Forbidden env.limits ∧ m.opCount + c.isCounted.toNat ≤ env.limits.maxOps ∧
        ∃ inner', inner'.length = d ∧
          m' = { m.addOps c.isCounted.toNat with branches := inner' ++ outer })
      (fun _ => c.Forbidden env.limits ∨ env.limits.maxOps < m.opCount + c.isCounted.toNat)
      (m.exec env chunks offset c) := by
  have hx : m.executing = false :=
    executing_eq_false (by rw [hm]; exact List.mem_append_right inner houter)
  by_cases hbig : env.limits.maxElementSize < c.payload.length
  · rw [exec, resolve, checkElement, if_pos hbig]
    exact .inl (.inl hbig)
  have hpayload := Nat.not_lt.1 hbig
  by_cases hmany : env.limits.maxOps < m.opCount + c.isCounted.toNat
  · rw [exec, resolve, checkElement, if_neg hbig, countOp_eq hops, if_pos hmany]
    exact .inr hmany
  have hcount := Nat.not_lt.1 hmany
  rw [exec_not_executing hx hpayload hcount, forbidden_iff hpayload]
  unfold Chunk.nest at hnest
  cases hnamed : Opcode.ofByte? c.code with
  | none =>
    rw [hnamed] at hnest
    cases hnest
    exact ⟨by simp, hcount, inner, rfl, by rw [← hm]; rfl⟩
  | some op =>
    rw [hnamed] at hnest
    simp only [Option.some.injEq, exists_eq_left'] at hnest ⊢
    cases hdisabled : op.isDisabled with
    | true => exact .inl (.inl rfl)
    | false =>
      cases hconditional : op.isConditional with
      | false =>
        have hver : ¬ (op = .verIf ∨ op = .verNotIf) := by
          rintro (rfl | rfl) <;> cases hconditional
        rw [nest_of_not_conditional hconditional] at hnest
        cases hnest
        exact ⟨by simp [hver], hcount, inner, rfl, by rw [← hm]; rfl⟩
      | true =>
        have hm' : (m.addOps c.isCounted.toNat).branches = inner ++ outer := hm
        refine (perform_skipped chunks offset houter hm' hconditional hnest).mono ?_ ?_
        · rintro m' ⟨hver, inner', hlen, rfl⟩
          exact ⟨by simp [hver], hcount, inner', hlen, rfl⟩
        · intro f hver
          exact .inl (.inr hver)

/-! ## A stretch of chunks -/

/-- By induction on the chunks. -/
theorem execEach_skipped (chunks : List Chunk) (offset : Nat) (houter : false ∈ outer)
    (cs : List Chunk) :
    ∀ (inner : List Bool) (d : Nat) (m : Machine), m.branches = inner ++ outer →
      m.opCount ≤ env.limits.maxOps → nesting cs inner.length = some d →
      Outcome
        (fun m' => (¬ ∃ c ∈ cs, c.Forbidden env.limits) ∧
          m.opCount + cs.countP Chunk.isCounted ≤ env.limits.maxOps ∧
          ∃ inner', inner'.length = d ∧
            m' = { m.addOps (cs.countP Chunk.isCounted) with branches := inner' ++ outer })
        (fun _ => (∃ c ∈ cs, c.Forbidden env.limits) ∨
          env.limits.maxOps < m.opCount + cs.countP Chunk.isCounted)
        (execEach env chunks offset m cs) := by
  induction cs with
  | nil =>
    intro inner d m hm hops hnest
    cases hnest
    exact ⟨by simp, hops, inner, rfl, by rw [← hm]; rfl⟩
  | cons c cs ih =>
    intro inner d m hm hops hnest
    rw [nesting] at hnest
    split at hnest
    · cases hnest
    · rename_i d₁ hc
      have hone := exec_skipped chunks offset houter hm hops hc
      rw [execEach]
      cases hexec : m.exec env chunks offset c with
      | error f =>
        obtain hforbidden | hmany := hone.of_error hexec
        · exact .inl ⟨c, List.mem_cons_self, hforbidden⟩
        · refine .inr ?_
          rw [countP_cons_toNat]
          omega
      | ok m₁ =>
        obtain ⟨hallowed, hcount, inner₁, rfl, rfl⟩ := hone.of_ok hexec
        refine (ih inner₁ d _ rfl hcount hnest).mono ?_ ?_
        · rintro m' ⟨hrest, hcounts, inner', hlen, rfl⟩
          simp only [addOps_opCount] at hcounts
          rw [countP_cons_toNat, Nat.add_comm (cs.countP _), ← Nat.add_assoc]
          refine ⟨?_, hcounts, inner', hlen, by rw [← addOps_addOps]; rfl⟩
          rintro ⟨c', hc', hforbidden⟩
          obtain rfl | hc' := List.mem_cons.1 hc'
          · exact hallowed hforbidden
          · exact hrest ⟨c', hc', hforbidden⟩
        · rintro f (⟨c', hc', hforbidden⟩ | hmany)
          · exact .inl ⟨c', List.mem_cons_of_mem c hc', hforbidden⟩
          · refine .inr ?_
            rw [countP_cons_toNat]
            simp only [addOps_opCount] at hmany
            omega

end Machine

namespace Evaluation

variable {env : Env} {unlocking locking : Script} {e : Evaluation}

theorem Stage.opCount_le {n : Nat} (h : Stage env unlocking locking n e) :
    e.machine.opCount ≤ env.limits.maxOps := by
  have hstep : ∀ {chunks offset c} {m m' : Machine}, m.opCount ≤ env.limits.maxOps →
      m.exec env chunks offset c = .ok m' → m'.depth ≤ env.limits.maxStackSize →
        m'.opCount ≤ env.limits.maxOps :=
    fun hm hexec _ => (Machine.exec_outcome.of_ok hexec).opCount hm
  cases h with
  | unlocking hk => exact hk.invariant hstep (Nat.zero_le _)
  | locking hn hleft hk => exact hk.invariant hstep (Nat.zero_le _)
  | redeem hn hwraps hleft hread hk => exact hk.invariant hstep (Nat.zero_le _)
  | ended => exact Nat.zero_le _
  | endedRedeem => exact Nat.zero_le _

/-- **Skipped code is inert.** Within a branch that is not taken, chunks that close what they open
fail where one of them is forbidden or their count goes past the limit, and there only; otherwise
they change the count and nothing else. -/
theorem skipped_inert (h : Reachable env unlocking locking e) (hskip : false ∈ e.machine.branches)
    {cs : List Chunk} (hbalanced : Balanced cs) :
    ((∃ f, e.machine.execEach env e.running.chunks e.offset cs = .error f) ↔
      (∃ c ∈ cs, c.Forbidden env.limits) ∨
        env.limits.maxOps < e.machine.opCount + cs.countP Chunk.isCounted) ∧
    ∀ m, e.machine.execEach env e.running.chunks e.offset cs = .ok m →
      m = { e.machine with opCount := e.machine.opCount + cs.countP Chunk.isCounted } := by
  obtain ⟨n, hstage⟩ := h.stage
  have hrun := Machine.execEach_skipped e.running.chunks e.offset hskip cs [] 0
    e.machine rfl hstage.opCount_le (balanced_iff_nesting.1 hbalanced)
  refine ⟨⟨?_, ?_⟩, ?_⟩
  · rintro ⟨f, hf⟩
    exact hrun.of_error hf
  · intro hbad
    cases hexec : e.machine.execEach env e.running.chunks e.offset cs with
    | error f => exact ⟨f, rfl⟩
    | ok m =>
      obtain ⟨hallowed, hcount, -⟩ := hrun.of_ok hexec
      obtain hforbidden | hmany := hbad
      · exact absurd hforbidden hallowed
      · omega
  · intro m hexec
    obtain ⟨-, -, inner', hlen, rfl⟩ := hrun.of_ok hexec
    rw [List.length_eq_zero_iff.1 hlen]
    rfl

/-- Within a branch that is not taken, a reserved opcode is passed over and `OP_VERIF` fails. -/
theorem skipped_inert_reserved :
    ∃ e, Reachable ⟨.none, {}, none, 0⟩ ⟨[.push 1 [1], .op 0]⟩ nestedConditional e ∧
      e.machine.branches = [false] ∧
      Balanced [.ofOpcode .notIf, .ofOpcode .elseOp, .ofOpcode .reserved, .ofOpcode .endIf] ∧
      (∀ m, e.machine.execEach ⟨.none, {}, none, 0⟩ e.running.chunks e.offset
          [.ofOpcode .notIf, .ofOpcode .elseOp, .ofOpcode .reserved, .ofOpcode .endIf] = .ok m →
        m = ⟨[[1]], [], [false], 4, 0⟩) ∧
      ∃ f, e.machine.execEach ⟨.none, {}, none, 0⟩ e.running.chunks e.offset
        [.ofOpcode .verIf] = .error f := by
  have hreach : Reachable ⟨.none, {}, none, 0⟩ ⟨[.push 1 [1], .op 0]⟩ nestedConditional
      ⟨_, _, _, _, _, _, _⟩ := reachable_iff.2 ⟨3, rfl⟩
  have hbalanced : Balanced
      [.ofOpcode .notIf, .ofOpcode .elseOp, .ofOpcode .reserved, .ofOpcode .endIf] :=
    balanced_iff_nesting.2 rfl
  have hverIf : Balanced [.ofOpcode .verIf] := balanced_iff_nesting.2 rfl
  have hforbidden : (Chunk.ofOpcode .verIf).Forbidden {} := .inr ⟨.verIf, rfl, .inr (.inl rfl)⟩
  exact ⟨_, hreach, rfl, hbalanced, (skipped_inert hreach List.mem_cons_self hbalanced).2,
    (skipped_inert hreach List.mem_cons_self hverIf).1.2
      (.inl ⟨_, List.mem_cons_self, hforbidden⟩)⟩

end Evaluation
end SpendScript
