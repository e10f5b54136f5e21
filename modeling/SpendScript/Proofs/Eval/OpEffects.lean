import SpendScript.Proofs.Eval.RelaxedOps
import SpendScript.Proofs.Eval.StackOutcomes
import SpendScript.Proofs.Eval.Success

/-!
# SpendScript.Proofs.Eval.OpEffects

What one chunk may do to a machine, whatever the stacks hold: how long its new items are, how many
operations it counts, where signatures may begin to cover the script, and how many conditionals it
leaves open. The last depends on the opcode alone. What holds of a machine throughout a script is
derived from this, and so is which faults a script can end with.

* `Opcode.nest`, `Chunk.nest`: the number of open conditionals after an opcode or a chunk.
* `perform_outcome`: one opcode.
* `exec_outcome`: one chunk.
-/

namespace SpendScript

/-- The number of open conditionals after the opcode, and nothing where it stands outside of any. -/
def Opcode.nest : Opcode → Nat → Option Nat
  | .ifOp, d | .notIf, d => some (d + 1)
  | .elseOp, 0 | .endIf, 0 => none
  | .elseOp, d + 1 => some (d + 1)
  | .endIf, d + 1 => some d
  | _, d => some d

/-- The number of open conditionals after the chunk. -/
def Chunk.nest (c : Chunk) (d : Nat) : Option Nat :=
  match Opcode.ofByte? c.code with
  | some named => named.nest d
  | none => some d

/-- The context of the spend can fail with this fault. -/
def Env.Reports (env : Env) (f : Fault) : Prop :=
  ∃ ctx, env.context = some ctx ∧
    ((∃ q, ctx.verify q = .error f) ∨ ∃ i, ctx.sequence i = .error f)

/-- An internal fault is the context's, and not the evaluation's own. -/
def Env.Explains (env : Env) (f : Fault) : Prop := f.code = .internal → env.Reports f

theorem Fault.Ordinary.explained {f : Fault} (h : f.Ordinary) (env : Env) : env.Explains f :=
  fun hinternal => absurd hinternal h

theorem outcome_fault {α : Type} {p : α → Prop} {env : Env} {f : Fault} (h : f.code ≠ .internal) :
    Outcome p env.Explains (.error f) :=
  Fault.Ordinary.explained h env

namespace Machine

/-- The items of both stacks. -/
def items (m : Machine) : List Bytes := m.data ++ m.alt

@[simp] theorem items_fresh (data : Stack) : (fresh data).items = data := List.append_nil data

/-- What an opcode at `offset` may do to a machine. -/
structure Effect (env : Env) (offset : Nat) (op : Opcode) (m m' : Machine) : Prop where
  /-- The depth of the data stack is the only number that has no bound of its own. -/
  items : Stack.NoLongerThan m'.items (Number.encode m.data.depth :: m.items)
  opCount : m.opCount ≤ env.limits.maxOps → m'.opCount ≤ env.limits.maxOps
  codeStart : m'.codeStart = m.codeStart ∨ m'.codeStart = offset + 1
  branches : op.nest m.branches.length = some m'.branches.length

section Opcodes

variable {env : Env} {chunks : List Chunk} {offset : Nat} {op : Opcode} {m m₁ : Machine}

/-- An opcode that changes the stacks only. -/
theorem effect_of_items {data alt : Stack} (hop : ∀ d, op.nest d = some d)
    (h : Stack.NoLongerThan (data ++ alt) (Number.encode m.data.depth :: m.items)) :
    Effect env offset op m { m with data := data, alt := alt } :=
  ⟨h, fun hcount => hcount, .inl rfl, hop m.branches.length⟩

theorem noLongerThan_items {data : Stack} (h : data.NoLongerThan m.data) :
    Stack.NoLongerThan (data ++ m.alt) (Number.encode m.data.depth :: m.items) := by
  intro x hx
  obtain hx | hx := List.mem_append.1 hx
  · obtain hshort | ⟨y, hy, hxy⟩ := h x hx
    · exact .inl hshort
    · exact .inr ⟨y, List.mem_cons_of_mem _ (List.mem_append_left _ hy), hxy⟩
  · exact .inr ⟨x, List.mem_cons_of_mem _ (List.mem_append_right _ hx), Nat.le_refl _⟩

theorem effect_of_data {data : Stack} (hop : ∀ d, op.nest d = some d)
    (h : data.NoLongerThan m.data) : Effect env offset op m { m with data := data } :=
  effect_of_items hop (noLongerThan_items h)

theorem effect_refl (hop : ∀ d, op.nest d = some d) : Effect env offset op m m :=
  effect_of_data hop (Stack.NoLongerThan.refl m.data)

/-- Items that are taken off after an opcode. -/
theorem Effect.drop (h : Effect env offset op m m₁) {data : Stack} (hdata : data ⊆ m₁.data) :
    Effect env offset op m { m₁ with data := data } := by
  refine ⟨?_, h.opCount, h.codeStart, h.branches⟩
  exact (Stack.noLongerThan_of_subset (List.append_subset.2
    ⟨List.subset_append_of_subset_left _ hdata, List.subset_append_right _ _⟩)).trans h.items

theorem onData_outcome {f : Stack → Except Fault Stack} (hop : ∀ d, op.nest d = some d)
    (hf : ∀ s, Outcome (·.NoLongerThan s) Fault.Ordinary (f s)) :
    Outcome (Effect env offset op m) env.Explains (m.onData f) := by
  unfold onData
  split
  · rename_i hdata
    exact ((hf m.data).of_error hdata).explained env
  · rename_i data hdata
    exact effect_of_data hop ((hf m.data).of_ok hdata)

theorem push_outcome {x : Bytes} (hop : ∀ d, op.nest d = some d) (hx : x.length ≤ 32) :
    Outcome (Effect env offset op m) env.Explains (.ok (m.push x)) :=
  effect_of_data hop ((Stack.NoLongerThan.refl m.data).cons (.inl hx))

theorem notTrue_ordinary (op : Opcode) : (Fault.notTrue op).Ordinary := by
  cases op <;> simp [Fault.Ordinary, Fault.code, Fault.notTrueCode]

theorem verifyTop_outcome {name : Opcode} (h : Effect env offset op m m₁) :
    Outcome (Effect env offset op m) env.Explains (m₁.verifyTop name) := by
  unfold verifyTop
  cases hdata : m₁.data with
  | nil => exact outcome_fault (by simp [Fault.code])
  | cons x rest =>
    cases hx : Number.truth x with
    | true =>
      simp only [Stack.popBool, Stack.pop, hx]
      exact h.drop (by rw [hdata]; exact List.subset_cons_self x rest)
    | false =>
      simp only [Stack.popBool, Stack.pop, hx]
      exact (notTrue_ordinary name).explained env

theorem andVerify_outcome {name : Opcode} {r : Except Fault Machine}
    (h : Outcome (Effect env offset op m) env.Explains r) :
    Outcome (Effect env offset op m) env.Explains (andVerify name r) := by
  cases r with
  | error f => exact h
  | ok m₁ => exact verifyTop_outcome h

/-! ## Conditionals -/

theorem openBranch_outcome {wanted : Bool} (hop : ∀ d, op.nest d = some (d + 1)) :
    Outcome (Effect env offset op m) env.Explains (m.openBranch wanted) := by
  have hrefl := Stack.NoLongerThan.refl m.data
  unfold openBranch
  split
  · cases hdata : m.data with
    | nil => exact outcome_fault (by simp [Fault.code])
    | cons x rest =>
      rw [hdata] at hrefl
      have hrest : Stack.NoLongerThan rest m.data := by rw [hdata]; exact hrefl.tail
      exact ⟨noLongerThan_items hrest, fun hcount => hcount, .inl rfl, hop m.branches.length⟩
  · exact ⟨noLongerThan_items hrefl, fun hcount => hcount, .inl rfl, hop m.branches.length⟩

theorem switchBranch_outcome :
    Outcome (Effect env offset .elseOp m) env.Explains m.switchBranch := by
  have hitems := noLongerThan_items (Stack.NoLongerThan.refl m.data)
  unfold switchBranch
  split
  · exact outcome_fault (by simp [Fault.code])
  · rename_i b rest hbranches
    exact ⟨hitems, fun hcount => hcount, .inl rfl, by simp [hbranches, Opcode.nest]⟩

theorem closeBranch_outcome :
    Outcome (Effect env offset .endIf m) env.Explains m.closeBranch := by
  have hitems := noLongerThan_items (Stack.NoLongerThan.refl m.data)
  unfold closeBranch
  split
  · exact outcome_fault (by simp [Fault.code])
  · rename_i b rest hbranches
    exact ⟨hitems, fun hcount => hcount, .inl rfl, by simp [hbranches, Opcode.nest]⟩

/-! ## Lock times -/

theorem upgradableNop_outcome {name : Opcode} (hop : ∀ d, op.nest d = some d) :
    Outcome (Effect env offset op m) env.Explains (m.upgradableNop env name) := by
  unfold upgradableNop
  split
  · exact outcome_fault (by simp [Fault.code])
  · exact effect_refl hop

theorem lockTimeCheck_outcome (tx border operand : Nat) :
    Outcome (fun _ => True) Fault.Ordinary (LockTime.check tx border operand) := by
  unfold LockTime.check
  split
  · simp [Outcome, Fault.Ordinary, Fault.code]
  · split
    · simp [Outcome, Fault.Ordinary, Fault.code]
    · trivial

theorem reports_of_sequence {ctx : Context} (hctx : env.context = some ctx) {i : Nat} {f : Fault}
    (h : ctx.sequence i = .error f) : env.Explains f :=
  fun _ => ⟨ctx, hctx, .inr ⟨i, h⟩⟩

theorem checkLockTime_outcome (hop : ∀ d, op.nest d = some d) :
    Outcome (Effect env offset op m) env.Explains (m.checkLockTime env) := by
  unfold checkLockTime
  split
  · exact upgradableNop_outcome hop
  · split
    · exact outcome_fault (by simp [Fault.code])
    · rename_i ctx hctx
      split
      · rename_i hoperand
        exact ((Stack.peekNumber_outcome _ _ _).of_error hoperand).explained env
      · split
        · exact outcome_fault (by simp [Fault.code])
        · split
          · rename_i hcheck
            exact ((lockTimeCheck_outcome _ _ _).of_error hcheck).explained env
          · split
            · rename_i hsequence
              exact reports_of_sequence hctx hsequence
            · split
              · exact outcome_fault (by simp [Fault.code])
              · exact effect_refl hop

theorem checkSequence_outcome (hop : ∀ d, op.nest d = some d) :
    Outcome (Effect env offset op m) env.Explains (m.checkSequence env) := by
  unfold checkSequence
  split
  · exact upgradableNop_outcome hop
  · split
    · exact outcome_fault (by simp [Fault.code])
    · rename_i ctx hctx
      split
      · rename_i hoperand
        exact ((Stack.peekNumber_outcome _ _ _).of_error hoperand).explained env
      · split
        · exact outcome_fault (by simp [Fault.code])
        · split
          · exact effect_refl hop
          · split
            · exact outcome_fault (by simp [Fault.code])
            · split
              · rename_i hsequence
                exact reports_of_sequence hctx hsequence
              · split
                · exact outcome_fault (by simp [Fault.code])
                · split
                  · rename_i hcheck
                    exact ((lockTimeCheck_outcome _ _ _).of_error hcheck).explained env
                  · exact effect_refl hop

/-! ## Signatures -/

theorem badSignature_ordinary (fault : SigFault) : (Fault.badSignature fault).Ordinary := by
  cases fault <;> simp [Fault.Ordinary, Fault.code, SigFault.code]

theorem checkHashType_outcome (t : UInt8) :
    Outcome (fun _ => True) Fault.Ordinary (env.checkHashType t) := by
  unfold Env.checkHashType
  split
  · simp [Outcome, Fault.Ordinary, Fault.code]
  · trivial

theorem checkKeyForm_outcome (key : Bytes) :
    Outcome (fun _ => True) Fault.Ordinary (env.checkKeyForm key) := by
  simp only [Env.checkKeyForm]
  split
  · simp [Outcome, Fault.Ordinary, Fault.code]
  · trivial

theorem checkSigForm_outcome (sig : Bytes) :
    Outcome (fun _ => True) Fault.Ordinary (env.checkSigForm sig) := by
  unfold Env.checkSigForm
  split
  · trivial
  · split
    · exact badSignature_ordinary _
    · split
      · simp [Outcome, Fault.Ordinary, Fault.code]
      · trivial

theorem sigQuery?_outcome (code : Script) (sig key : Bytes) :
    Outcome (fun _ => True) Fault.Ordinary (env.sigQuery? code sig key) := by
  unfold Env.sigQuery?
  split
  · split
    · rename_i hkey
      exact (checkKeyForm_outcome key).of_error hkey
    · trivial
  · rename_i t _
    split
    · rename_i htype
      exact (checkHashType_outcome t).of_error htype
    · split
      · rename_i hform
        exact (checkSigForm_outcome sig.dropLast).of_error hform
      · split
        · rename_i hkey
          exact (checkKeyForm_outcome key).of_error hkey
        · trivial

theorem ask_outcome (q : SigQuery) : Outcome (fun _ => True) env.Explains (env.ask q) := by
  unfold Env.ask
  split
  · exact outcome_fault (by simp [Fault.code])
  · rename_i ctx hctx
    cases hverify : ctx.verify q with
    | error f => exact fun _ => ⟨ctx, hctx, .inl ⟨q, hverify⟩⟩
    | ok valid => trivial

theorem sigCheck_outcome (code : Script) (sig key : Bytes) :
    Outcome (fun _ => True) env.Explains (env.checkSig code sig key) := by
  unfold Env.checkSig
  split
  · rename_i hquery
    exact ((sigQuery?_outcome code sig key).of_error hquery).explained env
  · trivial
  · exact ask_outcome _

/-- By induction on the keys. -/
theorem matchSigs_outcome {check : Bytes → Bytes → Except Fault Bool} {q : Fault → Prop}
    (hcheck : ∀ sig key, Outcome (fun _ => True) q (check sig key)) (keys : List Bytes) :
    ∀ sigs, Outcome (fun _ => True) q (matchSigs check sigs keys) := by
  induction keys with
  | nil =>
    intro sigs
    cases sigs with
    | nil => trivial
    | cons sig sigs => trivial
  | cons key keys ih =>
    intro sigs
    cases sigs with
    | nil => trivial
    | cons sig sigs =>
      simp only [matchSigs]
      split
      · rename_i hfault
        exact (hcheck sig key).of_error hfault
      · rename_i found _
        generalize (if found = true then sigs else sig :: sigs) = left
        split
        · trivial
        · exact ih left

theorem checkSig_outcome (hop : ∀ d, op.nest d = some d) :
    Outcome (Effect env offset op m) env.Explains (m.checkSig env chunks) := by
  unfold checkSig
  split
  · rename_i key sig rest hdata
    have hrest : Stack.NoLongerThan rest m.data := by
      rw [hdata]
      exact (Stack.NoLongerThan.refl (key :: sig :: rest)).tail.tail
    split
    · rename_i hcheck
      exact (sigCheck_outcome _ sig key).of_error hcheck
    · split
      · exact outcome_fault (by simp [Fault.code])
      · exact effect_of_data hop (hrest.cons (.inl (Number.length_ofBool_le _)))
  · exact outcome_fault (by simp [Fault.code])

theorem count_outcome (m : Machine) (env : Env) (n : Nat) :
    Outcome (fun m' => m' = { m with opCount := m.opCount + n } ∧
      m.opCount + n ≤ env.limits.maxOps) Fault.Ordinary (m.count env n) := by
  unfold count
  split
  · simp [Outcome, Fault.Ordinary, Fault.code]
  · rename_i hmany
    exact ⟨rfl, by omega⟩

theorem multisigArgs_outcome :
    Outcome (fun p => (∃ n, p.1 = { m with opCount := m.opCount + n } ∧
        m.opCount + n ≤ env.limits.maxOps) ∧ p.2.rest.NoLongerThan m.data)
      Fault.Ordinary (m.multisigArgs env) := by
  unfold multisigArgs
  split
  · rename_i hkeys
    exact (Stack.popNumber_outcome _ _).of_error hkeys
  · rename_i numKeys s1 hkeys
    have h1 : s1.NoLongerThan m.data := (Stack.popNumber_outcome _ _).of_ok hkeys
    split
    · simp [Outcome, Fault.Ordinary, Fault.code]
    · split
      · rename_i hcount
        exact (count_outcome m env _).of_error hcount
      · rename_i m' hcount
        split
        · rename_i hpop
          exact (Stack.popMany_outcome _ _).of_error hpop
        · rename_i keys s2 hpop
          have h2 : s2.NoLongerThan m.data := ((Stack.popMany_outcome _ _).of_ok hpop).trans h1
          split
          · rename_i hsigs
            exact (Stack.popNumber_outcome _ _).of_error hsigs
          · rename_i numSigs s3 hsigs
            have h3 : s3.NoLongerThan m.data :=
              ((Stack.popNumber_outcome _ _).of_ok hsigs).trans h2
            split
            · simp [Outcome, Fault.Ordinary, Fault.code]
            · split
              · rename_i hpop'
                exact (Stack.popMany_outcome _ _).of_error hpop'
              · rename_i sigs s4 hpop'
                have h4 : s4.NoLongerThan m.data :=
                  ((Stack.popMany_outcome _ _).of_ok hpop').trans h3
                split
                · rename_i hdummy
                  exact (Stack.pop_outcome _).of_error hdummy
                · rename_i dummy rest hdummy
                  exact ⟨⟨_, (count_outcome m env _).of_ok hcount⟩,
                    ((Stack.pop_outcome _).of_ok hdummy).tail.trans h4⟩

theorem checkMultiSig_outcome (hop : ∀ d, op.nest d = some d) :
    Outcome (Effect env offset op m) env.Explains (m.checkMultiSig env chunks) := by
  unfold checkMultiSig
  split
  · rename_i hargs
    exact (multisigArgs_outcome.of_error hargs).explained env
  · rename_i m' args hargs
    obtain ⟨⟨n, rfl, hcount⟩, hrest⟩ := multisigArgs_outcome.of_ok hargs
    split
    · rename_i hmatch
      exact (matchSigs_outcome (fun sig key => sigCheck_outcome _ sig key) args.keys
        args.sigs).of_error hmatch
    · rename_i valid _
      split
      · exact outcome_fault (by simp [Fault.code])
      · split
        · exact outcome_fault (by simp [Fault.code])
        · have hdata := hrest.cons (.inl (Number.length_ofBool_le valid))
          exact ⟨noLongerThan_items hdata, fun _ => hcount, .inl rfl, hop m.branches.length⟩

/-! ## Opcodes -/

theorem toAlt_outcome (hop : ∀ d, op.nest d = some d) :
    Outcome (Effect env offset op m) env.Explains m.toAlt := by
  unfold toAlt
  split
  · exact outcome_fault (by simp [Fault.code])
  · rename_i x rest hdata
    apply effect_of_items hop
    apply Stack.noLongerThan_of_subset
    intro y hy
    simp only [items, hdata, List.mem_append, List.mem_cons] at hy ⊢
    tauto

theorem fromAlt_outcome (hop : ∀ d, op.nest d = some d) :
    Outcome (Effect env offset op m) env.Explains m.fromAlt := by
  unfold fromAlt
  split
  · exact outcome_fault (by simp [Fault.code])
  · rename_i x rest halt
    apply effect_of_items hop
    apply Stack.noLongerThan_of_subset
    intro y hy
    simp only [items, halt, List.mem_append, List.mem_cons] at hy ⊢
    tauto

theorem depth_outcome (hop : ∀ d, op.nest d = some d) :
    Outcome (Effect env offset op m) env.Explains (.ok (m.pushNumber m.data.depth)) := by
  refine effect_of_items hop ?_
  apply Stack.noLongerThan_of_subset
  exact List.Subset.refl _

theorem codeSeparator_outcome :
    Outcome (Effect env offset .codeSeparator m) env.Explains
      (.ok { m with codeStart := offset + 1 }) :=
  ⟨noLongerThan_items (Stack.NoLongerThan.refl m.data), fun hcount => hcount, .inr rfl, rfl⟩

/-- One opcode that is not the opcode of a push. -/
theorem perform_outcome (hop : Chunk.pushData4 < op.byte) :
    Outcome (Effect env offset op m) env.Explains (m.perform env chunks offset op) := by
  cases op
  case zero | pushData1 | pushData2 | pushData4 => exact absurd hop (by decide)
  case oneNegate | one | two | three | four | five | six | seven | eight | nine | ten | eleven
      | twelve | thirteen | fourteen | fifteen | sixteen =>
    exact push_outcome (fun _ => rfl) (Number.length_encode_of_fits rfl)
  case nop => exact effect_refl fun _ => rfl
  case ifOp | notIf => exact openBranch_outcome fun _ => rfl
  case elseOp => exact switchBranch_outcome
  case endIf => exact closeBranch_outcome
  case verify => exact verifyTop_outcome (effect_refl fun _ => rfl)
  case returnOp => exact outcome_fault (by simp [Fault.code])
  case checkLockTimeVerify => exact checkLockTime_outcome fun _ => rfl
  case checkSequenceVerify => exact checkSequence_outcome fun _ => rfl
  case nop1 | nop4 | nop5 | nop6 | nop7 | nop8 | nop9 | nop10 =>
    exact upgradableNop_outcome fun _ => rfl
  case toAltStack => exact toAlt_outcome fun _ => rfl
  case fromAltStack => exact fromAlt_outcome fun _ => rfl
  case drop2 | drop => exact onData_outcome (fun _ => rfl) fun s => s.dropN_outcome _
  case dup2 | dup3 | dup => exact onData_outcome (fun _ => rfl) fun s => s.dupN_outcome _
  case over2 | «over» => exact onData_outcome (fun _ => rfl) fun s => s.overN_outcome _
  case rot2 | rot => exact onData_outcome (fun _ => rfl) fun s => s.rotN_outcome _
  case swap2 | swap => exact onData_outcome (fun _ => rfl) fun s => s.swapN_outcome _
  case ifDup => exact onData_outcome (fun _ => rfl) Stack.ifDup_outcome
  case depth => exact depth_outcome fun _ => rfl
  case nip => exact onData_outcome (fun _ => rfl) Stack.nip_outcome
  case pick => exact onData_outcome (fun _ => rfl) (Stack.pickTop_outcome _)
  case roll => exact onData_outcome (fun _ => rfl) (Stack.rollTop_outcome _)
  case tuck => exact onData_outcome (fun _ => rfl) Stack.tuck_outcome
  case size => exact onData_outcome (fun _ => rfl) Stack.size_outcome
  case equal => exact onData_outcome (fun _ => rfl) Stack.equal_outcome
  case equalVerify => exact andVerify_outcome (onData_outcome (fun _ => rfl) Stack.equal_outcome)
  case add1 | sub1 | negate | abs | not | notZero =>
    exact onData_outcome (fun _ => rfl) fun s => s.unary_outcome _ _
  case add | sub | min | max =>
    exact onData_outcome (fun _ => rfl) fun s => s.binary_outcome _ _
  case boolAnd | boolOr | numEqual | numNotEqual | less | greater | lessEqual | greaterEqual =>
    exact onData_outcome (fun _ => rfl) fun s => s.compare_outcome _ _
  case numEqualVerify =>
    exact andVerify_outcome (onData_outcome (fun _ => rfl) fun s => s.compare_outcome _ _)
  case within => exact onData_outcome (fun _ => rfl) (Stack.within_outcome _)
  case ripemd160 | sha1 | sha256 | hash160 | hash256 =>
    exact onData_outcome (fun _ => rfl) fun s => s.digest_outcome (by decide) _
  case codeSeparator => exact codeSeparator_outcome
  case checkSig => exact checkSig_outcome fun _ => rfl
  case checkSigVerify => exact andVerify_outcome (checkSig_outcome fun _ => rfl)
  case checkMultiSig => exact checkMultiSig_outcome fun _ => rfl
  case checkMultiSigVerify => exact andVerify_outcome (checkMultiSig_outcome fun _ => rfl)
  -- Opcodes that must not be executed.
  all_goals exact outcome_fault (by simp [Fault.code])

end Opcodes

/-! ## Chunks -/

/-- What a chunk at `offset` may do to a machine. -/
structure ChunkEffect (env : Env) (offset : Nat) (c : Chunk) (m m' : Machine) : Prop where
  payload : c.payload.length ≤ env.limits.maxElementSize
  items : Stack.NoLongerThan m'.items (c.payload :: Number.encode m.data.depth :: m.items)
  opCount : m.opCount ≤ env.limits.maxOps → m'.opCount ≤ env.limits.maxOps
  codeStart : m'.codeStart = m.codeStart ∨ m'.codeStart = offset + 1
  branches : c.nest m.branches.length = some m'.branches.length

/-- What a chunk can come to. One that is not performed opens and closes no conditional. -/
inductive ActionOn (c : Chunk) : Action → Prop where
  | skip (nest : ∀ d, c.nest d = some d) : ActionOn c .skip
  | push (nest : ∀ d, c.nest d = some d) : ActionOn c (.push c.payload)
  | perform {named : Opcode} (high : Chunk.pushData4 < named.byte) (nest : c.nest = named.nest) :
    ActionOn c (.perform named)

section Chunks

variable {env : Env} {chunks : List Chunk} {offset : Nat} {c : Chunk} {m : Machine}

theorem nest_of_le (h : c.code ≤ Chunk.pushData4) (d : Nat) : c.nest d = some d := by
  unfold Chunk.nest
  split
  · rename_i named hnamed
    rw [← Opcode.byte_eq_of_ofByte? hnamed] at h
    cases named <;> first | rfl | exact absurd h (by decide)
  · rfl

theorem nest_of_not_conditional {named : Opcode} (h : named.isConditional = false) (d : Nat) :
    named.nest d = some d := by
  cases named <;> first | rfl | cases h

theorem countOp_outcome (m : Machine) (c : Chunk) :
    Outcome (fun m' => ∃ n, m' = { m with opCount := n } ∧
      (m.opCount ≤ env.limits.maxOps → n ≤ env.limits.maxOps)) Fault.Ordinary
      (countOp env m c) := by
  unfold countOp
  split
  · refine (count_outcome m env 1).mono ?_ fun _ hf => hf
    rintro m' ⟨rfl, hle⟩
    exact ⟨_, rfl, fun _ => hle⟩
  · exact ⟨m.opCount, rfl, fun hle => hle⟩

theorem actionOf_outcome (m : Machine) (c : Chunk) :
    Outcome (ActionOn c) Fault.Ordinary (actionOf env m c) := by
  unfold actionOf
  split
  · rename_i hpush
    split
    · exact .skip (nest_of_le hpush)
    · split
      · simp [Outcome, Fault.Ordinary, Fault.code]
      · exact .push (nest_of_le hpush)
  · rename_i hhigh
    split
    · rename_i named hnamed
      have hnest : c.nest = named.nest := by
        funext d
        simp [Chunk.nest, hnamed]
      split
      · refine .perform ?_ hnest
        rw [Opcode.byte_eq_of_ofByte? hnamed]
        exact UInt8.not_le.1 hhigh
      · rename_i hskip
        refine .skip fun d => ?_
        rw [hnest]
        exact nest_of_not_conditional (by simp at hskip; exact hskip.2) d
    · rename_i hnone
      split
      · simp [Outcome, Fault.Ordinary, Fault.code]
      · exact .skip fun d => by simp [Chunk.nest, hnone]

theorem resolve_outcome :
    Outcome (fun p => c.payload.length ≤ env.limits.maxElementSize ∧
        (∃ n, p.1 = { m with opCount := n } ∧
          (m.opCount ≤ env.limits.maxOps → n ≤ env.limits.maxOps)) ∧ ActionOn c p.2)
      Fault.Ordinary (resolve env m c) := by
  unfold resolve
  split
  · rename_i helement
    unfold checkElement at helement
    split at helement <;> cases helement
    simp [Outcome, Fault.Ordinary, Fault.code]
  · rename_i helement
    have hpayload : c.payload.length ≤ env.limits.maxElementSize := by
      unfold checkElement at helement
      split at helement
      · cases helement
      · omega
    split
    · rename_i hcount
      exact (countOp_outcome m c).of_error hcount
    · rename_i m' hcount
      split
      · simp [Outcome, Fault.Ordinary, Fault.code]
      · split
        · rename_i haction
          exact (actionOf_outcome m' c).of_error haction
        · rename_i haction
          exact ⟨hpayload, (countOp_outcome m c).of_ok hcount,
            (actionOf_outcome m' c).of_ok haction⟩

/-- One chunk. -/
theorem exec_outcome :
    Outcome (ChunkEffect env offset c m) env.Explains (m.exec env chunks offset c) := by
  have hitems : Stack.NoLongerThan m.items (c.payload :: Number.encode m.data.depth :: m.items) :=
    Stack.noLongerThan_of_subset fun x hx => List.mem_cons_of_mem _ (List.mem_cons_of_mem _ hx)
  unfold exec
  cases hresolve : resolve env m c with
  | error f => exact (resolve_outcome.of_error hresolve).explained env
  | ok p =>
    obtain ⟨m₁, action⟩ := p
    obtain ⟨hpayload, ⟨n, rfl, hops⟩, haction⟩ := resolve_outcome.of_ok hresolve
    cases haction with
    | skip hnest => exact ⟨hpayload, hitems, hops, .inl rfl, hnest m.branches.length⟩
    | push hnest =>
      refine ⟨hpayload, ?_, hops, .inl rfl, hnest m.branches.length⟩
      exact hitems.cons (.inr ⟨c.payload, List.mem_cons_self, Nat.le_refl _⟩)
    | perform hhigh hnest =>
      refine (perform_outcome hhigh).mono ?_ fun _ hf => hf
      intro m' heffect
      refine ⟨hpayload, heffect.items.trans ?_, fun hle => heffect.opCount (hops hle),
        heffect.codeStart, ?_⟩
      · exact Stack.noLongerThan_of_subset fun x hx => List.mem_cons_of_mem _ hx
      · rw [hnest]
        exact heffect.branches

end Chunks
end Machine
end SpendScript
