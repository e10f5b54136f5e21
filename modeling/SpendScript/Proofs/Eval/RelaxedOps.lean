import SpendScript.Eval.Exec

/-!
# SpendScript.Proofs.Eval.RelaxedOps

Flags only restrict what an opcode does. An opcode that succeeds under some flags does the same
under fewer of them: a flag may turn a result into a fault, but never into another result. Two cases
stand apart. `cleanStack` is no valid set of flags without `payToScriptHash`, and an opcode for lock
times is an upgradable one as long as its own flag is not set.

* `Flags.Relaxes`: fewer flags, the two cases set apart.
* `perform_relaxed`: one opcode.
* `exec_relaxed`: one chunk.
-/

namespace SpendScript

/-- `f` asks for no rule that `g` does not ask for. -/
structure Flags.Relaxes (f g : Flags) : Prop where
  sub : g.has f = true
  clean : f.has .cleanStack = true → f.has .payToScriptHash = true
  lockTime : f.has .discourageUpgradableNops = true →
    g.has .checkLockTimeVerify = true → f.has .checkLockTimeVerify = true
  sequence : f.has .discourageUpgradableNops = true →
    g.has .checkSequenceVerify = true → f.has .checkSequenceVerify = true

namespace Flags

theorem has_trans {f g r : Flags} (h : g.has f = true) (hr : f.has r = true) : g.has r = true := by
  simp only [has, beq_iff_eq] at h hr ⊢
  calc g.bits &&& r.bits = g.bits &&& (f.bits &&& r.bits) := by rw [hr]
    _ = g.bits &&& f.bits &&& r.bits := (UInt32.and_assoc ..).symm
    _ = r.bits := by rw [h, hr]

variable {f g : Flags}

theorem Relaxes.of_has (h : f.Relaxes g) {r : Flags} (hr : f.has r = true) : g.has r = true :=
  has_trans h.sub hr

/-- What `g` lets pass, `f` lets pass. -/
theorem Relaxes.not_has_and (h : f.Relaxes g) {r : Flags} {b : Bool}
    (hg : ¬(g.has r && b) = true) : ¬(f.has r && b) = true := by
  intro hf
  rw [Bool.and_eq_true] at hf hg
  exact hg ⟨h.of_has hf.1, hf.2⟩

theorem Relaxes.not_and_has_and (h : f.Relaxes g) {r : Flags} {a b : Bool}
    (hg : ¬(a && g.has r && b) = true) : ¬(a && f.has r && b) = true := by
  rw [Bool.and_comm a, Bool.and_assoc] at hg ⊢
  exact h.not_has_and hg

theorem Relaxes.not_has (h : f.Relaxes g) {r : Flags} (hr : g.has r = false) : f.has r = false := by
  cases hf : f.has r with
  | false => rfl
  | true => rw [h.of_has hf] at hr; cases hr

end Flags

/-- The environment with other flags. -/
def Env.withFlags (env : Env) (f : Flags) : Env := { env with flags := f }

namespace Env

variable (env : Env) (f : Flags)

@[simp] theorem withFlags_flags : (env.withFlags f).flags = f := rfl

@[simp] theorem withFlags_limits : (env.withFlags f).limits = env.limits := rfl

@[simp] theorem withFlags_context : (env.withFlags f).context = env.context := rfl

@[simp] theorem count_withFlags (m : Machine) (n : Nat) :
    m.count (env.withFlags f) n = m.count env n := rfl

end Env

/-! ## Numbers -/

/-- `r` takes every item for a number that `s` does. -/
structure NumberRule.Relaxes (r s : NumberRule) : Prop where
  maxLength : r.maxLength = s.maxLength
  minimal : r.minimal = true → s.minimal = true

theorem Flags.Relaxes.numberRule {f g : Flags} (h : f.Relaxes g) (env : Env) :
    (env.withFlags f).numberRule.Relaxes (env.withFlags g).numberRule :=
  ⟨rfl, h.of_has⟩

section Numbers

variable {r s : NumberRule}

theorem decode_relaxed (h : r.Relaxes s) {bs : Bytes} {n : Int}
    (hs : Number.decode s bs = .ok n) : Number.decode r bs = .ok n := by
  unfold Number.decode at hs ⊢
  rw [h.maxLength]
  split at hs
  · cases hs
  · rename_i hlen
    rw [if_neg hlen]
    split at hs
    · cases hs
    · rename_i hmin
      have hmin' : ¬(r.minimal && !Number.isMinimal bs) = true := by
        intro hr
        simp only [Bool.and_eq_true] at hr hmin
        exact hmin ⟨h.minimal hr.1, hr.2⟩
      rw [if_neg hmin']
      exact hs

theorem popNumber_relaxed (h : r.Relaxes s) {st : Stack} {p : Int × Stack}
    (hs : st.popNumber s = .ok p) : st.popNumber r = .ok p := by
  unfold Stack.popNumber at hs ⊢
  split at hs
  · cases hs
  · split at hs
    · cases hs
    · rename_i hd
      rw [decode_relaxed h hd]
      exact hs

theorem popPlace_relaxed (h : r.Relaxes s) {st : Stack} {p : Nat × Stack}
    (hs : st.popPlace s = .ok p) : st.popPlace r = .ok p := by
  unfold Stack.popPlace at hs ⊢
  split at hs
  · cases hs
  · rename_i hpop
    rw [popNumber_relaxed h hpop]
    exact hs

theorem pickTop_relaxed (h : r.Relaxes s) {st st' : Stack} (hs : st.pickTop s = .ok st') :
    st.pickTop r = .ok st' := by
  unfold Stack.pickTop at hs ⊢
  split at hs
  · cases hs
  · rename_i hpop
    rw [popPlace_relaxed h hpop]
    exact hs

theorem rollTop_relaxed (h : r.Relaxes s) {st st' : Stack} (hs : st.rollTop s = .ok st') :
    st.rollTop r = .ok st' := by
  unfold Stack.rollTop at hs ⊢
  split at hs
  · cases hs
  · rename_i hpop
    rw [popPlace_relaxed h hpop]
    exact hs

theorem unary_relaxed (h : r.Relaxes s) {f : Int → Int} {st st' : Stack}
    (hs : st.unary s f = .ok st') : st.unary r f = .ok st' := by
  unfold Stack.unary at hs ⊢
  split at hs
  · cases hs
  · rename_i hpop
    rw [popNumber_relaxed h hpop]
    exact hs

theorem popTwo_relaxed (h : r.Relaxes s) {st : Stack} {p : Int × Int × Stack}
    (hs : st.popTwo s = .ok p) : st.popTwo r = .ok p := by
  unfold Stack.popTwo at hs ⊢
  split at hs
  · cases hs
  · rename_i hpop
    rw [popNumber_relaxed h hpop]
    simp only
    split at hs
    · cases hs
    · rename_i hpop'
      rw [popNumber_relaxed h hpop']
      exact hs

theorem binary_relaxed (h : r.Relaxes s) {f : Int → Int → Int} {st st' : Stack}
    (hs : st.binary s f = .ok st') : st.binary r f = .ok st' := by
  unfold Stack.binary at hs ⊢
  split at hs
  · cases hs
  · rename_i hpop
    rw [popTwo_relaxed h hpop]
    exact hs

theorem compare_relaxed (h : r.Relaxes s) {f : Int → Int → Bool} {st st' : Stack}
    (hs : st.compare s f = .ok st') : st.compare r f = .ok st' := by
  unfold Stack.compare at hs ⊢
  split at hs
  · cases hs
  · rename_i hpop
    rw [popTwo_relaxed h hpop]
    exact hs

theorem within_relaxed (h : r.Relaxes s) {st st' : Stack} (hs : st.within s = .ok st') :
    st.within r = .ok st' := by
  unfold Stack.within at hs ⊢
  split at hs
  · cases hs
  · rename_i hpop
    rw [popTwo_relaxed h hpop]
    simp only
    split at hs
    · cases hs
    · rename_i hpop'
      rw [popNumber_relaxed h hpop']
      exact hs

end Numbers

/-! ## Lock times -/

section LockTimes

variable {env : Env} {f g : Flags} {m m' : Machine}

theorem upgradableNop_of_not_has (h : f.has .discourageUpgradableNops = false) (op : Opcode) :
    m.upgradableNop (env.withFlags f) op = .ok m := by
  simp [Machine.upgradableNop, h]

theorem upgradableNop_eq {op : Opcode} (hg : m.upgradableNop (env.withFlags g) op = .ok m') :
    g.has .discourageUpgradableNops = false ∧ m' = m := by
  unfold Machine.upgradableNop at hg
  split at hg
  · cases hg
  · rename_i hno
    cases hg
    exact ⟨by simpa using hno, rfl⟩

theorem upgradableNop_relaxed (h : f.Relaxes g) {op : Opcode}
    (hg : m.upgradableNop (env.withFlags g) op = .ok m') :
    m.upgradableNop (env.withFlags f) op = .ok m' := by
  obtain ⟨hno, rfl⟩ := upgradableNop_eq hg
  exact upgradableNop_of_not_has (h.not_has hno) op

/-- An opcode that is an upgradable one as long as its flag `r` is not set, and that leaves the
machine as it is. -/
theorem unknown_relaxed (h : f.Relaxes g) {act : Env → Except Fault Machine} {r : Flags}
    {op : Opcode}
    (hnop : ∀ e : Flags, e.has r = false →
      act (env.withFlags e) = m.upgradableNop (env.withFlags e) op)
    (hr : f.has .discourageUpgradableNops = true → g.has r = true → f.has r = true)
    (hf : f.has r = false) (hg : act (env.withFlags g) = .ok m) :
    act (env.withFlags f) = .ok m := by
  rw [hnop f hf]
  apply upgradableNop_of_not_has
  cases hd : f.has .discourageUpgradableNops with
  | false => rfl
  | true =>
    -- Then `g` does not know the opcode either, and it looks up what upgradable opcodes are.
    have hunknown : g.has r = false := by
      cases hgr : g.has r with
      | false => rfl
      | true => rw [hr hd hgr] at hf; cases hf
    rw [hnop g hunknown] at hg
    rw [← h.of_has hd]
    exact (upgradableNop_eq hg).1

theorem lockOperand_relaxed (h : f.Relaxes g) {n : Int}
    (hg : m.lockOperand (env.withFlags g) = .ok n) : m.lockOperand (env.withFlags f) = .ok n := by
  have hr : NumberRule.Relaxes ⟨LockTime.operandLength, f.has .minimalData⟩
      ⟨LockTime.operandLength, g.has .minimalData⟩ := ⟨rfl, h.of_has⟩
  unfold Machine.lockOperand Stack.peekNumber at hg ⊢
  split at hg
  · cases hg
  · exact decode_relaxed hr hg

/-- What an opcode for lock times asks, it asks without changing the machine. -/
theorem checkLockTime_eq (hg : m.checkLockTime (env.withFlags g) = .ok m') : m' = m := by
  unfold Machine.checkLockTime at hg
  split at hg
  · exact (upgradableNop_eq hg).2
  · split at hg
    · cases hg
    · split at hg
      · cases hg
      · split at hg
        · cases hg
        · split at hg
          · cases hg
          · split at hg
            · cases hg
            · split at hg
              · cases hg
              · cases hg
                rfl

theorem checkSequence_eq (hg : m.checkSequence (env.withFlags g) = .ok m') : m' = m := by
  unfold Machine.checkSequence at hg
  split at hg
  · exact (upgradableNop_eq hg).2
  · split at hg
    · cases hg
    · split at hg
      · cases hg
      · split at hg
        · cases hg
        · split at hg
          · cases hg
            rfl
          · split at hg
            · cases hg
            · split at hg
              · cases hg
              · split at hg
                · cases hg
                · split at hg
                  · cases hg
                  · cases hg
                    rfl

theorem checkLockTime_relaxed (h : f.Relaxes g)
    (hg : m.checkLockTime (env.withFlags g) = .ok m') :
    m.checkLockTime (env.withFlags f) = .ok m' := by
  cases hf : f.has .checkLockTimeVerify with
  | true =>
    unfold Machine.checkLockTime at hg ⊢
    simp only [Env.withFlags_flags, hf, h.of_has hf, Bool.not_true, Bool.false_eq_true, if_false]
      at hg ⊢
    cases hc : env.context with
    | none => simp [hc] at hg
    | some ctx =>
      simp only [Env.withFlags_context, hc] at hg ⊢
      split at hg
      · cases hg
      · rename_i hn
        rw [lockOperand_relaxed h hn]
        exact hg
  | false =>
    have hnop : ∀ e : Flags, e.has .checkLockTimeVerify = false →
        m.checkLockTime (env.withFlags e) =
          m.upgradableNop (env.withFlags e) .checkLockTimeVerify := by
      intro e he
      simp [Machine.checkLockTime, he]
    cases checkLockTime_eq hg
    exact unknown_relaxed h hnop h.lockTime hf hg

theorem checkSequence_relaxed (h : f.Relaxes g)
    (hg : m.checkSequence (env.withFlags g) = .ok m') :
    m.checkSequence (env.withFlags f) = .ok m' := by
  cases hf : f.has .checkSequenceVerify with
  | true =>
    unfold Machine.checkSequence at hg ⊢
    simp only [Env.withFlags_flags, hf, h.of_has hf, Bool.not_true, Bool.false_eq_true, if_false]
      at hg ⊢
    cases hc : env.context with
    | none => simp [hc] at hg
    | some ctx =>
      simp only [Env.withFlags_context, hc] at hg ⊢
      split at hg
      · cases hg
      · rename_i hn
        rw [lockOperand_relaxed h hn]
        exact hg
  | false =>
    have hnop : ∀ e : Flags, e.has .checkSequenceVerify = false →
        m.checkSequence (env.withFlags e) =
          m.upgradableNop (env.withFlags e) .checkSequenceVerify := by
      intro e he
      simp [Machine.checkSequence, he]
    cases checkSequence_eq hg
    exact unknown_relaxed h hnop h.sequence hf hg

end LockTimes

/-! ## Signatures -/

section Signatures

variable {env : Env} {f g : Flags}

theorem checkHashType_relaxed (h : f.Relaxes g) {t : UInt8}
    (hg : (env.withFlags g).checkHashType t = .ok ()) :
    (env.withFlags f).checkHashType t = .ok () := by
  unfold Env.checkHashType at hg ⊢
  split at hg
  · cases hg
  · rename_i hok
    exact if_neg (h.not_has_and hok)

theorem checkKeyForm_relaxed (h : f.Relaxes g) {key : Bytes}
    (hg : (env.withFlags g).checkKeyForm key = .ok ()) :
    (env.withFlags f).checkKeyForm key = .ok () := by
  simp only [Env.checkKeyForm] at hg ⊢
  split at hg
  · cases hg
  · rename_i hok
    exact if_neg (h.not_has_and hok)

theorem wantsDer_relaxed (h : f.Relaxes g) (hf : (env.withFlags f).wantsDer = true) :
    (env.withFlags g).wantsDer = true := by
  unfold Env.wantsDer Flags.hasAny at hf ⊢
  obtain ⟨r, hr, hfr⟩ := List.any_eq_true.1 hf
  exact List.any_eq_true.2 ⟨r, hr, h.of_has hfr⟩

theorem checkSigForm_relaxed (h : f.Relaxes g) {sig : Bytes}
    (hg : (env.withFlags g).checkSigForm sig = .ok ()) :
    (env.withFlags f).checkSigForm sig = .ok () := by
  unfold Env.checkSigForm at hg ⊢
  by_cases hskip : (!(env.withFlags f).wantsDer || sig.isEmpty) = true
  · rw [if_pos hskip]
  · rw [if_neg hskip]
    simp only [Bool.or_eq_true, Bool.not_eq_true', not_or, Bool.not_eq_false] at hskip
    rw [wantsDer_relaxed h hskip.1] at hg
    have hempty : sig.isEmpty = false := by simpa using hskip.2
    rw [hempty, if_neg (by decide)] at hg
    split at hg
    · cases hg
    · split at hg
      · cases hg
      · rename_i hok
        exact if_neg (h.not_has_and hok)

theorem sigQuery?_relaxed (h : f.Relaxes g) {code : Script} {sig key : Bytes}
    {q : Option SigQuery} (hg : (env.withFlags g).sigQuery? code sig key = .ok q) :
    (env.withFlags f).sigQuery? code sig key = .ok q := by
  unfold Env.sigQuery? at hg ⊢
  split at hg
  · split at hg
    · cases hg
    · rename_i hkey
      rw [checkKeyForm_relaxed h hkey]
      exact hg
  · split at hg
    · cases hg
    · rename_i htype
      split at hg
      · cases hg
      · rename_i hform
        split at hg
        · cases hg
        · rename_i hkey
          rw [checkHashType_relaxed h htype, checkSigForm_relaxed h hform,
            checkKeyForm_relaxed h hkey]
          exact hg

theorem checkSig_relaxed (h : f.Relaxes g) {code : Script} {sig key : Bytes} {valid : Bool}
    (hg : (env.withFlags g).checkSig code sig key = .ok valid) :
    (env.withFlags f).checkSig code sig key = .ok valid := by
  unfold Env.checkSig at hg ⊢
  split at hg
  · cases hg
  · rename_i hq
    rw [sigQuery?_relaxed h hq]
    exact hg
  · rename_i hq
    rw [sigQuery?_relaxed h hq]
    exact hg

/-- By induction on the keys. -/
theorem matchSigs_relaxed {loose strict : Bytes → Bytes → Except Fault Bool}
    (h : ∀ sig key valid, strict sig key = .ok valid → loose sig key = .ok valid)
    (keys : List Bytes) : ∀ (sigs : List Bytes) (valid : Bool),
      matchSigs strict sigs keys = .ok valid → matchSigs loose sigs keys = .ok valid := by
  induction keys with
  | nil =>
    intro sigs valid hs
    cases sigs with
    | nil => exact hs
    | cons sig sigs => exact hs
  | cons key keys ih =>
    intro sigs valid hs
    cases sigs with
    | nil => exact hs
    | cons sig sigs =>
      simp only [matchSigs] at hs ⊢
      split at hs
      · cases hs
      · rename_i found hfound
        rw [h sig key found hfound]
        simp only
        generalize (if found = true then sigs else sig :: sigs) = left at hs ⊢
        by_cases hfew : keys.length < left.length
        · rw [if_pos hfew] at hs ⊢
          exact hs
        · rw [if_neg hfew] at hs ⊢
          exact ih left valid hs

variable {m m' : Machine} {chunks : List Chunk}

theorem multisigArgs_relaxed (h : f.Relaxes g) {p : Machine × MultisigArgs}
    (hg : m.multisigArgs (env.withFlags g) = .ok p) :
    m.multisigArgs (env.withFlags f) = .ok p := by
  unfold Machine.multisigArgs at hg ⊢
  split at hg
  · cases hg
  · rename_i numKeys _ hkeys
    rw [popNumber_relaxed (h.numberRule env) hkeys]
    simp only [Env.count_withFlags] at hg ⊢
    split at hg
    · cases hg
    · rename_i hbound
      have hbound' : ¬(numKeys < 0 ∨ ((env.withFlags f).limits.maxKeys : Int) < numKeys) := hbound
      rw [if_neg hbound']
      split at hg
      · cases hg
      · split at hg
        · cases hg
        · split at hg
          · cases hg
          · rename_i hsigs
            rw [popNumber_relaxed (h.numberRule env) hsigs]
            exact hg

theorem machine_checkSig_relaxed (h : f.Relaxes g)
    (hg : m.checkSig (env.withFlags g) chunks = .ok m') :
    m.checkSig (env.withFlags f) chunks = .ok m' := by
  unfold Machine.checkSig at hg ⊢
  split at hg
  · split at hg
    · cases hg
    · rename_i hvalid
      rw [checkSig_relaxed h hvalid]
      simp only
      split at hg
      · cases hg
      · rename_i hok
        rw [if_neg]
        · exact hg
        · exact h.not_and_has_and hok
  · cases hg

theorem checkMultiSig_relaxed (h : f.Relaxes g)
    (hg : m.checkMultiSig (env.withFlags g) chunks = .ok m') :
    m.checkMultiSig (env.withFlags f) chunks = .ok m' := by
  unfold Machine.checkMultiSig at hg ⊢
  split at hg
  · cases hg
  · rename_i hargs
    rw [multisigArgs_relaxed h hargs]
    simp only
    split at hg
    · cases hg
    · rename_i hvalid
      rw [matchSigs_relaxed (fun _ _ _ => checkSig_relaxed h) _ _ _ hvalid]
      simp only
      split at hg
      · cases hg
      · rename_i hnull
        split at hg
        · cases hg
        · rename_i hdummy
          rw [if_neg, if_neg]
          · exact hg
          · exact h.not_has_and hdummy
          · exact h.not_and_has_and hnull

end Signatures

/-! ## Opcodes -/

section Opcodes

variable {env : Env} {f g : Flags} {m m' : Machine} {chunks : List Chunk}

theorem onData_relaxed {loose strict : Stack → Except Fault Stack}
    (h : ∀ st st', strict st = .ok st' → loose st = .ok st')
    (hs : m.onData strict = .ok m') : m.onData loose = .ok m' := by
  unfold Machine.onData at hs ⊢
  split at hs
  · cases hs
  · rename_i hdata
    rw [h _ _ hdata]
    exact hs

theorem andVerify_relaxed {op : Opcode} {loose strict : Except Fault Machine}
    (h : ∀ m₁, strict = .ok m₁ → loose = .ok m₁)
    (hs : Machine.andVerify op strict = .ok m') : Machine.andVerify op loose = .ok m' := by
  unfold Machine.andVerify at hs ⊢
  split at hs
  · cases hs
  · rw [h _ rfl]
    exact hs

/-- Flags only restrict what an opcode does. -/
theorem perform_relaxed (h : f.Relaxes g) {offset : Nat} {op : Opcode}
    (hg : m.perform (env.withFlags g) chunks offset op = .ok m') :
    m.perform (env.withFlags f) chunks offset op = .ok m' := by
  have hrule := h.numberRule env
  -- The opcodes that look at the flags, by what they look for; the others do not see them.
  cases op
  case checkLockTimeVerify => exact checkLockTime_relaxed h hg
  case checkSequenceVerify => exact checkSequence_relaxed h hg
  case nop1 | nop4 | nop5 | nop6 | nop7 | nop8 | nop9 | nop10 => exact upgradableNop_relaxed h hg
  case pick => exact onData_relaxed (fun _ _ => pickTop_relaxed hrule) hg
  case roll => exact onData_relaxed (fun _ _ => rollTop_relaxed hrule) hg
  case add1 | sub1 | negate | abs | not | notZero =>
    exact onData_relaxed (fun _ _ => unary_relaxed hrule) hg
  case add | sub | min | max => exact onData_relaxed (fun _ _ => binary_relaxed hrule) hg
  case boolAnd | boolOr | numEqual | numNotEqual | less | greater | lessEqual | greaterEqual =>
    exact onData_relaxed (fun _ _ => compare_relaxed hrule) hg
  case numEqualVerify =>
    exact andVerify_relaxed (fun _ => onData_relaxed (fun _ _ => compare_relaxed hrule)) hg
  case within => exact onData_relaxed (fun _ _ => within_relaxed hrule) hg
  case checkSig => exact machine_checkSig_relaxed h hg
  case checkSigVerify => exact andVerify_relaxed (fun _ => machine_checkSig_relaxed h) hg
  case checkMultiSig => exact checkMultiSig_relaxed h hg
  case checkMultiSigVerify => exact andVerify_relaxed (fun _ => checkMultiSig_relaxed h) hg
  all_goals exact hg

theorem actionOf_relaxed (h : f.Relaxes g) {c : Chunk} {action : Action}
    (hg : m.actionOf (env.withFlags g) c = .ok action) :
    m.actionOf (env.withFlags f) c = .ok action := by
  unfold Machine.actionOf at hg ⊢
  split at hg
  · rename_i hpush
    rw [if_pos hpush]
    split at hg
    · rename_i hskip
      rw [if_pos hskip]
      exact hg
    · rename_i hskip
      rw [if_neg hskip]
      split at hg
      · cases hg
      · rename_i hminimal
        rw [if_neg]
        · exact hg
        · exact h.not_has_and hminimal
  · rename_i hop
    rw [if_neg hop]
    exact hg

theorem resolve_relaxed (h : f.Relaxes g) {c : Chunk} {p : Machine × Action}
    (hg : m.resolve (env.withFlags g) c = .ok p) : m.resolve (env.withFlags f) c = .ok p := by
  have helement : Machine.checkElement (env.withFlags f) c =
    Machine.checkElement (env.withFlags g) c := rfl
  have hcount : m.countOp (env.withFlags f) c = m.countOp (env.withFlags g) c := rfl
  unfold Machine.resolve at hg ⊢
  rw [helement, hcount]
  split at hg
  · cases hg
  · split at hg
    · cases hg
    · split at hg
      · cases hg
      · split at hg
        · cases hg
        · rename_i haction
          simp only [actionOf_relaxed h haction]
          exact hg

theorem exec_relaxed (h : f.Relaxes g) {offset : Nat} {c : Chunk}
    (hg : m.exec (env.withFlags g) chunks offset c = .ok m') :
    m.exec (env.withFlags f) chunks offset c = .ok m' := by
  unfold Machine.exec at hg ⊢
  split at hg
  · cases hg
  · rename_i hskip
    rw [resolve_relaxed h hskip]
    exact hg
  · rename_i hpush
    rw [resolve_relaxed h hpush]
    exact hg
  · rename_i hop
    rw [resolve_relaxed h hop]
    exact perform_relaxed h hg

end Opcodes

end SpendScript
