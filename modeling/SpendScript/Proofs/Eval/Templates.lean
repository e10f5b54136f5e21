import SpendScript.Proofs.Eval.Success
import SpendScript.Proofs.Script.RoundTrip

/-!
# SpendScript.Proofs.Eval.Templates

What the usual locking scripts ask of the stack on which they run. They have no branches, so each of
their chunks has a rule on a machine that is its data stack and its count of operations, and the
rules put together give the condition under which a script succeeds, with what it leaves.

* `runOn_scriptHashOut_eq_ok_iff`: the script that pays to the hash of a script.
* `runOn_pubkeyHashOut_eq_ok_iff`: the script that pays to the hash of a key.
-/

namespace SpendScript

namespace Machine

/-- The machine in a script without branches, after `n` operations. -/
def counted (data : Stack) (n : Nat) : Machine := { fresh data with opCount := n }

@[simp] theorem counted_data (data : Stack) (n : Nat) : (counted data n).data = data := rfl

@[simp] theorem counted_branches (data : Stack) (n : Nat) : (counted data n).branches = [] := rfl

@[simp] theorem counted_depth (data : Stack) (n : Nat) : (counted data n).depth = data.length :=
  rfl

variable {env : Env} {chunks : List Chunk} {offset n : Nat} {data : Stack} {m' : Machine}

/-- An opcode that changes the data stack only. -/
theorem exec_onData_eq_ok_iff {op : Opcode} {f : Stack → Except Fault Stack}
    (hcounted : Opcode.sixteen.byte < op.byte) (henabled : op.isDisabled = false)
    (hperform : ∀ m : Machine, m.perform env chunks offset op = m.onData f) :
    (counted data n).exec env chunks offset (.ofOpcode op) = .ok m' ↔
      n + 1 ≤ env.limits.maxOps ∧ ∃ data', f data = .ok data' ∧ counted data' (n + 1) = m' := by
  rw [exec_ofOpcode_eq_ok_iff hcounted henabled rfl, hperform, onData_eq_ok_iff]
  rfl

theorem exec_dup_eq_ok_iff :
    (counted data n).exec env chunks offset (.ofOpcode .dup) = .ok m' ↔
      n + 1 ≤ env.limits.maxOps ∧
        ∃ top rest, data = top :: rest ∧ counted (top :: top :: rest) (n + 1) = m' := by
  rw [exec_onData_eq_ok_iff (f := Stack.dupN 1) (by decide) rfl fun _ => rfl]
  cases data <;> simp [Stack.dupN, Stack.dupGroup, Stack.repeated, Stack.pick, Stack.peek,
    Stack.settled, and_assoc]

theorem exec_hash160_eq_ok_iff :
    (counted data n).exec env chunks offset (.ofOpcode .hash160) = .ok m' ↔
      n + 1 ≤ env.limits.maxOps ∧
        ∃ top rest, data = top :: rest ∧
          counted ((Hash.hash160 top).bytes :: rest) (n + 1) = m' := by
  rw [exec_onData_eq_ok_iff (f := Stack.digest Hash.hash160) (by decide) rfl fun _ => rfl]
  cases data <;> simp [Stack.digest, and_assoc]

/-- The shortest push of data that is not a single byte is never too long for its data. -/
theorem exec_ofData?_eq_ok_iff {item : Bytes} {c : Chunk} {m : Machine}
    (hc : Chunk.ofData? item = some c) (hlone : item.length ≠ 1) (hx : m.executing = true) :
    m.exec env chunks offset c = .ok m' ↔
      item.length ≤ env.limits.maxElementSize ∧ m.push item = m' := by
  rw [exec_data_eq_ok_iff (Chunk.code_le_of_ofData? hc) hx, Chunk.payload_of_ofData? hc,
    Chunk.isMinimalPush_of_ofData? hc hlone]
  simp only [implies_true, true_and]

theorem exec_hashPush_eq_ok_iff {hash : Digest 20} :
    (counted data n).exec env chunks offset (Script.hashPush hash) = .ok m' ↔
      20 ≤ env.limits.maxElementSize ∧ counted (hash.bytes :: data) n = m' := by
  have hlen := hash.length_eq
  have hpush : Chunk.ofData? hash.bytes = some (Script.hashPush hash) := by
    rw [Chunk.ofData?_of_length_le (List.ne_nil_of_length_pos (by omega)) (by omega), hlen]
    rfl
  rw [exec_ofData?_eq_ok_iff hpush (by omega) rfl, hlen]
  rfl

theorem exec_equal_eq_ok_iff :
    (counted data n).exec env chunks offset (.ofOpcode .equal) = .ok m' ↔
      n + 1 ≤ env.limits.maxOps ∧
        ∃ a b rest, data = a :: b :: rest ∧
          counted (Stack.pushBool (a == b) rest) (n + 1) = m' := by
  rw [exec_onData_eq_ok_iff (f := Stack.equal) (by decide) rfl fun _ => rfl]
  rcases data with _ | ⟨a, _ | ⟨b, rest⟩⟩ <;> simp [Stack.equal, and_assoc]

theorem exec_equalVerify_eq_ok_iff :
    (counted data n).exec env chunks offset (.ofOpcode .equalVerify) = .ok m' ↔
      n + 1 ≤ env.limits.maxOps ∧ ∃ a rest, data = a :: a :: rest ∧ counted rest (n + 1) = m' := by
  have hperform : ∀ m : Machine, m.perform env chunks offset .equalVerify =
      andVerify .equalVerify (m.onData Stack.equal) := fun _ => rfl
  rw [exec_ofOpcode_eq_ok_iff (by decide) rfl rfl, hperform, andVerify_eq_ok_iff]
  simp only [onData_eq_ok_iff]
  constructor
  · rintro ⟨hops, m₁, x, below, ⟨data', hequal, rfl⟩, hdata, htrue, rfl⟩
    match data, hequal with
    | a :: b :: _, hequal =>
      cases hequal
      cases hdata
      obtain rfl : a = b := by simpa using htrue
      exact ⟨hops, a, _, rfl, rfl⟩
  · rintro ⟨hops, a, rest, rfl, rfl⟩
    exact ⟨hops, _, _, rest, ⟨_, rfl, rfl⟩, rfl, by simp, rfl⟩

theorem exec_checkSig_eq_ok_iff :
    (counted data n).exec env chunks offset (.ofOpcode .checkSig) = .ok m' ↔
      n + 1 ≤ env.limits.maxOps ∧
        ∃ key sig rest valid, data = key :: sig :: rest ∧
          env.checkSig (signedCode chunks 0 [sig]) sig key = .ok valid ∧
          (valid = false → env.flags.has .nullFail = true → sig = []) ∧
          counted (Stack.pushBool valid rest) (n + 1) = m' := by
  have hperform : ∀ m : Machine, m.perform env chunks offset .checkSig = m.checkSig env chunks :=
    fun _ => rfl
  rw [exec_ofOpcode_eq_ok_iff (by decide) rfl rfl, hperform, checkSig_eq_ok_iff]
  rfl

end Machine

theorem runOn_scriptHashOut_eq_ok_iff {env : Env} {hash : Digest 20} {data data' : Stack} :
    (Script.scriptHashOut hash).runOn env data = .ok data' ↔
      2 ≤ env.limits.maxOps ∧ 20 ≤ env.limits.maxElementSize ∧
        data.length + 1 ≤ env.limits.maxStackSize ∧
        ∃ top rest, data = top :: rest ∧
          Stack.pushBool (hash.bytes == (Hash.hash160 top).bytes) rest = data' := by
  have hstart : Machine.fresh data = Machine.counted data 0 := rfl
  rw [runOn_eq_ok_iff, hstart]
  simp only [Script.scriptHashOut, Machine.execAll_cons_eq_ok_iff, Machine.execAll_nil_eq_ok_iff]
  constructor
  · rintro ⟨m, ⟨m₁, hhash, hd₁, m₂, hpush, hd₂, m₃, hequal, hd₃, rfl⟩, -, rfl⟩
    obtain ⟨-, top, rest, rfl, rfl⟩ := Machine.exec_hash160_eq_ok_iff.1 hhash
    obtain ⟨helement, rfl⟩ := Machine.exec_hashPush_eq_ok_iff.1 hpush
    obtain ⟨hops, a, b, below, hdata, rfl⟩ := Machine.exec_equal_eq_ok_iff.1 hequal
    cases hdata
    exact ⟨hops, helement, hd₂, top, rest, rfl, rfl⟩
  · rintro ⟨hops, helement, hdepth, top, rest, rfl, rfl⟩
    refine ⟨_, ⟨_, Machine.exec_hash160_eq_ok_iff.2 ⟨by omega, top, rest, rfl, rfl⟩, ?_, _,
      Machine.exec_hashPush_eq_ok_iff.2 ⟨helement, rfl⟩, ?_, _,
      Machine.exec_equal_eq_ok_iff.2 ⟨hops, _, _, rest, rfl, rfl⟩, ?_, rfl⟩, rfl, rfl⟩
    all_goals
      simp only [Machine.counted_depth, Stack.pushBool, List.length_cons] at hdepth ⊢
      omega

/-- What the script that pays to the hash of a key succeeds with: a key that has the hash, and a
signature that the check of `OP_CHECKSIG` judges. -/
theorem runOn_pubkeyHashOut_eq_ok_iff {env : Env} {hash : Digest 20} {data data' : Stack} :
    (Script.pubkeyHashOut hash).runOn env data = .ok data' ↔
      4 ≤ env.limits.maxOps ∧ 20 ≤ env.limits.maxElementSize ∧
        data.length + 2 ≤ env.limits.maxStackSize ∧
        ∃ key sig rest valid, data = key :: sig :: rest ∧ Hash.hash160 key = hash ∧
          env.checkSig (signedCode (Script.pubkeyHashOut hash).chunks 0 [sig]) sig key =
            .ok valid ∧
          (valid = false → env.flags.has .nullFail = true → sig = []) ∧
          Stack.pushBool valid rest = data' := by
  have hstart : Machine.fresh data = Machine.counted data 0 := rfl
  rw [runOn_eq_ok_iff, hstart]
  simp only [Script.pubkeyHashOut, Machine.execAll_cons_eq_ok_iff, Machine.execAll_nil_eq_ok_iff]
  constructor
  · rintro ⟨m, ⟨m₁, hdup, hd₁, m₂, hhash, hd₂, m₃, hpush, hd₃, m₄, hequal, hd₄, m₅, hsig, hd₅,
      rfl⟩, -, rfl⟩
    obtain ⟨-, key, below, rfl, rfl⟩ := Machine.exec_dup_eq_ok_iff.1 hdup
    obtain ⟨-, _, _, hdata, rfl⟩ := Machine.exec_hash160_eq_ok_iff.1 hhash
    cases hdata
    obtain ⟨helement, rfl⟩ := Machine.exec_hashPush_eq_ok_iff.1 hpush
    obtain ⟨-, a, _, hdata, rfl⟩ := Machine.exec_equalVerify_eq_ok_iff.1 hequal
    simp only [List.cons.injEq] at hdata
    obtain ⟨hbytes, hsame, rfl⟩ := hdata
    have hkey : Hash.hash160 key = hash := Digest.eq_of_bytes (hsame.trans hbytes.symm)
    obtain ⟨hops, key, sig, rest, valid, hdata, hvalid, hnull, rfl⟩ :=
      Machine.exec_checkSig_eq_ok_iff.1 hsig
    cases hdata
    exact ⟨hops, helement, hd₃, key, sig, rest, valid, rfl, hkey, hvalid, hnull, rfl⟩
  · rintro ⟨hops, helement, hdepth, key, sig, rest, valid, rfl, rfl, hvalid, hnull, rfl⟩
    simp only [List.length_cons] at hdepth
    refine ⟨_, ⟨_, Machine.exec_dup_eq_ok_iff.2 ⟨by omega, key, _, rfl, rfl⟩, ?_, _,
      Machine.exec_hash160_eq_ok_iff.2 ⟨by omega, key, _, rfl, rfl⟩, ?_, _,
      Machine.exec_hashPush_eq_ok_iff.2 ⟨helement, rfl⟩, ?_, _,
      Machine.exec_equalVerify_eq_ok_iff.2 ⟨by omega, _, _, rfl, rfl⟩, ?_, _,
      Machine.exec_checkSig_eq_ok_iff.2 ⟨hops, key, sig, rest, valid, rfl, hvalid, hnull, rfl⟩, ?_,
      rfl⟩, rfl, rfl⟩
    all_goals
      simp only [Machine.counted_depth, Stack.pushBool, List.length_cons]
      omega

end SpendScript
