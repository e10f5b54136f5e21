import SpendScript.Proofs.Eval.PushOnly
import SpendScript.Proofs.Eval.ShortestPush
import SpendScript.Proofs.Eval.Templates

/-!
# SpendScript.Proofs.Eval.ScriptHash

A script and the script that pays to its hash are spent by the same unlocking scripts, but for the
push of the script itself.

* `phasesFrom_toScriptHashOut`: what follows the unlocking script.
* `execute_toScriptHashOut`: the whole spend.
-/

namespace SpendScript

/-- A script that can be shown in a push and is then read back, and that asks for no other script. -/
structure Script.Wrappable (s : Script) : Prop where
  read : ofBytes s.toBytes = .ok s
  size : s.toBytes.length ≤ 520
  plain : s.isScriptHashOut = false

variable {env : Env} {redeem : Script}

theorem wraps_toScriptHashOut (hflag : env.flags.has .payToScriptHash = true) (redeem : Script) :
    env.wraps redeem.toScriptHashOut = true := by
  rw [Env.wraps, hflag, Bool.true_and]
  simp [Script.toScriptHashOut, Script.scriptHashOut, Script.isScriptHashOut, Script.hashPush,
    Chunk.pushes, Digest.length_eq]

/-- Where the unlocking script shows the redeem script, its hash is right, and the redeem script runs
on what is left below it. -/
theorem phasesFrom_toScriptHashOut (hlimits : env.limits = {})
    (hflag : env.flags.has .payToScriptHash = true) (hredeem : redeem.Wrappable) {left : Stack}
    (hleft : left.length ≤ 998) :
    phasesFrom env redeem.toScriptHashOut (redeem.toBytes :: left) = .ok () ↔
      phasesFrom env redeem left = .ok () := by
  have hplain : env.wraps redeem = false := by rw [Env.wraps, hredeem.plain, Bool.and_false]
  have hlocking : redeem.toScriptHashOut.runOn env (redeem.toBytes :: left) =
      .ok (Stack.pushBool true left) := by
    refine runOn_scriptHashOut_eq_ok_iff.2 ⟨?_, ?_, ?_, _, left, rfl, ?_⟩
    · rw [hlimits]
      decide
    · rw [hlimits]
      decide
    · rw [hlimits]
      exact Nat.add_le_add_right hleft 2
    · rw [beq_self_eq_true]
  have hsize : redeem.encodedLength ≤ env.limits.maxScriptSize := by
    rw [← Script.length_toBytes, hlimits]
    exact Nat.le_trans hredeem.size (by decide)
  rw [phasesFrom_eq_ok_iff hplain, phasesFrom_eq_ok_iff_of_wraps (wraps_toScriptHashOut hflag _)]
  constructor
  · rintro ⟨data, -, -, data', hrun, hresult⟩
    obtain ⟨top, rest, script, hshown, htop, -, hscript⟩ := runRedeem_eq_ok_iff.1 hrun
    cases hshown
    rw [hredeem.read] at htop
    cases htop
    exact ⟨data', hscript, hresult⟩
  · rintro ⟨data', hrun, hresult⟩
    exact ⟨_, hlocking, trueTop_eq_ok_iff.2 ⟨_, _, rfl, rfl⟩, data',
      runRedeem_eq_ok_iff.2 ⟨_, left, redeem, rfl, hredeem.read, hsize, hrun⟩, hresult⟩

/-! ## Redeem scripts of one byte -/

theorem phasesFrom_right_ne_ok {left : Stack} :
    phasesFrom env ⟨[.ofOpcode .right]⟩ left ≠ .ok () := by
  have hplain : env.wraps ⟨[.ofOpcode .right]⟩ = false := by
    rw [Env.wraps, show Script.isScriptHashOut ⟨[.ofOpcode .right]⟩ = false from rfl, Bool.and_false]
  intro h
  obtain ⟨data, hrun, -⟩ := (phasesFrom_eq_ok_iff hplain).1 h
  obtain ⟨m, hall, -⟩ := runOn_eq_ok_iff.1 hrun
  obtain ⟨m₁, hexec, -⟩ := Machine.execAll_cons_eq_ok_iff.1 hall
  exact Machine.exec_ne_ok_of_isDisabled rfl hexec

/-- A byte that announces data is no script by itself. -/
theorem Script.ofBytes_singleton_ne_ok {b : UInt8} (h : 1 ≤ b ∧ b ≤ Opcode.maxDirectPush) :
    ofBytes [b] ≠ .ok redeem := by
  have hpos : (0 : Nat) ≠ b.toNat := by
    have hle := UInt8.le_iff_toNat_le.1 h.1
    simp at hle
    omega
  have hread : readChunk 0 b [] = .error (.truncatedPush 0 b.toNat 0) := by
    rw [readChunk, if_pos h, readData, List.take_nil, List.length_nil, if_neg hpos]
  intro hok
  rw [ofBytes, decodeFrom] at hok
  split at hok
  · cases hok
  · rename_i hcs
    split at hcs
    · cases hcs
    · rename_i hread'
      rw [hread] at hread'
      cases hread'

/-- A script of one byte that is read back from it is pushed in the shortest form, as no opcode of
its own pushes that byte; the one exception is an opcode that is disabled. -/
theorem isMinimalPush_of_ofBytes {c : Chunk} (hread : Script.ofBytes redeem.toBytes = .ok redeem)
    (hc : Chunk.ofData? redeem.toBytes = some c) :
    c.isMinimalPush = true ∨ redeem = ⟨[.ofOpcode .right]⟩ := by
  rw [Chunk.isMinimalPush_iff_of_ofData? hc, or_iff_not_imp_left, not_not]
  rintro ⟨b, hb, hsmall | rfl⟩
  · rw [hb] at hread
    exact absurd hread
      (Script.ofBytes_singleton_ne_ok ⟨hsmall.1, UInt8.le_trans hsmall.2 (by decide)⟩)
  · have hright : Script.ofBytes [0x81] = .ok ⟨[.ofOpcode .right]⟩ :=
      Script.ofBytes_toBytes (s := ⟨[.ofOpcode .right]⟩) (by decide)
    rw [hb, hright] at hread
    cases hread
    rfl

/-! ## The whole spend -/

section Spend

variable {unlocking : Script} {c : Chunk}

theorem phases_toScriptHashOut (hlimits : env.limits = {})
    (hflag : env.flags.has .payToScriptHash = true) (hredeem : redeem.Wrappable)
    (hpush : unlocking.isPushOnly = true)
    (hleft : ∀ left, unlocking.runOn env [] = .ok left → left.length ≤ 998)
    (hc : Chunk.ofData? redeem.toBytes = some c) :
    phases env ⟨unlocking.chunks ++ [c]⟩ redeem.toScriptHashOut = .ok () ↔
      phases env unlocking redeem = .ok () := by
  have hpayload := Chunk.payload_of_ofData? hc
  have hcode := Chunk.code_le_of_ofData? hc
  rw [phases_eq_ok_iff, phases_eq_ok_iff]
  constructor
  · rintro ⟨_, hrun, hrest⟩
    obtain ⟨left, hunlocking, -, -, -, rfl⟩ := (runOn_append_eq_ok_iff hpush hcode).1 hrun
    rw [hpayload] at hrest
    exact ⟨left, hunlocking, (phasesFrom_toScriptHashOut hlimits hflag hredeem
      (hleft left hunlocking)).1 hrest⟩
  · rintro ⟨left, hunlocking, hrest⟩
    have hroom := hleft left hunlocking
    -- Where the push is refused for its form, the redeem script would have failed by itself.
    have hminimal : c.isMinimalPush = true := by
      rcases isMinimalPush_of_ofBytes hredeem.read hc with h | rfl
      · exact h
      · exact absurd hrest phasesFrom_right_ne_ok
    refine ⟨_, (runOn_append_eq_ok_iff hpush hcode).2
      ⟨left, hunlocking, ?_, fun _ => hminimal, ?_, rfl⟩, ?_⟩
    · rw [hpayload, hlimits]
      exact hredeem.size
    · rw [hlimits]
      exact Nat.le_trans (Nat.succ_le_succ hroom) (by decide)
    · rw [hpayload]
      exact (phasesFrom_toScriptHashOut hlimits hflag hredeem hroom).2 hrest

theorem Script.encodedLength_append (s : Script) (c : Chunk) :
    (⟨s.chunks ++ [c]⟩ : Script).encodedLength = s.encodedLength + c.encodedLength := by
  rw [← length_toBytes, ← length_toBytes]
  simp [toBytes]

theorem admitted_toScriptHashOut (hlimits : env.limits = {})
    (hflag : env.flags.has .payToScriptHash = true) (hpush : unlocking.isPushOnly = true)
    (hc : Chunk.ofData? redeem.toBytes = some c)
    (hfits : unlocking.encodedLength + c.encodedLength ≤ 10000) :
    Admitted env ⟨unlocking.chunks ++ [c]⟩ redeem.toScriptHashOut := by
  have hpush' := Script.isPushOnly_append hpush (Chunk.code_le_of_ofData? hc)
  have hlocking : redeem.toScriptHashOut.encodedLength = 23 := by
    simp [Script.toScriptHashOut, Script.scriptHashOut, Script.encodedLength, Script.hashPush,
      Chunk.encodedLength, Chunk.ofOpcode, show Chunk.lengthWidth 20 = 0 from rfl,
      Digest.length_eq]
  refine ⟨fun _ => hflag, ?_, ?_, fun _ => rfl, fun _ => hpush', fun _ => hpush'⟩
  · rw [Script.encodedLength_append, hlimits]
    exact hfits
  · rw [hlocking, hlimits]
    decide

/-- Two empty scripts leave nothing, which does not allow a spend. -/
theorem isEmpty_eq_false_of_phases (h : phases env unlocking redeem = .ok ())
    (hempty : unlocking.isEmpty = true) : redeem.isEmpty = false := by
  by_contra hempty'
  rw [Bool.not_eq_false] at hempty'
  have hplain : env.wraps redeem = false := by
    cases hw : env.wraps redeem with
    | false => rfl
    | true => simp [Evaluation.isEmpty_of_wraps hw] at hempty'
  obtain ⟨left, hleft, hrest⟩ := phases_eq_ok_iff.1 h
  obtain ⟨data, hdata, hresult⟩ := (phasesFrom_eq_ok_iff hplain).1 hrest
  rw [runOn_of_isEmpty hempty] at hleft
  cases hleft
  rw [runOn_of_isEmpty hempty'] at hdata
  cases hdata
  cases hresult

theorem admitted_of_phases (hlimits : env.limits = {})
    (hflag : env.flags.has .payToScriptHash = true) (hpush : unlocking.isPushOnly = true)
    (hsize : redeem.encodedLength ≤ 10000) (hsize' : unlocking.encodedLength ≤ 10000)
    (h : phases env unlocking redeem = .ok ()) : Admitted env unlocking redeem := by
  refine ⟨fun _ => hflag, ?_, ?_, isEmpty_eq_false_of_phases h, fun _ => hpush, fun _ => hpush⟩
  · rw [hlimits]
    exact hsize'
  · rw [hlimits]
    exact hsize

/-- **Paying to the hash of a script does not change what spends it.** The unlocking script only
pushes and leaves room for the redeem script and its hash; then a push of the redeem script behind it
spends the one output exactly where the unlocking script by itself spends the other. -/
theorem execute_toScriptHashOut (hlimits : env.limits = {})
    (hflag : env.flags.has .payToScriptHash = true)
    (hread : Script.ofBytes redeem.toBytes = .ok redeem) (hsize : redeem.toBytes.length ≤ 520)
    (hplain : redeem.isScriptHashOut = false) (hpush : unlocking.isPushOnly = true)
    (hleft : ∀ left, unlocking.runOn env [] = .ok left → left.length ≤ 998)
    (hfits : ∀ shown, unlocking.pushData redeem.toBytes = .ok shown →
      shown.toBytes.length ≤ 10000) :
    ∃ shown, unlocking.pushData redeem.toBytes = .ok shown ∧
      (execute env shown redeem.toScriptHashOut = .ok () ↔
        execute env unlocking redeem = .ok ()) := by
  obtain ⟨c, hc⟩ := Chunk.exists_ofData? (Nat.le_trans hsize (by decide))
  have hshown : unlocking.pushData redeem.toBytes = .ok ⟨unlocking.chunks ++ [c]⟩ := by
    rw [Script.pushData, hc]
  have hlength : unlocking.encodedLength + c.encodedLength ≤ 10000 := by
    rw [← Script.encodedLength_append, ← Script.length_toBytes]
    exact hfits _ hshown
  have hlength' : redeem.encodedLength ≤ 10000 := by
    rw [← Script.length_toBytes]
    exact Nat.le_trans hsize (by decide)
  have hphases := phases_toScriptHashOut hlimits hflag ⟨hread, hsize, hplain⟩ hpush hleft hc
  refine ⟨_, hshown, ?_⟩
  -- The rules about the scripts as a whole hold on both sides, wherever the scripts succeed.
  rw [execute_eq_ok_iff, execute_eq_ok_iff, hphases]
  constructor
  · rintro ⟨-, h⟩
    exact ⟨admitted_of_phases hlimits hflag hpush hlength' (by omega) h, h⟩
  · rintro ⟨-, h⟩
    exact ⟨admitted_toScriptHashOut hlimits hflag hpush hc hlength, h⟩

end Spend

/-- The rule about script hashes alone, and no transaction. -/
def Env.hashesOnly : Env := ⟨.payToScriptHash, {}, none, 0⟩

def Script.pushesTwo : Script := ⟨[.push 2 [7, 7], .push 2 [7, 7]]⟩

def Script.comparesTwo : Script := ⟨[.ofOpcode .equal]⟩

/-- A redeem script of one byte. -/
theorem execute_toScriptHashOut_comparesTwo :
    (Env.hashesOnly.limits = {} ∧ Env.hashesOnly.flags.has .payToScriptHash = true ∧
      Script.ofBytes Script.comparesTwo.toBytes = .ok .comparesTwo ∧
      Script.comparesTwo.toBytes.length ≤ 520 ∧ Script.comparesTwo.isScriptHashOut = false ∧
      Script.pushesTwo.isPushOnly = true ∧
      (∀ left, Script.pushesTwo.runOn .hashesOnly [] = .ok left → left.length ≤ 998) ∧
      ∀ shown, Script.pushesTwo.pushData Script.comparesTwo.toBytes = .ok shown →
        shown.toBytes.length ≤ 10000) ∧
    ∃ shown, Script.pushesTwo.pushData Script.comparesTwo.toBytes = .ok shown ∧
      (execute .hashesOnly shown Script.comparesTwo.toScriptHashOut = .ok () ↔
        execute .hashesOnly .pushesTwo .comparesTwo = .ok ()) := by
  have hread : Script.ofBytes Script.comparesTwo.toBytes = .ok .comparesTwo :=
    Script.ofBytes_toBytes (by decide)
  have hleft : ∀ left, Script.pushesTwo.runOn .hashesOnly [] = .ok left → left.length ≤ 998 := by
    intro left h
    have hrun : Script.pushesTwo.runOn .hashesOnly [] = .ok [[7, 7], [7, 7]] := rfl
    rw [hrun] at h
    cases h
    decide
  have hfits : ∀ shown, Script.pushesTwo.pushData Script.comparesTwo.toBytes = .ok shown →
      shown.toBytes.length ≤ 10000 := by
    intro shown h
    have hshown : Script.pushesTwo.pushData Script.comparesTwo.toBytes =
        .ok ⟨[.push 2 [7, 7], .push 2 [7, 7], .push 1 [0x87]]⟩ := rfl
    rw [hshown] at h
    cases h
    decide
  have hflag : Env.hashesOnly.flags.has .payToScriptHash = true := by decide
  have hsize : Script.comparesTwo.toBytes.length ≤ 520 := by decide
  have hpush : Script.pushesTwo.isPushOnly = true := by decide
  exact ⟨⟨rfl, hflag, hread, hsize, rfl, hpush, hleft, hfits⟩,
    execute_toScriptHashOut rfl hflag hread hsize rfl hpush hleft hfits⟩

end SpendScript
