import SpendScript.Proofs.Eval.SigForm
import SpendScript.Proofs.Eval.Templates

/-!
# SpendScript.Proofs.Eval.PayToKeyHash

What it takes to spend an output that pays to the hash of a key. The unlocking script may be any
program; of what it does only the data stack gets to the locking script, and that script wants a key
with the hash and, from the context, the word that a signature belongs to it.

* `execute_pubkeyHashOut_verified`: a spend that is allowed had such a signature.
-/

namespace SpendScript

/-- The script without the shortest pushes of `data`. -/
def Script.withoutPush (s : Script) (data : Bytes) : Script :=
  ⟨s.chunks.filter (fun c => Chunk.ofData? data ≠ some c)⟩

/-- The script has no separators, so that a signature covers all of it but its own pushes. -/
theorem signedCode_pubkeyHashOut (hash : Digest 20) (sig : Bytes) :
    signedCode (Script.pubkeyHashOut hash).chunks 0 [sig] =
      (Script.pubkeyHashOut hash).withoutPush sig := by
  have hno : Chunk.ofOpcode .codeSeparator ∉ (Script.pubkeyHashOut hash).chunks := by
    simp [Script.pubkeyHashOut, Script.hashPush, Chunk.ofOpcode, Opcode.byte]
  rw [signedCode, Script.withoutPush, List.drop_zero, Script.mk.injEq]
  apply List.filter_congr
  intro c hc
  have hsep : c ≠ .ofOpcode .codeSeparator := by
    rintro rfl
    exact hno hc
  cases hpush : Chunk.ofData? sig <;> simp [hsep, hpush, eq_comm]

theorem wraps_pubkeyHashOut (env : Env) (hash : Digest 20) :
    env.wraps (Script.pubkeyHashOut hash) = false := by
  rw [Env.wraps, show (Script.pubkeyHashOut hash).isScriptHashOut = false from rfl, Bool.and_false]

theorem Env.exists_verify_of_checkSig {env : Env} {code : Script} {sig key : Bytes}
    (h : env.checkSig code sig key = .ok true) :
    ∃ ctx, env.context = some ctx ∧
      ∃ hne : sig ≠ [], ctx.verify ⟨sig, key, code, env.input, sig.getLast hne⟩ = .ok true := by
  rcases List.eq_nil_or_concat sig with rfl | ⟨der, t, rfl⟩
  · exact absurd (checkSig_nil_eq_ok_iff.1 h).2 (by decide)
  · rw [List.concat_eq_append] at h ⊢
    obtain ⟨-, -, -, hask⟩ := checkSig_concat_eq_ok_iff.1 h
    obtain ⟨ctx, hctx, hverify⟩ := ask_eq_ok_iff.1 hask
    refine ⟨ctx, hctx, by simp, ?_⟩
    rw [List.getLast_concat]
    exact hverify

/-- **A spend from the hash of a key has a verifying signature.** Whatever the unlocking script does,
it leaves a key that has the hash and below it a signature, of which the context says that it belongs
to that key, for the locking script without the signature and the hash type at its end. -/
theorem execute_pubkeyHashOut_verified {env : Env} {unlocking : Script} {hash : Digest 20}
    (h : execute env unlocking (.pubkeyHashOut hash) = .ok ()) :
    ∃ key sig rest ctx, unlocking.runOn env [] = .ok (key :: sig :: rest) ∧
      Hash.hash160 key = hash ∧ env.context = some ctx ∧
      ∃ hne : sig ≠ [],
        ctx.verify ⟨sig, key, (Script.pubkeyHashOut hash).withoutPush sig, env.input,
          sig.getLast hne⟩ = .ok true := by
  obtain ⟨-, hphases⟩ := execute_eq_ok_iff.1 h
  obtain ⟨left, hleft, hlocking⟩ := phases_eq_ok_iff.1 hphases
  obtain ⟨data, hdata, hresult⟩ :=
    (phasesFrom_eq_ok_iff (wraps_pubkeyHashOut env hash)).1 hlocking
  obtain ⟨-, -, -, key, sig, rest, valid, rfl, hkey, hvalid, -, rfl⟩ :=
    runOn_pubkeyHashOut_eq_ok_iff.1 hdata
  obtain ⟨top, below, hpushed, htrue, -⟩ := finalCheck_eq_ok_iff.1 hresult
  cases hpushed
  -- The only thing that the locking script leaves on top is the answer of the check.
  rw [Number.truth_ofBool] at htrue
  rw [htrue, signedCode_pubkeyHashOut] at hvalid
  obtain ⟨ctx, hctx, hverify⟩ := Env.exists_verify_of_checkSig hvalid
  exact ⟨key, sig, rest, ctx, hleft, hkey, hctx, hverify⟩

/-- An unlocking script that keeps an item back on its other stack. -/
def Script.hoarding : Script :=
  ⟨[.push 1 [9], .ofOpcode .toAltStack, .push 9 [0x30, 6, 2, 1, 1, 2, 1, 1, 0x01], .push 1 [2]]⟩

theorem execute_pubkeyHashOut_verified_hoarding :
    execute .credulous .hoarding (.pubkeyHashOut (Hash.hash160 [2])) = .ok () ∧
      ∃ key sig rest ctx, Script.hoarding.runOn .credulous [] = .ok (key :: sig :: rest) ∧
        Hash.hash160 key = Hash.hash160 [2] ∧ Env.credulous.context = some ctx ∧
        ∃ hne : sig ≠ [],
          ctx.verify ⟨sig, key, (Script.pubkeyHashOut (Hash.hash160 [2])).withoutPush sig,
            Env.credulous.input, sig.getLast hne⟩ = .ok true := by
  have hleft : Script.hoarding.runOn .credulous [] =
      .ok [[2], [0x30, 6, 2, 1, 1, 2, 1, 1, 0x01]] := by rfl
  have hlocking : (Script.pubkeyHashOut (Hash.hash160 [2])).runOn .credulous
      [[2], [0x30, 6, 2, 1, 1, 2, 1, 1, 0x01]] = .ok (Stack.pushBool true []) :=
    runOn_pubkeyHashOut_eq_ok_iff.2
      ⟨by decide, by decide, by decide, _, _, [], true, rfl, rfl, rfl, by simp, rfl⟩
  have hphases : phases .credulous .hoarding (.pubkeyHashOut (Hash.hash160 [2])) = .ok () :=
    phases_eq_ok_iff.2 ⟨_, hleft, (phasesFrom_eq_ok_iff (wraps_pubkeyHashOut _ _)).2
      ⟨_, hlocking, rfl⟩⟩
  have hadmitted : Admitted .credulous .hoarding (.pubkeyHashOut (Hash.hash160 [2])) :=
    ⟨by decide, by decide, by decide, by decide, by decide, by decide⟩
  have hexecute := execute_eq_ok_iff.2 ⟨hadmitted, hphases⟩
  exact ⟨hexecute, execute_pubkeyHashOut_verified hexecute⟩

end SpendScript
