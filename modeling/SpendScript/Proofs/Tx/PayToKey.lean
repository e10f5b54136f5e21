import SpendScript.Proofs.Eval.PayToKeyHash
import SpendScript.Proofs.Script.RoundTrip
import SpendScript.Proofs.Tx.Commitment
import SpendScript.Tx.PayToKey

/-!
# SpendScript.Proofs.Tx.PayToKey

What is signed for an output that pays to the hash of a key, the check of the input accepts. The
signature is made before the unlocking script is put into the transaction and checked after that,
for a script code from which pushes of the signature are taken out.

* `Vouches`: what is asked of the signer and of the check of its signatures.
* `Transaction.sigHash_setUnlocking`: the digest does not see the unlocking script.
* `PayToKey.unlockWith_eq`: the unlocking script, a push of the signature and one of the key.
* `PayToKey.acceptsInput_unlock`: the check of the input.
-/

namespace SpendScript

/-- What is asked of a signer about one digest. Its signature is canonical and has a low S, it is
longer than a hash, the key is in its compressed form, and whatever has the DER form of the signature
belongs to the key. -/
structure Vouches (signer : Signer) (verifier : Verifier) (t : HashType) (digest : Digest 32)
    (sig : Signature) : Prop where
  signed : signer.sign digest = .ok sig
  canonical : Der.isCanonicalTx (sig.toDer ++ [t]) = true
  lowS : sig.hasLowS = true
  long : 20 < (sig.toDer ++ [t]).length
  verified : ∀ sig', sig'.toDer = sig.toDer → verifier signer.publicKey digest sig' = true
  keyLength : signer.publicKey.length = 33
  keyTag : signer.publicKey.byteAt 0 = 2 ∨ signer.publicKey.byteAt 0 = 3

/-! ## The digest -/

namespace Transaction

theorem sigHash_withScripts (tx : Transaction) (scripts : Nat → Bytes) (i : Nat) (code : Script)
    (t : HashType) : (tx.withScripts scripts).sigHash i code t = tx.sigHash i code t := by
  have hinputs : (tx.withScripts scripts).inputs.length = tx.inputs.length := by
    simp [withScripts]
  rw [sigHash, sigHash, hinputs, preimage_withScripts]
  rfl

theorem setUnlocking_eq_withScripts (tx : Transaction) (i : Nat) (script : Script) :
    tx.setUnlocking i script =
      tx.withScripts fun k => if k = i then script.toBytes
        else (tx.inputs[k]?.map TxInput.script).getD [] := by
  rw [setUnlocking, withScripts, Transaction.mk.injEq]
  refine ⟨rfl, List.ext_getElem? fun k => ?_, rfl, rfl⟩
  rw [List.getElem?_modify, List.getElem?_mapIdx]
  by_cases hk : k = i
  · subst hk
    cases tx.inputs[k]? <;> simp
  · cases tx.inputs[k]? <;> simp [hk, Ne.symm hk]

theorem sigHash_setUnlocking (tx : Transaction) (i : Nat) (script : Script) (j : Nat)
    (code : Script) (t : HashType) :
    (tx.setUnlocking i script).sigHash j code t = tx.sigHash j code t := by
  rw [setUnlocking_eq_withScripts, sigHash_withScripts]

theorem exists_sigHash (tx : Transaction) {i : Nat} (hi : i < tx.inputs.length) (code : Script)
    (t : HashType) : ∃ digest, tx.sigHash i code t = .ok digest := by
  rw [sigHash, if_neg (Nat.not_le.2 hi)]
  split <;> exact ⟨_, rfl⟩

/-- A spend of an input that has just been given its unlocking script. -/
theorem acceptsInput_setUnlocking {tx : Transaction} {verifier : Verifier} {i : Nat}
    {flags : Flags} {unlocking locking : Script} (hi : i < tx.inputs.length)
    (hform : ∀ c ∈ unlocking.chunks, c.WellFormed)
    (h : execute ⟨flags, {}, some ((tx.setUnlocking i unlocking).context verifier), i⟩ unlocking
      locking = .ok ()) :
    (tx.setUnlocking i unlocking).acceptsInput verifier i flags locking = true := by
  have hinput : (tx.setUnlocking i unlocking).inputs[i]? =
      some { tx.inputs[i] with script := unlocking.toBytes } := by
    simp [setUnlocking, List.getElem?_eq_getElem hi]
  have hi' : i < (tx.setUnlocking i unlocking).inputs.length := by
    simpa [setUnlocking] using hi
  simp only [acceptsInput, hinput, TxInput.unlocking, Script.ofBytes_toBytes hform, acceptsSpend,
    accepts, h, hi', decide_true, Bool.and_true]

end Transaction

/-! ## The unlocking script -/

/-- Data that its length alone introduces, and that no opcode by itself pushes. -/
def Bytes.IsDirect (data : Bytes) : Prop := 1 < data.length ∧ data.length ≤ 0x4b

namespace Chunk

variable {data : Bytes}

def direct (data : Bytes) : Chunk := .push (UInt8.ofNat data.length) data

theorem ofData?_direct (h : data.IsDirect) : ofData? data = some (direct data) :=
  ofData?_of_length_le (List.ne_nil_of_length_pos (Nat.lt_of_succ_lt h.1)) h.2

theorem wellFormed_direct (h : data.IsDirect) : (direct data).WellFormed :=
  wellFormed_of_ofData? (ofData?_direct h)

theorem isPushOnly_direct (h : data.IsDirect) : (direct data).isPushOnly = true := by
  rw [isPushOnly, decide_eq_true_eq]
  exact UInt8.le_trans (directCode_le h.2) (by decide)

theorem encodedLength_direct (h : data.IsDirect) :
    (direct data).encodedLength = data.length + 1 := by
  rw [direct, encodedLength, lengthWidth_of_le (directCode_le h.2)]
  omega

end Chunk

namespace PayToKey

variable {sig : Signature} {key item : Bytes} {t : HashType}

/-- The script that shows a signature and a key. -/
def shows (item key : Bytes) : Script := ⟨[.direct item, .direct key]⟩

theorem unlockWith_eq (hsig : sig.hashType = some t) (hitem : Bytes.IsDirect (sig.toDer ++ [t]))
    (hkey : key.IsDirect) : unlockWith sig key = .ok (shows (sig.toDer ++ [t]) key) := by
  simp only [unlockWith, Signature.toTx, hsig, Script.pushAll, Script.pushData,
    Chunk.ofData?_direct hitem, Chunk.ofData?_direct hkey]
  rfl

theorem runOn_shows {env : Env} (hlimits : env.limits = {}) (hitem : item.IsDirect)
    (hkey : key.IsDirect) : (shows item key).runOn env [] = .ok [key, item] := by
  have hexec : ∀ (data : Bytes) (offset : Nat) (m : Machine), data.IsDirect →
      m.executing = true →
      m.exec env (shows item key).chunks offset (.direct data) = .ok (m.push data) := by
    intro data offset m hdata hx
    refine (Machine.exec_ofData?_eq_ok_iff (Chunk.ofData?_direct hdata)
      (Nat.ne_of_gt hdata.1) hx).2 ⟨?_, rfl⟩
    rw [hlimits]
    exact Nat.le_trans hdata.2 (by decide)
  refine runOn_eq_ok_iff.2 ⟨Machine.fresh [key, item], ?_, rfl, rfl⟩
  refine Machine.execAll_cons_eq_ok_iff.2 ⟨_, hexec item 0 _ hitem rfl, ?_, ?_⟩
  · rw [hlimits]
    exact (by decide : 1 ≤ ({} : Limits).maxStackSize)
  refine Machine.execAll_cons_eq_ok_iff.2 ⟨_, hexec key 1 _ hkey rfl, ?_, rfl⟩
  · rw [hlimits]
    exact (by decide : 2 ≤ ({} : Limits).maxStackSize)

theorem wellFormed_shows (hitem : item.IsDirect) (hkey : key.IsDirect) :
    ∀ c ∈ (shows item key).chunks, c.WellFormed := by
  simp only [shows, List.mem_cons, List.not_mem_nil, or_false]
  rintro c (rfl | rfl)
  · exact Chunk.wellFormed_direct hitem
  · exact Chunk.wellFormed_direct hkey

theorem isPushOnly_shows (hitem : item.IsDirect) (hkey : key.IsDirect) :
    (shows item key).isPushOnly = true := by
  simp [shows, Script.isPushOnly, Chunk.isPushOnly_direct hitem, Chunk.isPushOnly_direct hkey]

theorem encodedLength_shows (hitem : item.IsDirect) (hkey : key.IsDirect) :
    (shows item key).encodedLength = item.length + key.length + 2 := by
  simp only [shows, Script.encodedLength, List.foldr_cons, List.foldr_nil,
    Chunk.encodedLength_direct hitem, Chunk.encodedLength_direct hkey]
  omega

end PayToKey

/-! ## The check of the signature -/

theorem Der.length_of_isCanonicalTx {bs : Bytes} (h : isCanonicalTx bs = true) :
    9 ≤ bs.length ∧ bs.length ≤ 73 := by
  simp only [isCanonicalTx, Bool.and_eq_true, decide_eq_true_eq, and_assoc] at h
  exact ⟨h.1, h.2.1⟩

/-- No push of the script is as long as the signature. -/
theorem Script.withoutPush_pubkeyHashOut {item : Bytes} (hash : Digest 20)
    (h : 20 < item.length) :
    (pubkeyHashOut hash).withoutPush item = pubkeyHashOut hash := by
  have hshort : ∀ c ∈ (pubkeyHashOut hash).chunks, c.payload.length ≤ 20 := by
    simp [pubkeyHashOut, hashPush, Chunk.payload, Chunk.data?, Chunk.ofOpcode, hash.length_eq]
  rw [withoutPush, Script.mk.injEq, List.filter_eq_self]
  intro c hc
  rw [decide_eq_true_eq]
  intro hpush
  have hle := hshort c hc
  rw [Chunk.payload_of_ofData? hpush] at hle
  omega

namespace Vouches

variable {signer : Signer} {verifier : Verifier} {t : HashType} {digest : Digest 32}
  {sig : Signature}

theorem checkSig (h : Vouches signer verifier t digest sig) (ht : HashType.isDefined t = true)
    (env : Env) {tx : Transaction} {code : Script}
    (hctx : env.context = some (tx.context verifier))
    (hdigest : tx.sigHash env.input code t = .ok digest) :
    env.checkSig code (sig.toDer ++ [t]) signer.publicKey = .ok true := by
  have htype : env.checkHashType t = .ok () := by
    rw [Env.checkHashType, ht, Bool.not_true, Bool.and_false, if_neg Bool.false_ne_true]
  have hform : env.checkSigForm sig.toDer = .ok () :=
    Env.checkSigForm_eq_ok_iff.2 fun _ _ =>
      ⟨derFault?_eq_none_iff.2 h.canonical, fun _ => h.lowS⟩
  have hkey : env.checkKeyForm signer.publicKey = .ok () := by
    rw [Env.checkKeyForm, h.keyLength]
    rcases h.keyTag with htag | htag <;> simp [htag]
  have hanswer : tx.answer verifier
      ⟨sig.toDer ++ [t], signer.publicKey, code, env.input, t⟩ = .ok true := by
    let read : Signature := ⟨sig.body, some t, false, none⟩
    have hread : Signature.ofTx (sig.toDer ++ [t]) = .ok read := by
      simp only [Signature.ofTx, List.getLast?_concat, List.dropLast_concat]
      rfl
    have hverified : verifier signer.publicKey digest read = true := h.verified read rfl
    simp only [Transaction.answer, hread, Transaction.verifySignature, hdigest, if_true,
      hverified, read]
  exact Env.checkSig_concat_eq_ok_iff.2
    ⟨htype, hform, hkey, Env.ask_eq_ok_iff.2 ⟨_, hctx, hanswer⟩⟩

end Vouches

/-! ## The check of the input -/

namespace PayToKey

/-- A spend that shows a key and an item of which the check says that it is a signature. -/
theorem execute_shows {env : Env} {item key : Bytes} (hlimits : env.limits = {})
    (hflags : env.flags.has .cleanStack = true → env.flags.has .payToScriptHash = true)
    (hlong : 20 < item.length) (hshort : item.length ≤ 73) (hlen : key.length = 33)
    (hsig : env.checkSig (.pubkeyHashOut (Hash.hash160 key)) item key = .ok true) :
    execute env (shows item key) (.pubkeyHashOut (Hash.hash160 key)) = .ok () := by
  have hitem : item.IsDirect := ⟨by omega, by omega⟩
  have hkey : key.IsDirect := ⟨by omega, by omega⟩
  have hleft := runOn_shows hlimits hitem hkey
  have hlocking : (Script.pubkeyHashOut (Hash.hash160 key)).runOn env [key, item] =
      .ok (Stack.pushBool true []) := by
    rw [← Script.withoutPush_pubkeyHashOut _ hlong, ← signedCode_pubkeyHashOut] at hsig
    refine runOn_pubkeyHashOut_eq_ok_iff.2
      ⟨?_, ?_, ?_, key, item, [], true, rfl, rfl, hsig, by simp, rfl⟩
    · rw [hlimits]
      decide
    · rw [hlimits]
      decide
    · rw [hlimits]
      exact (by decide : 4 ≤ ({} : Limits).maxStackSize)
  have hplain := wraps_pubkeyHashOut env (Hash.hash160 key)
  have hsize : (shows item key).encodedLength ≤ env.limits.maxScriptSize := by
    rw [encodedLength_shows hitem hkey, hlimits]
    exact Nat.le_trans (by omega : _ ≤ 108) (by decide)
  refine execute_eq_ok_iff.2 ⟨⟨hflags, hsize, ?_, fun _ => rfl, ?_, ?_⟩, ?_⟩
  · rw [hlimits]
    exact (by decide : 25 ≤ ({} : Limits).maxScriptSize)
  · intro _
    exact isPushOnly_shows hitem hkey
  · rw [hplain]
    simp
  · exact phases_eq_ok_iff.2 ⟨_, hleft, (phasesFrom_eq_ok_iff hplain).2 ⟨_, hlocking,
      finalCheck_eq_ok_iff.2 ⟨_, _, rfl, rfl, fun _ => rfl⟩⟩⟩

/-- **What is signed is accepted.** For any transaction, any of its inputs, any defined hash type,
any network and all flags that go together: the unlocking script that is made for an output that pays
to the address of the key satisfies the script of that output. -/
theorem acceptsInput_unlock {signer : Signer} {verifier : Verifier} {tx : Transaction}
    {i : Nat} {t : HashType} {flags : Flags} (network : Network) (hi : i < tx.inputs.length)
    (ht : HashType.isDefined t = true)
    (hflags : flags.has .cleanStack = true → flags.has .payToScriptHash = true)
    (hvouches : ∀ digest,
      tx.sigHash i (.pubkeyHashOut (Hash.hash160 signer.publicKey)) t = .ok digest →
      ∃ sig, Vouches signer verifier t digest sig) :
    ∃ locking unlocking,
      (Address.ofPublicKey signer.publicKey network).payToKey = .ok locking ∧
      unlock signer t tx i locking = .ok unlocking ∧
      (tx.setUnlocking i unlocking).acceptsInput verifier i flags locking = true ∧
      unlocking.toBytes.length ≤ maxLength := by
  obtain ⟨digest, hdigest⟩ :=
    tx.exists_sigHash hi (.pubkeyHashOut (Hash.hash160 signer.publicKey)) t
  obtain ⟨sig, hsig⟩ := hvouches digest hdigest
  have hlong : 20 < (sig.toDer ++ [t]).length := hsig.long
  have hshort : (sig.toDer ++ [t]).length ≤ 73 :=
    (Der.length_of_isCanonicalTx hsig.canonical).2
  have hlen := hsig.keyLength
  have hitem : Bytes.IsDirect (sig.toDer ++ [t]) := ⟨by omega, by omega⟩
  have hkey : signer.publicKey.IsDirect := ⟨by omega, by omega⟩
  refine ⟨_, shows (sig.toDer ++ [t]) signer.publicKey, rfl, ?_, ?_, ?_⟩
  · have hsign : tx.sign i (.pubkeyHashOut (Hash.hash160 signer.publicKey)) t signer =
        .ok (sig.withHashType t) := by
      simp only [Transaction.sign, hdigest, hsig.signed]
    have hunlock : unlockWith (sig.withHashType t) signer.publicKey =
        .ok (shows (sig.toDer ++ [t]) signer.publicKey) :=
      unlockWith_eq rfl hitem hkey
    simp only [unlock, Address.ofPublicKey, hsign, hunlock]
  · -- The digest that is checked is that of the transaction with its new unlocking script.
    have hdigest' := (tx.sigHash_setUnlocking i (shows (sig.toDer ++ [t]) signer.publicKey) i
      (.pubkeyHashOut (Hash.hash160 signer.publicKey)) t).trans hdigest
    exact Transaction.acceptsInput_setUnlocking hi (wellFormed_shows hitem hkey)
      (execute_shows rfl hflags hlong hshort hlen (hsig.checkSig ht _ rfl hdigest'))
  · rw [Script.length_toBytes, encodedLength_shows hitem hkey, maxLength]
    omega

end PayToKey

/-! ## The curve as signer -/

theorem PublicKey.length_toCompressed (k : PublicKey) : k.toCompressed.length = 33 := by
  simp [toCompressed]

theorem PublicKey.byteAt_toCompressed (k : PublicKey) :
    k.toCompressed.byteAt 0 = 2 ∨ k.toCompressed.byteAt 0 = 3 := by
  simp only [toCompressed]
  split
  · exact .inr rfl
  · exact .inl rfl

/-- The check of a signature reads its DER form only. -/
theorem PublicKey.verifier_eq_of_toDer {sig sig' : Signature} (h : sig.toDer = sig'.toDer)
    (key : Bytes) (digest : Digest 32) :
    verifier key digest sig = verifier key digest sig' := by
  obtain ⟨-, hbody⟩ := List.cons.inj h
  have hvalues : strictValues? sig = strictValues? sig' := by
    simp only [strictValues?, Signature.components, hbody]
  simp only [verifier, verify, hvalues]

namespace PrivateKey

/-- The key whose public key is the base point of the curve. -/
def one : PrivateKey := ⟨1, by decide, by decide⟩

/-- The signature of `one` over the digest for a missing output. -/
def oneSignature : Signature :=
  ⟨[68, 2, 32, 31, 154, 182, 188, 229, 24, 85, 23, 144, 0, 117, 79, 35, 155, 205, 201, 22, 130, 229,
    86, 39, 85, 20, 236, 114, 166, 180, 41, 184, 151, 45, 162, 2, 32, 118, 186, 98, 40, 20, 77, 186,
    174, 255, 181, 229, 142, 173, 98, 129, 165, 107, 212, 227, 174, 5, 240, 137, 13, 27, 187, 93,
    173, 143, 97, 177, 172], none, true, none⟩

theorem sign_one : one.signer.sign Transaction.missingOutput = .ok oneSignature := by
  have hsign : (one.signer.sign Transaction.missingOutput).toOption = some oneSignature := by
    decide +kernel
  cases h : one.signer.sign Transaction.missingOutput with
  | error e =>
    rw [h] at hsign
    cases hsign
  | ok sig =>
    rw [h] at hsign
    cases hsign
    rfl

theorem verifier_oneSignature :
    PublicKey.verifier one.publicKey.toCompressed Transaction.missingOutput oneSignature = true := by
  decide +kernel

theorem vouches_one :
    Vouches one.signer PublicKey.verifier HashType.single Transaction.missingOutput oneSignature := by
  have hkey : one.signer.publicKey = one.publicKey.toCompressed := rfl
  refine ⟨sign_one, by decide +kernel, by decide +kernel, by decide, ?_, ?_, ?_⟩
  · intro sig' hder
    rw [PublicKey.verifier_eq_of_toDer hder]
    exact verifier_oneSignature
  · rw [hkey, PublicKey.length_toCompressed]
  · rw [hkey]
    exact PublicKey.byteAt_toCompressed _

end PrivateKey

/-- A transaction with one input and no outputs, signed by a key of the curve for the output that is
not there. -/
theorem PayToKey.acceptsInput_unlock_one :
    let tx : Transaction := ⟨1, [⟨.null, [], 0⟩], [], 0⟩
    0 < tx.inputs.length ∧ HashType.isDefined HashType.single = true ∧
      ∃ locking unlocking,
        (Address.ofPublicKey PrivateKey.one.signer.publicKey .testnet).payToKey = .ok locking ∧
        unlock PrivateKey.one.signer HashType.single tx 0 locking = .ok unlocking ∧
        (tx.setUnlocking 0 unlocking).acceptsInput PublicKey.verifier 0 .standard locking = true ∧
        unlocking.toBytes.length ≤ maxLength := by
  intro tx
  refine ⟨by decide, by decide, acceptsInput_unlock .testnet (by decide) (by decide)
    (by decide) ?_⟩
  intro digest hdigest
  have hmissing : tx.sigHash 0 (.pubkeyHashOut (Hash.hash160 PrivateKey.one.signer.publicKey))
      HashType.single = .ok Transaction.missingOutput := rfl
  rw [hmissing] at hdigest
  cases hdigest
  exact ⟨_, PrivateKey.vouches_one⟩

end SpendScript
