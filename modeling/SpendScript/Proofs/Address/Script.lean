import SpendScript.Address
import SpendScript.Proofs.Script.HashTemplates

/-!
# SpendScript.Proofs.Address.Script

Addresses and the locking scripts that pay to them. The script of an address has the address back.
The address of a recognized locking script has that script back up to the form of its push, unless
the script carries data: then the address is the one that it would be spent from as an unlocking
script.

* `ofScript_pubkeyHashOutBy`, `ofScript_scriptHashOutBy`: the address of a script that pays to a
  hash.
* `ofScript_dataOut_eq_ok_iff`: the address of a script that carries data.
* `ofScript_inverts_toScript`: both directions for all recognized locking scripts.
-/

namespace SpendScript

namespace Script

/-- `OP_RETURN payload`, with the payload behind the opcode byte `code`. -/
def dataOutBy (code : UInt8) (payload : Bytes) : Script :=
  ⟨[.ofOpcode .returnOp, .push code payload]⟩

theorem classOut_pubkeyHashOutBy (code : UInt8) (hash : Digest 20) :
    (pubkeyHashOutBy code hash).classOut = .pubkeyHashOut := by
  rw [classOut, if_pos (isPubkeyHashOut_iff.2 ⟨code, hash, rfl⟩)]

theorem classOut_scriptHashOutBy (code : UInt8) (hash : Digest 20) :
    (scriptHashOutBy code hash).classOut = .scriptHashOut := by
  have hkey : (scriptHashOutBy code hash).isPubkeyHashOut = false := rfl
  rw [classOut, hkey, if_neg Bool.false_ne_true, if_pos (isScriptHashOut_iff.2 ⟨code, hash, rfl⟩)]

theorem classOut_dataOutBy (code : UInt8) (payload : Bytes) :
    (dataOutBy code payload).classOut = .dataOut := rfl

theorem redeemScript?_dataOutBy_eq_some_iff {code : UInt8} {payload : Bytes} {redeem : Script} :
    (dataOutBy code payload).redeemScript? = some redeem ↔
      ofBytes payload = .ok redeem ∧ redeem.classOut ≠ .unknown := by
  have hchunks : (dataOutBy code payload).chunks.reverse =
      [.push code payload, .ofOpcode .returnOp] := rfl
  simp only [redeemScript?, hchunks]
  cases ofBytes payload with
  | error e => simp
  | ok s =>
    dsimp only
    by_cases hclass : s.classOut = .unknown
    · rw [if_pos hclass]
      constructor
      · exact nofun
      · rintro ⟨heq, hne⟩
        cases heq
        exact absurd hclass hne
    · rw [if_neg hclass]
      constructor
      · intro heq
        cases heq
        exact ⟨rfl, hclass⟩
      · rintro ⟨heq, -⟩
        cases heq
        rfl

/-- A script that carries data is no unlocking script, unless the data is a redeem script. -/
theorem classIn_dataOutBy (code : UInt8) (payload : Bytes) :
    (dataOutBy code payload).classIn =
      if (dataOutBy code payload).isScriptHashIn then .scriptHashIn else .unknown := rfl

theorem isDataOut_cases {s : Script} (h : s.isDataOut = true) :
    s = ⟨[.ofOpcode .returnOp]⟩ ∨ ∃ code payload, s = dataOutBy code payload := by
  cases s with
  | mk chunks =>
    simp only [isDataOut] at h
    split at h
    · rw [beq_iff_eq] at h
      rw [h]
      exact .inl rfl
    · rename_i a b
      rw [Bool.and_eq_true, beq_iff_eq] at h
      obtain ⟨rfl, hpush⟩ := h
      cases b with
      | op code => cases hpush
      | push code payload => exact .inr ⟨code, payload, rfl⟩
    · cases h

end Script

namespace Address

theorem lastData?_concat_op (cs : List Chunk) (code : UInt8) :
    lastData? ⟨cs ++ [.op code]⟩ = none := by
  rw [lastData?, List.getLast?_concat]
  rfl

theorem lastData?_of_isMultisigOut {s : Script} (h : s.isMultisigOut = true) :
    lastData? s = none := by
  cases s with
  | mk chunks =>
    simp only [Script.isMultisigOut] at h
    split at h
    · cases h
    · rename_i first rest
      split at h
      · rename_i last count keys hreverse
        split at h
        · simp only [Bool.and_eq_true, beq_iff_eq] at h
          obtain ⟨⟨rfl, -⟩, -⟩ := h
          have hrest : rest = (count :: keys).reverse ++ [.ofOpcode .checkMultiSig] := by
            rw [← List.reverse_reverse rest, hreverse, List.reverse_cons]
          rw [hrest, ← List.cons_append]
          exact lastData?_concat_op _ _
        · cases h
      · cases h

theorem lastData?_of_isPubkeyOut {s : Script} (h : s.isPubkeyOut = true) : lastData? s = none := by
  cases s with
  | mk chunks =>
    simp only [Script.isPubkeyOut] at h
    split at h
    · rename_i a b
      rw [Bool.and_eq_true, beq_iff_eq] at h
      rw [h.2]
      rfl
    · cases h

/-- A script that fits a template for locking scripts pays to a hash, carries data, or fits another
template and ends in an opcode. -/
theorem classOut_cases {s : Script} (h : s.classOut ≠ .unknown) :
    (∃ code hash, s = .pubkeyHashOutBy code hash) ∨ (∃ code hash, s = .scriptHashOutBy code hash) ∨
      (∃ code payload, s = .dataOutBy code payload) ∨
      s.classOut ≠ .pubkeyHashOut ∧ s.classOut ≠ .scriptHashOut ∧ lastData? s = none := by
  rw [Script.classOut] at h ⊢
  split_ifs at h ⊢ with hkey hscript hmultisig hdata hpubkey
  · exact .inl (Script.isPubkeyHashOut_iff.1 hkey)
  · exact .inr (.inl (Script.isScriptHashOut_iff.1 hscript))
  · exact .inr (.inr (.inr ⟨nofun, nofun, lastData?_of_isMultisigOut hmultisig⟩))
  · rcases Script.isDataOut_cases hdata with rfl | hpush
    · exact .inr (.inr (.inr ⟨nofun, nofun, rfl⟩))
    · exact .inr (.inr (.inl hpush))
  · exact .inr (.inr (.inr ⟨nofun, nofun, lastData?_of_isPubkeyOut hpubkey⟩))
  · exact absurd rfl h

/-! ## The address of a script -/

theorem ofScript_of_ofLocking? {s : Script} {network : Network} {a : Address}
    (h : ofLocking? s network = some a) : ofScript s network = .ok a := by
  rw [ofScript, h]

theorem ofScript_pubkeyHashOutBy (code : UInt8) (hash : Digest 20) (network : Network) :
    ofScript (.pubkeyHashOutBy code hash) network = .ok ⟨hash, network, .pubkeyHash⟩ := by
  have hhash : hashIn? (.pubkeyHashOutBy code hash) = some hash := by
    simp [hashIn?, Script.pubkeyHashOutBy, Chunk.data?, Chunk.ofOpcode]
  apply ofScript_of_ofLocking?
  rw [ofLocking?, Script.classOut_pubkeyHashOutBy, hhash]
  rfl

theorem ofScript_scriptHashOutBy (code : UInt8) (hash : Digest 20) (network : Network) :
    ofScript (.scriptHashOutBy code hash) network = .ok ⟨hash, network, .scriptHash⟩ := by
  have hhash : hashIn? (.scriptHashOutBy code hash) = some hash := by
    simp [hashIn?, Script.scriptHashOutBy, Chunk.data?, Chunk.ofOpcode]
  apply ofScript_of_ofLocking?
  rw [ofLocking?, Script.classOut_scriptHashOutBy, hhash]
  rfl

theorem ofScript_dataOut_eq_ok_iff {code : UInt8} {payload : Bytes} {network : Network}
    {a : Address} :
    ofScript (.dataOutBy code payload) network = .ok a ↔
      ∃ redeem, (Script.dataOutBy code payload).redeemScript? = some redeem ∧
        a = ofRedeem redeem network := by
  have hlocking : ofLocking? (.dataOutBy code payload) network = none := rfl
  have hlast : lastData? (.dataOutBy code payload) = some payload := rfl
  rw [ofScript, hlocking, ofUnlocking?, Script.classIn_dataOutBy, Script.isScriptHashIn]
  cases hredeem : (Script.dataOutBy code payload).redeemScript? with
  | none => simp
  | some redeem =>
    obtain ⟨hread, -⟩ := Script.redeemScript?_dataOutBy_eq_some_iff.1 hredeem
    have hbytes : redeem.toBytes = payload := (Script.ofBytes_eq_ok_iff.1 hread).2
    simp [hlast, ofRedeem, hbytes, eq_comm]

theorem ofScript_ne_ok {s : Script} {network : Network} (hkey : s.classOut ≠ .pubkeyHashOut)
    (hscript : s.classOut ≠ .scriptHashOut) (hlast : lastData? s = none) (a : Address) :
    ofScript s network ≠ .ok a := by
  have hlocking : ofLocking? s network = none := by
    rw [ofLocking?]
    split
    · exact absurd ‹_› hkey
    · exact absurd ‹_› hscript
    · rfl
  have hunlocking : ofUnlocking? s network = none := by
    rw [ofUnlocking?, hlast]
    split <;> rfl
  rw [ofScript, hlocking, hunlocking]
  dsimp only
  split <;> exact nofun

theorem ofScript_toScript (a : Address) : ofScript a.toScript a.network = .ok a := by
  cases a with
  | mk hash network kind =>
    cases kind with
    | pubkeyHash => exact ofScript_pubkeyHashOutBy 20 hash network
    | scriptHash => exact ofScript_scriptHashOutBy 20 hash network

/-- **Scripts and their addresses.** The script of an address has that address, and a recognized
locking script is the script of its address if it pays to a hash and pushes it in the shortest form.
In another form of the push the script of the address is the one with the shortest form. A script
that carries data has an address only as the unlocking script that it would be, and its data is the
redeem script of that address. -/
theorem ofScript_inverts_toScript :
    (∀ (s : Script) (network : Network) (a : Address), s.classOut ≠ .unknown →
      ofScript s network = .ok a →
        (s.classOut ≠ .dataOut → a.toScript = s.shortest) ∧
        (s.classOut = .dataOut →
          ∃ redeem, s.redeemScript? = some redeem ∧ a = ofRedeem redeem network) ∧
        (a.toScript = s ↔ s.classOut ≠ .dataOut ∧ s.shortest = s)) ∧
    ∀ a : Address, ofScript a.toScript a.network = .ok a := by
  refine ⟨?_, ofScript_toScript⟩
  intro s network a hclass h
  rcases classOut_cases hclass with ⟨code, hash, rfl⟩ | ⟨code, hash, rfl⟩ | ⟨code, payload, rfl⟩ |
    ⟨hkey, hscript, hlast⟩
  · rw [ofScript_pubkeyHashOutBy] at h
    cases h
    rw [Script.classOut_pubkeyHashOutBy, Script.shortest_pubkeyHashOutBy]
    simp [toScript]
  · rw [ofScript_scriptHashOutBy] at h
    cases h
    rw [Script.classOut_scriptHashOutBy, Script.shortest_scriptHashOutBy]
    simp [toScript]
  · obtain ⟨redeem, hredeem, rfl⟩ := ofScript_dataOut_eq_ok_iff.1 h
    rw [Script.classOut_dataOutBy]
    refine ⟨fun hne => absurd rfl hne, fun _ => ⟨redeem, hredeem, rfl⟩, ?_⟩
    constructor
    · intro heq
      have hlength := congrArg Script.length heq
      cases hlength
    · rintro ⟨hne, -⟩
      exact absurd rfl hne
  · exact absurd h (ofScript_ne_ok hkey hscript hlast a)

/-- The script of three bytes that carries itself, up to the push. -/
def returnsReturn : Script := .dataOutBy 1 [0x6a]

theorem redeemScript?_returnsReturn :
    returnsReturn.redeemScript? = some ⟨[.ofOpcode .returnOp]⟩ := by
  have hread : Script.ofBytes [0x6a] = .ok ⟨[.ofOpcode .returnOp]⟩ :=
    @Script.ofBytes_toBytes ⟨[.ofOpcode .returnOp]⟩ (by decide)
  exact Script.redeemScript?_dataOutBy_eq_some_iff.2 ⟨hread, by decide⟩

theorem ofScript_inverts_toScript_longPush :
    (Script.longPush.classOut ≠ .unknown ∧
      ofScript .longPush .testnet = .ok ⟨.zero 20, .testnet, .scriptHash⟩) ∧
    (Script.longPush.classOut ≠ .dataOut →
      toScript ⟨.zero 20, .testnet, .scriptHash⟩ = Script.longPush.shortest) := by
  have hclass : Script.longPush.classOut ≠ .unknown := by decide
  have h := ofScript_scriptHashOutBy Chunk.pushData1 (.zero 20) .testnet
  exact ⟨⟨hclass, h⟩, (ofScript_inverts_toScript.1 .longPush .testnet _ hclass h).1⟩

/-- Two recognized locking scripts that are not the script of their address: one carries data that
would be a redeem script, the other pushes the hash in a longer form. -/
theorem toScript_ne_of_ofScript :
    (Script.ofBytes returnsReturn.toBytes = .ok returnsReturn ∧ returnsReturn.classOut ≠ .unknown ∧
      ∃ a, ofScript returnsReturn .livenet = .ok a ∧ a.toScript ≠ returnsReturn) ∧
    Script.ofBytes Script.longPush.toBytes = .ok .longPush ∧ Script.longPush.classOut ≠ .unknown ∧
      ∃ a, ofScript .longPush .livenet = .ok a ∧ a.toScript ≠ .longPush := by
  refine ⟨⟨Script.ofBytes_toBytes (by decide), by decide, _,
    ofScript_dataOut_eq_ok_iff.2 ⟨_, redeemScript?_returnsReturn, rfl⟩, ?_⟩,
    Script.ofBytes_longPush, by decide, _, ofScript_scriptHashOutBy _ _ _, by decide⟩
  intro heq
  cases congrArg Script.length heq

end Address

end SpendScript
