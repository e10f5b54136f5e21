import SpendScript.Tx.Signing
import SpendScript.Script.Class
import SpendScript.Curve.PrivateKey

/-!
# SpendScript.Tx.PayToKey

Spending what was paid to the hash of a public key, with a signature and the key, and what was paid
to several keys, with several signatures.
-/

namespace SpendScript

/-- The locking script that pays to an address of a key. -/
def Address.payToKey (a : Address) : Except TxError Script :=
  match a.kind with
  | .pubkeyHash => .ok (Script.pubkeyHashOut a.hash)
  | .scriptHash => .error (.address (.noAddress .scriptHashOut))

namespace PayToKey

/-- An upper bound on the length of an unlocking script: a push of a signature of at most 73 bytes
and a push of a key of 33 bytes. -/
def maxLength : Nat := 108

def unlockWith (sig : Signature) (key : Bytes) : Except TxError Script :=
  match sig.toTx with
  | .error e => .error (.signature e)
  | .ok item =>
    match Script.empty.pushAll [item, key] with
    | .error e => .error (.script e)
    | .ok s => .ok s

/-- Signs an input that spends what the locking script locks. -/
def unlock (signer : Signer) (t : HashType) (tx : Transaction) (i : Nat) (locking : Script) :
    Except TxError Script :=
  match tx.sign i locking t signer with
  | .error e => .error e
  | .ok sig => unlockWith sig signer.publicKey

end PayToKey

/-- Why an input could not be signed with several keys. -/
inductive KeysError where
  | key (error : KeyError)
  | tx (error : TxError)
deriving DecidableEq

namespace PayToKeys

/-- The written signature of an input by one signer. -/
def item (signer : Signer) (t : HashType) (tx : Transaction) (i : Nat) (locking : Script) :
    Except TxError Bytes :=
  match tx.sign i locking t signer with
  | .error e => .error e
  | .ok sig =>
    match sig.toTx with
    | .error e => .error (.signature e)
    | .ok bs => .ok bs

/-- The written signatures of an input, one for each secret. A secret is read when its turn to sign
comes, so that of two faults the one of the earlier secret is reported. -/
def signAll (t : HashType) (tx : Transaction) (i : Nat) (locking : Script) :
    List Bytes → Except KeysError (List Bytes)
  | [] => .ok []
  | secret :: rest =>
    match PrivateKey.ofBytes secret with
    | .error e => .error (.key e)
    | .ok key =>
      match item key.signer t tx i locking with
      | .error e => .error (.tx e)
      | .ok bs =>
        match signAll t tx i locking rest with
        | .error e => .error e
        | .ok items => .ok (bs :: items)

/-- The opcode for zero and the signatures in the order of the secrets. -/
def unlock (secrets : List Bytes) (t : HashType) (tx : Transaction) (i : Nat) (locking : Script) :
    Except KeysError Script :=
  match signAll t tx i locking secrets with
  | .error e => .error e
  | .ok items =>
    match (Script.empty.pushOpcode .zero).pushAll items with
    | .error e => .error (.tx (.script e))
    | .ok s => .ok s

end PayToKeys

end SpendScript
