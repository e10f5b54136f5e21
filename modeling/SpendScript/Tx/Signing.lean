import SpendScript.Tx.SigHash
import SpendScript.Eval.Evaluation

/-!
# SpendScript.Tx.Signing

Signatures of the inputs of a transaction, and the check of an input against the output that it
spends.
-/

namespace SpendScript.Transaction

/-- Signs an input; the signature carries the hash type. -/
def sign (tx : Transaction) (i : Nat) (code : Script) (t : HashType) (signer : Signer) :
    Except TxError Signature :=
  match tx.sigHash i code t with
  | .error e => .error e
  | .ok digest =>
    match signer.sign digest with
    | .error e => .error (.signature e)
    | .ok sig => .ok (sig.withHashType t)

/-- Whether the signature of an input belongs to a key. It never does if it carries another hash
type or none. -/
def verifySignature (tx : Transaction) (verifier : Verifier) (i : Nat) (code : Script)
    (t : HashType) (sig : Signature) (key : Bytes) : Except TxError Bool :=
  if sig.hashType = some t then
    match tx.sigHash i code t with
    | .error e => .error e
    | .ok digest => .ok (verifier key digest sig)
  else .ok false

/-- Answers a question about a signature; an item that is no signature belongs to no key. -/
def answer (tx : Transaction) (verifier : Verifier) (q : SigQuery) : Except Fault Bool :=
  match Signature.ofTx q.signature with
  | .error _ => .ok false
  | .ok sig =>
    match tx.verifySignature verifier q.input q.code q.hashType sig q.key with
    | .error e => .error (.reported .invalidIndex e.message)
    | .ok valid => .ok valid

def sequence (tx : Transaction) (i : Nat) : Except Fault UInt32 :=
  match tx.inputs[i]? with
  | some input => .ok input.sequence
  | none =>
    .error (.reported .invalidIndex
      s!"input index {i} out of range for {tx.inputs.length} inputs")

def context (tx : Transaction) (verifier : Verifier) : Context :=
  ⟨tx.answer verifier, tx.lockTime, tx.version, tx.sequence⟩

/-- Whether the scripts allow input number `i` to spend, under the usual limits. -/
def acceptsSpend (tx : Transaction) (verifier : Verifier) (i : Nat) (flags : Flags)
    (unlocking locking : Script) : Bool :=
  decide (i < tx.inputs.length) &&
    accepts ⟨flags, {}, some (tx.context verifier), i⟩ unlocking locking

/-- Whether input number `i` satisfies the locking script of the output that it spends. -/
def acceptsInput (tx : Transaction) (verifier : Verifier) (i : Nat) (flags : Flags)
    (locking : Script) : Bool :=
  match tx.inputs[i]? with
  | none => false
  | some input =>
    match input.unlocking with
    | .error _ => false
    | .ok unlocking => tx.acceptsSpend verifier i flags unlocking locking

end SpendScript.Transaction
