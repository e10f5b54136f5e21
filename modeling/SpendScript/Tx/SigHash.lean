import SpendScript.Tx.Basic
import SpendScript.Address
import SpendScript.Signature.Basic

/-!
# SpendScript.Tx.SigHash

The digest that a signature of an input is made over. It is the double hash of an edited copy of the
transaction and the hash type: no unlocking script is in the copy, the input that is signed carries
the script code in its place, and the hash type says which outputs and which other inputs stay.

* `signedForm` — the edited copy.
* `preimage` — the byte string that is hashed.
* `sigHash` — the digest, in the byte order in which it is signed; where it is displayed, it is
  written from its last byte to its first, as identifiers are.
-/

namespace SpendScript

/-- Why an operation on a transaction fails. -/
inductive TxError where
  | noInput (index count : Nat)
  | signature (error : SignatureError)
  | script (error : ScriptError)
  | address (error : AddressError)
deriving DecidableEq

def TxError.message : TxError → String
  | .noInput index count => s!"input index {index} out of range (tx has {count} inputs)"
  | .signature error => "primitives error: " ++ error.message
  | .script error => "script error: " ++ error.message
  | .address error => "address error: " ++ error.message

namespace Transaction

/-- Whether the hash type leaves the sequence numbers of the other inputs open. -/
def opensSequences (t : HashType) : Bool :=
  HashType.base t == HashType.none || HashType.base t == HashType.single

/-- Input number `k` in the copy for a signature of input number `i`. -/
def signedInput (i : Nat) (code : Script) (t : HashType) (k : Nat) (input : TxInput) : TxInput :=
  if k = i then { input with script := code.withoutSeparators.toBytes }
  else { input with
    script := []
    sequence := if opensSequences t then 0 else input.sequence }

/-- The inputs of the copy; a hash type that leaves the others open keeps the signed one only. -/
def signedInputs (i : Nat) (code : Script) (t : HashType) (inputs : List TxInput) : List TxInput :=
  let edited := inputs.mapIdx (signedInput i code t)
  if t &&& HashType.anyoneCanPay = 0 then edited else (edited.drop i).take 1

/-- An output of the copy that the signature leaves open. -/
def openOutput : TxOutput := ⟨0xffffffffffffffff, []⟩

/-- The outputs of the copy: all of them, none, or the one with the number of the input behind
as many open ones. -/
def signedOutputs (i : Nat) (t : HashType) (outputs : List TxOutput) : List TxOutput :=
  if HashType.base t = HashType.none then []
  else if HashType.base t = HashType.single then
    List.replicate i openOutput ++ (outputs.drop i).take 1
  else outputs

/-- The copy of the transaction for a signature of input number `i`. -/
def signedForm (tx : Transaction) (i : Nat) (code : Script) (t : HashType) : Transaction :=
  { tx with
    inputs := signedInputs i code t tx.inputs
    outputs := signedOutputs i t tx.outputs }

def preimage (tx : Transaction) (i : Nat) (code : Script) (t : HashType) : Bytes :=
  (tx.signedForm i code t).toBytes ++ Wire.u32 t.toUInt32

/-- Whether the hash type asks for an output that is not there. -/
def lacksOutput (tx : Transaction) (i : Nat) (t : HashType) : Bool :=
  HashType.base t == HashType.single && decide (tx.outputs.length ≤ i)

/-- The digest where the output that the hash type asks for is not there: the number one, least
significant byte first as it is signed, and so with its last digit `1` where it is displayed. -/
def missingOutput : Digest 32 := ⟨1 :: List.replicate 31 0, by simp⟩

/-- The digest that a signature of input number `i` is made over, in the byte order of the hash. -/
def sigHash (tx : Transaction) (i : Nat) (code : Script) (t : HashType) :
    Except TxError (Digest 32) :=
  if tx.inputs.length ≤ i then .error (.noInput i tx.inputs.length)
  else if tx.lacksOutput i t then .ok missingOutput
  else .ok (Hash.sha256d (tx.preimage i code t))

end Transaction

end SpendScript
