import SpendScript.Eval.Machine
import SpendScript.Signature.Basic

/-!
# SpendScript.Eval.SigCheck

Signature checks. The forms of hash type, signature and key are looked at as far as the flags ask;
then the context is asked whether the signature belongs to the key. What the signature covers is
the running script from the last executed separator on, without separators and without the pushes
of the checked signatures.

* `checkSig` — one signature against one key; `sigQuery?` is the question that it puts.
* `matchSigs` — several signatures against several keys, in order; `comparisons` lists the pairs
  that it looks at.
-/

namespace SpendScript

namespace Env

def checkHashType (env : Env) (t : UInt8) : Except Fault Unit :=
  if env.flags.has .strictEncoding && !HashType.isDefined t then .error (.badHashType t)
  else .ok ()

/-- A compressed or an uncompressed key, by length and tag. -/
def checkKeyForm (env : Env) (key : Bytes) : Except Fault Unit :=
  let known := (key.length == 33 && (key.byteAt 0 == 2 || key.byteAt 0 == 3)) ||
    (key.length == 65 && key.byteAt 0 == 4)
  if env.flags.has .strictEncoding && !known then .error .badKeyForm else .ok ()

def wantsDer (env : Env) : Bool :=
  env.flags.hasAny [.derSignatures, .lowS, .strictEncoding]

end Env

/-- Where a signature without its hash type departs from canonical DER, if it does. -/
def derFault? (sig : Bytes) : Option SigFault :=
  let n := sig.length
  let lenR := (sig.byteAt 3).toNat
  let lenS := (sig.byteAt (5 + lenR)).toNat
  if n < 8 then some (.tooShort n)
  else if 72 < n then some (.tooLong n)
  else if sig.byteAt 0 ≠ 0x30 then some (.wrongType (sig.byteAt 0))
  else if (sig.byteAt 1).toNat + 2 ≠ n then some (.wrongLength (sig.byteAt 1) (n - 2))
  else if n ≤ 4 + lenR then some .noSMarker
  else if n ≤ 5 + lenR then some .noSLength
  else if 6 + lenR + lenS ≠ n then some .wrongSLength
  else if sig.byteAt 2 ≠ 0x02 then some (.wrongRMarker (sig.byteAt 2))
  else if lenR = 0 then some .emptyR
  else if sig.byteAt 4 &&& 0x80 ≠ 0 then some .negativeR
  else if 1 < lenR ∧ sig.byteAt 4 = 0 ∧ sig.byteAt 5 &&& 0x80 = 0 then some .paddedR
  else if sig.byteAt (4 + lenR) ≠ 0x02 then some (.wrongSMarker (sig.byteAt (4 + lenR)))
  else if lenS = 0 then some .emptyS
  else if sig.byteAt (6 + lenR) &&& 0x80 ≠ 0 then some .negativeS
  else if 1 < lenS ∧ sig.byteAt (6 + lenR) = 0 ∧ sig.byteAt (7 + lenR) &&& 0x80 = 0 then
    some .paddedS
  else none

def hasLowS (sig : Bytes) : Bool :=
  match Signature.ofDer sig with
  | .error _ => false
  | .ok parsed => parsed.hasLowS

namespace Env

/-- Looks at the DER form of a signature without its hash type. -/
def checkSigForm (env : Env) (sig : Bytes) : Except Fault Unit :=
  if !env.wantsDer || sig.isEmpty then .ok ()
  else
    match derFault? sig with
    | some fault => .error (.badSignature fault)
    | none => if env.flags.has .lowS && !hasLowS sig then .error .highS else .ok ()

/-- Looks at the forms and makes the question for the context; an empty signature makes none. -/
def sigQuery? (env : Env) (code : Script) (sig key : Bytes) : Except Fault (Option SigQuery) :=
  match sig.getLast? with
  | none =>
    match env.checkKeyForm key with
    | .error e => .error e
    | .ok _ => .ok none
  | some t =>
    match env.checkHashType t with
    | .error e => .error e
    | .ok _ =>
      match env.checkSigForm sig.dropLast with
      | .error e => .error e
      | .ok _ =>
        match env.checkKeyForm key with
        | .error e => .error e
        | .ok _ => .ok (some ⟨sig, key, code, env.input, t⟩)

def ask (env : Env) (q : SigQuery) : Except Fault Bool :=
  match env.context with
  | none => .error (.noContext .signature)
  | some ctx => ctx.verify q

/-- Whether the signature belongs to the key; an empty one never does. -/
def checkSig (env : Env) (code : Script) (sig key : Bytes) : Except Fault Bool :=
  match env.sigQuery? code sig key with
  | .error e => .error e
  | .ok none => .ok false
  | .ok (some q) => env.ask q

end Env

/-- What signatures cover: the chunks from number `start` on, without separators and without the
shortest pushes of the signatures. The same bytes pushed in another form stay. -/
def signedCode (chunks : List Chunk) (start : Nat) (sigs : List Bytes) : Script :=
  let pushes := sigs.filterMap Chunk.ofData?
  ⟨(chunks.drop start).filter (fun c => c ≠ .ofOpcode .codeSeparator ∧ c ∉ pushes)⟩

/-- Whether the signatures belong to some of the keys in the same order. Each key is tried once,
with the first signature that has found no key yet; when there are more such signatures than keys
left, the answer is no. -/
def matchSigs (check : Bytes → Bytes → Except Fault Bool) :
    List Bytes → List Bytes → Except Fault Bool
  | [], _ => .ok true
  | _ :: _, [] => .ok false
  | sig :: sigs, key :: keys =>
    match check sig key with
    | .error e => .error e
    | .ok found =>
      let left := if found then sigs else sig :: sigs
      if keys.length < left.length then .ok false else matchSigs check left keys

/-- The pairs of signature and key that `matchSigs` looks at, in order. -/
def comparisons (check : Bytes → Bytes → Except Fault Bool) :
    List Bytes → List Bytes → List (Bytes × Bytes)
  | [], _ => []
  | _ :: _, [] => []
  | sig :: sigs, key :: keys =>
    match check sig key with
    | .error _ => [(sig, key)]
    | .ok found =>
      let left := if found then sigs else sig :: sigs
      (sig, key) :: if keys.length < left.length then [] else comparisons check left keys

/-- What a check of several signatures takes from the stack. Keys and signatures are in the order in
which they come off, last pushed first. -/
structure MultisigArgs where
  keys : List Bytes
  sigs : List Bytes
  dummy : Bytes
  rest : Stack

namespace Machine

/-- Takes the number of keys, counts them as operations, and takes the keys, the number of
signatures, the signatures and one item more. -/
def multisigArgs (m : Machine) (env : Env) : Except Fault (Machine × MultisigArgs) :=
  match m.data.popNumber env.numberRule with
  | .error e => .error e
  | .ok (numKeys, s1) =>
    if numKeys < 0 ∨ (env.limits.maxKeys : Int) < numKeys then
      .error (.badKeyCount numKeys env.limits.maxKeys)
    else
      match m.count env numKeys.toNat with
      | .error e => .error e
      | .ok m' =>
        match s1.popMany numKeys.toNat with
        | .error e => .error e
        | .ok (keys, s2) =>
          match s2.popNumber env.numberRule with
          | .error e => .error e
          | .ok (numSigs, s3) =>
            if numSigs < 0 ∨ numKeys < numSigs then
              .error (.badSignatureCount numSigs numKeys.toNat)
            else
              match s3.popMany numSigs.toNat with
              | .error e => .error e
              | .ok (sigs, s4) =>
                match s4.pop with
                | .error e => .error e
                | .ok (dummy, rest) => .ok (m', ⟨keys, sigs, dummy, rest⟩)

/-- Takes a key and a signature and pushes whether they belong together. -/
def checkSig (m : Machine) (env : Env) (chunks : List Chunk) : Except Fault Machine :=
  match m.data with
  | key :: sig :: rest =>
    match env.checkSig (signedCode chunks m.codeStart [sig]) sig key with
    | .error e => .error e
    | .ok valid =>
      if !valid && env.flags.has .nullFail && !sig.isEmpty then .error .nonEmptySignature
      else .ok { m with data := Stack.pushBool valid rest }
  | _ => .error (.badIndex 0 0)

/-- Takes keys and signatures and pushes whether every signature found its key. -/
def checkMultiSig (m : Machine) (env : Env) (chunks : List Chunk) : Except Fault Machine :=
  match m.multisigArgs env with
  | .error e => .error e
  | .ok (m', args) =>
    match matchSigs (env.checkSig (signedCode chunks m.codeStart args.sigs)) args.sigs
        args.keys with
    | .error e => .error e
    | .ok valid =>
      if !valid && env.flags.has .nullFail && args.sigs.any (fun sig => !sig.isEmpty) then
        .error .nonEmptySignatures
      else if env.flags.has .nullDummy && !args.dummy.isEmpty then
        .error (.nonEmptyDummy args.dummy.length)
      else .ok { m' with data := Stack.pushBool valid args.rest }

end Machine

end SpendScript
