import SpendScript.Eval.LockTime
import SpendScript.Eval.SigCheck
import SpendScript.Hash.Sha1

/-!
# SpendScript.Eval.Exec

Execution of one chunk. `resolve` holds it against the limits and decides what it comes to; `perform`
does what an opcode does; `exec` is the two together, and `queries` lists what it asks the context.
-/

namespace SpendScript

namespace Machine

/-- Opens a branch. In a branch that is not taken nothing is popped, and the new one is not taken
either. -/
def openBranch (m : Machine) (wanted : Bool) : Except Fault Machine :=
  if m.executing then
    match m.data with
    | [] => .error .noCondition
    | x :: rest =>
      .ok { m with data := rest, branches := (Number.truth x == wanted) :: m.branches }
  else .ok { m with branches := false :: m.branches }

def switchBranch (m : Machine) : Except Fault Machine :=
  match m.branches with
  | [] => .error (.noOpenConditional .elseOp)
  | b :: rest => .ok { m with branches := (!b) :: rest }

def closeBranch (m : Machine) : Except Fault Machine :=
  match m.branches with
  | [] => .error (.noOpenConditional .endIf)
  | _ :: rest => .ok { m with branches := rest }

/-- Takes the top item, which must be true. -/
def verifyTop (op : Opcode) (m : Machine) : Except Fault Machine :=
  match m.data.popBool with
  | .error e => .error e
  | .ok (true, rest) => .ok { m with data := rest }
  | .ok (false, _) => .error (.notTrue op)

/-- Takes the top item of what the first operation leaves, which must be true. -/
def andVerify (op : Opcode) (r : Except Fault Machine) : Except Fault Machine :=
  match r with
  | .error e => .error e
  | .ok m => m.verifyTop op

def toAlt (m : Machine) : Except Fault Machine :=
  match m.data with
  | [] => .error (.badIndex 0 0)
  | x :: rest => .ok { m with data := rest, alt := x :: m.alt }

def fromAlt (m : Machine) : Except Fault Machine :=
  match m.alt with
  | [] => .error (.badIndex 0 0)
  | x :: rest => .ok { m with data := x :: m.data, alt := rest }

def push (m : Machine) (x : Bytes) : Machine := { m with data := x :: m.data }

def pushNumber (m : Machine) (n : Int) : Machine := m.push (Number.encode n)

/-- Does what an opcode does. `chunks` is the running script and `offset` the place of the opcode
in it. -/
def perform (env : Env) (chunks : List Chunk) (offset : Nat) (m : Machine) (op : Opcode) :
    Except Fault Machine :=
  let rule := env.numberRule
  match op with
  | .zero | .pushData1 | .pushData2 | .pushData4 => .error (.performedPush op)
  | .oneNegate => .ok (m.pushNumber (-1))
  | .one => .ok (m.pushNumber 1)
  | .two => .ok (m.pushNumber 2)
  | .three => .ok (m.pushNumber 3)
  | .four => .ok (m.pushNumber 4)
  | .five => .ok (m.pushNumber 5)
  | .six => .ok (m.pushNumber 6)
  | .seven => .ok (m.pushNumber 7)
  | .eight => .ok (m.pushNumber 8)
  | .nine => .ok (m.pushNumber 9)
  | .ten => .ok (m.pushNumber 10)
  | .eleven => .ok (m.pushNumber 11)
  | .twelve => .ok (m.pushNumber 12)
  | .thirteen => .ok (m.pushNumber 13)
  | .fourteen => .ok (m.pushNumber 14)
  | .fifteen => .ok (m.pushNumber 15)
  | .sixteen => .ok (m.pushNumber 16)
  -- flow
  | .nop => .ok m
  | .ifOp => m.openBranch true
  | .notIf => m.openBranch false
  | .elseOp => m.switchBranch
  | .endIf => m.closeBranch
  | .verify => m.verifyTop .verify
  | .returnOp => .error .returned
  | .checkLockTimeVerify => m.checkLockTime env
  | .checkSequenceVerify => m.checkSequence env
  | .nop1 | .nop4 | .nop5 | .nop6 | .nop7 | .nop8 | .nop9 | .nop10 => m.upgradableNop env op
  -- stacks
  | .toAltStack => m.toAlt
  | .fromAltStack => m.fromAlt
  | .drop2 => m.onData (Stack.dropN 2)
  | .dup2 => m.onData (Stack.dupN 2)
  | .dup3 => m.onData (Stack.dupN 3)
  | .over2 => m.onData (Stack.overN 2)
  | .rot2 => m.onData (Stack.rotN 2)
  | .swap2 => m.onData (Stack.swapN 2)
  | .ifDup => m.onData Stack.ifDup
  | .depth => .ok (m.pushNumber m.data.depth)
  | .drop => m.onData (Stack.dropN 1)
  | .dup => m.onData (Stack.dupN 1)
  | .nip => m.onData Stack.nip
  | .over => m.onData (Stack.overN 1)
  | .pick => m.onData (Stack.pickTop rule)
  | .roll => m.onData (Stack.rollTop rule)
  | .rot => m.onData (Stack.rotN 1)
  | .swap => m.onData (Stack.swapN 1)
  | .tuck => m.onData Stack.tuck
  -- byte strings
  | .size => m.onData Stack.size
  | .equal => m.onData Stack.equal
  | .equalVerify => andVerify op (m.onData Stack.equal)
  -- numbers
  | .add1 => m.onData (Stack.unary rule (· + 1))
  | .sub1 => m.onData (Stack.unary rule (· - 1))
  | .negate => m.onData (Stack.unary rule (- ·))
  | .abs => m.onData (Stack.unary rule (fun n => n.natAbs))
  | .not => m.onData (Stack.unary rule (fun n => if n = 0 then 1 else 0))
  | .notZero => m.onData (Stack.unary rule (fun n => if n = 0 then 0 else 1))
  | .add => m.onData (Stack.binary rule (· + ·))
  | .sub => m.onData (Stack.binary rule (· - ·))
  | .boolAnd => m.onData (Stack.compare rule (fun a b => a != 0 && b != 0))
  | .boolOr => m.onData (Stack.compare rule (fun a b => a != 0 || b != 0))
  | .numEqual => m.onData (Stack.compare rule (· == ·))
  | .numEqualVerify => andVerify op (m.onData (Stack.compare rule (· == ·)))
  | .numNotEqual => m.onData (Stack.compare rule (· != ·))
  | .less => m.onData (Stack.compare rule (· < ·))
  | .greater => m.onData (Stack.compare rule (· > ·))
  | .lessEqual => m.onData (Stack.compare rule (· ≤ ·))
  | .greaterEqual => m.onData (Stack.compare rule (· ≥ ·))
  | .min => m.onData (Stack.binary rule min)
  | .max => m.onData (Stack.binary rule max)
  | .within => m.onData (Stack.within rule)
  -- digests and signatures
  | .ripemd160 => m.onData (Stack.digest Hash.ripemd160)
  | .sha1 => m.onData (Stack.digest Hash.sha1)
  | .sha256 => m.onData (Stack.digest Hash.sha256)
  | .hash160 => m.onData (Stack.digest Hash.hash160)
  | .hash256 => m.onData (Stack.digest Hash.sha256d)
  | .codeSeparator => .ok { m with codeStart := offset + 1 }
  | .checkSig => m.checkSig env chunks
  | .checkSigVerify => andVerify op (m.checkSig env chunks)
  | .checkMultiSig => m.checkMultiSig env chunks
  | .checkMultiSigVerify => andVerify op (m.checkMultiSig env chunks)
  -- opcodes that must not be executed
  | .cat | .substr | .left | .right | .invert | .bitAnd | .bitOr | .bitXor | .mul2 | .div2 | .mul
  | .div | .mod | .shiftLeft | .shiftRight => .error (.disabledOpcode op)
  | .reserved | .ver | .verIf | .verNotIf | .reserved1 | .reserved2 | .pubKeyHash | .pubKey
  | .invalid => .error (.reservedOpcode op)

end Machine

/-- What a chunk comes to in the state in which it is met. -/
inductive Action where
  | skip
  | push (data : Bytes)
  | perform (op : Opcode)
deriving DecidableEq

namespace Machine

/-- What a chunk comes to that has passed the limits. Of the opcodes only the conditional ones
are looked at in a branch that is not taken. -/
def actionOf (env : Env) (m : Machine) (c : Chunk) : Except Fault Action :=
  if c.code ≤ Chunk.pushData4 then
    if !m.executing then .ok .skip
    else if env.flags.has .minimalData && !c.isMinimalPush then .error (.longPush c)
    else .ok (.push c.payload)
  else
    match Opcode.ofByte? c.code with
    | some op => if m.executing || op.isConditional then .ok (.perform op) else .ok .skip
    | none => if m.executing then .error (.unnamedOpcode c.code) else .ok .skip

/-- The size of the data of a chunk, and nothing for an opcode. -/
def checkElement (env : Env) (c : Chunk) : Except Fault Unit :=
  if env.limits.maxElementSize < c.payload.length then
    .error (.elementTooBig c.payload.length env.limits.maxElementSize)
  else .ok ()

def countOp (env : Env) (m : Machine) (c : Chunk) : Except Fault Machine :=
  if Opcode.sixteen.byte < c.code then m.count env 1 else .ok m

/-- Holds a chunk against the limits and against the list of disabled opcodes, which hold in a
branch that is not taken too, and decides what it comes to. -/
def resolve (env : Env) (m : Machine) (c : Chunk) : Except Fault (Machine × Action) :=
  match checkElement env c with
  | .error e => .error e
  | .ok _ =>
    match countOp env m c with
    | .error e => .error e
    | .ok m' =>
      match (Opcode.ofByte? c.code).filter Opcode.isDisabled with
      | some op => .error (.disabledOpcode op)
      | none =>
        match actionOf env m' c with
        | .error e => .error e
        | .ok action => .ok (m', action)

/-- Executes the chunk at `offset` of the running script. -/
def exec (env : Env) (chunks : List Chunk) (offset : Nat) (m : Machine) (c : Chunk) :
    Except Fault Machine :=
  match resolve env m c with
  | .error e => .error e
  | .ok (m', .skip) => .ok m'
  | .ok (m', .push data) => .ok (m'.push data)
  | .ok (m', .perform op) => m'.perform env chunks offset op

/-- The question that a signature and a key make, as a list. -/
def queryList (env : Env) (code : Script) (sig key : Bytes) : List SigQuery :=
  match env.sigQuery? code sig key with
  | .ok (some q) => [q]
  | _ => []

def checkSigQueries (env : Env) (chunks : List Chunk) (m : Machine) : List SigQuery :=
  match m.data with
  | key :: sig :: _ => queryList env (signedCode chunks m.codeStart [sig]) sig key
  | _ => []

def checkMultiSigQueries (env : Env) (chunks : List Chunk) (m : Machine) : List SigQuery :=
  match m.multisigArgs env with
  | .error _ => []
  | .ok (_, args) =>
    let code := signedCode chunks m.codeStart args.sigs
    (comparisons (env.checkSig code) args.sigs args.keys).flatMap
      (fun p => queryList env code p.1 p.2)

/-- The questions that the execution of a chunk puts to the context, in order. -/
def queries (env : Env) (chunks : List Chunk) (m : Machine) (c : Chunk) : List SigQuery :=
  match resolve env m c with
  | .ok (m', .perform .checkSig) | .ok (m', .perform .checkSigVerify) =>
    checkSigQueries env chunks m'
  | .ok (m', .perform .checkMultiSig) | .ok (m', .perform .checkMultiSigVerify) =>
    checkMultiSigQueries env chunks m'
  | _ => []

end Machine

end SpendScript
