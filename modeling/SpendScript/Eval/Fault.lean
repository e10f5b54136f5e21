import SpendScript.Script.Basic

/-!
# SpendScript.Eval.Fault

Every way in which an evaluation fails, as a cause with what it was found on. A cause has a code,
which groups the causes that a caller need not tell apart, and a wording.
-/

namespace SpendScript

inductive FaultCode where
  | internal
  | invalidFlags
  | invalidIndex
  | invalidParams
  | earlyReturn
  | emptyStack
  | evalFalse
  | scriptTooBig
  | elementTooBig
  | tooManyOperations
  | stackOverflow
  | invalidPubKeyCount
  | invalidSignatureCount
  | numberTooBig
  | verify
  | equalVerify
  | numEqualVerify
  | checkSigVerify
  | checkMultiSigVerify
  | disabledOpcode
  | reservedOpcode
  | malformedPush
  | invalidStackOperation
  | unbalancedConditional
  | minimalData
  | invalidSigHashType
  | sigTooShort
  | sigTooLong
  | sigInvalidSeqId
  | sigInvalidDataLen
  | sigMissingSTypeId
  | sigMissingSLen
  | sigInvalidSLen
  | sigInvalidRIntId
  | sigZeroRLen
  | sigNegativeR
  | sigTooMuchRPadding
  | sigInvalidSIntId
  | sigZeroSLen
  | sigNegativeS
  | sigTooMuchSPadding
  | sigHighS
  | notPushOnly
  | sigNullDummy
  | pubKeyType
  | cleanStack
  | nullFail
  | discourageUpgradableNops
  | negativeLockTime
  | unsatisfiedLockTime
deriving DecidableEq

def FaultCode.label : FaultCode → String
  | .internal => "Internal"
  | .invalidFlags => "InvalidFlags"
  | .invalidIndex => "InvalidIndex"
  | .invalidParams => "InvalidParams"
  | .earlyReturn => "EarlyReturn"
  | .emptyStack => "EmptyStack"
  | .evalFalse => "EvalFalse"
  | .scriptTooBig => "ScriptTooBig"
  | .elementTooBig => "ElementTooBig"
  | .tooManyOperations => "TooManyOperations"
  | .stackOverflow => "StackOverflow"
  | .invalidPubKeyCount => "InvalidPubKeyCount"
  | .invalidSignatureCount => "InvalidSignatureCount"
  | .numberTooBig => "NumberTooBig"
  | .verify => "Verify"
  | .equalVerify => "EqualVerify"
  | .numEqualVerify => "NumEqualVerify"
  | .checkSigVerify => "CheckSigVerify"
  | .checkMultiSigVerify => "CheckMultiSigVerify"
  | .disabledOpcode => "DisabledOpcode"
  | .reservedOpcode => "ReservedOpcode"
  | .malformedPush => "MalformedPush"
  | .invalidStackOperation => "InvalidStackOperation"
  | .unbalancedConditional => "UnbalancedConditional"
  | .minimalData => "MinimalData"
  | .invalidSigHashType => "InvalidSigHashType"
  | .sigTooShort => "SigTooShort"
  | .sigTooLong => "SigTooLong"
  | .sigInvalidSeqId => "SigInvalidSeqID"
  | .sigInvalidDataLen => "SigInvalidDataLen"
  | .sigMissingSTypeId => "SigMissingSTypeID"
  | .sigMissingSLen => "SigMissingSLen"
  | .sigInvalidSLen => "SigInvalidSLen"
  | .sigInvalidRIntId => "SigInvalidRIntID"
  | .sigZeroRLen => "SigZeroRLen"
  | .sigNegativeR => "SigNegativeR"
  | .sigTooMuchRPadding => "SigTooMuchRPadding"
  | .sigInvalidSIntId => "SigInvalidSIntID"
  | .sigZeroSLen => "SigZeroSLen"
  | .sigNegativeS => "SigNegativeS"
  | .sigTooMuchSPadding => "SigTooMuchSPadding"
  | .sigHighS => "SigHighS"
  | .notPushOnly => "NotPushOnly"
  | .sigNullDummy => "SigNullDummy"
  | .pubKeyType => "PubKeyType"
  | .cleanStack => "CleanStack"
  | .nullFail => "NullFail"
  | .discourageUpgradableNops => "DiscourageUpgradableNOPs"
  | .negativeLockTime => "NegativeLockTime"
  | .unsatisfiedLockTime => "UnsatisfiedLockTime"

/-- The part that a script plays in a spend. -/
inductive ScriptRole where
  | unlocking
  | locking
  | redeem
deriving DecidableEq

def ScriptRole.label : ScriptRole → String
  | .unlocking => "unlocking"
  | .locking => "locking"
  | .redeem => "redeem"

/-- What an opcode needs the context of the spend for. -/
inductive ContextUse where
  | signature
  | lockTime
  | sequence
deriving DecidableEq

def ContextUse.label : ContextUse → String
  | .signature => "checksig"
  | .lockTime => "CHECKLOCKTIMEVERIFY"
  | .sequence => "CHECKSEQUENCEVERIFY"

/-- What is wrong with the DER form of a signature, in the order in which it is looked at. -/
inductive SigFault where
  | tooShort (length : Nat)
  | tooLong (length : Nat)
  | wrongType (tag : UInt8)
  | wrongLength (length : UInt8) (expected : Nat)
  | noSMarker
  | noSLength
  | wrongSLength
  | wrongRMarker (tag : UInt8)
  | emptyR
  | negativeR
  | paddedR
  | wrongSMarker (tag : UInt8)
  | emptyS
  | negativeS
  | paddedS
deriving DecidableEq

namespace SigFault

def code : SigFault → FaultCode
  | .tooShort _ => .sigTooShort
  | .tooLong _ => .sigTooLong
  | .wrongType _ => .sigInvalidSeqId
  | .wrongLength _ _ => .sigInvalidDataLen
  | .noSMarker => .sigMissingSTypeId
  | .noSLength => .sigMissingSLen
  | .wrongSLength => .sigInvalidSLen
  | .wrongRMarker _ => .sigInvalidRIntId
  | .emptyR => .sigZeroRLen
  | .negativeR => .sigNegativeR
  | .paddedR => .sigTooMuchRPadding
  | .wrongSMarker _ => .sigInvalidSIntId
  | .emptyS => .sigZeroSLen
  | .negativeS => .sigNegativeS
  | .paddedS => .sigTooMuchSPadding

def message : SigFault → String
  | .tooShort length => s!"too short: {length} < 8"
  | .tooLong length => s!"too long: {length} > 72"
  | .wrongType tag => "format has wrong type: " ++ Text.Hex.shortLiteral tag.toNat
  | .wrongLength length expected => s!"bad length: {length.toNat} != {expected}"
  | .noSMarker => "S type indicator missing"
  | .noSLength => "S length missing"
  | .wrongSLength => "invalid S length"
  | .wrongRMarker tag => "R integer marker: " ++ Text.Hex.shortLiteral tag.toNat ++ " != 0x02"
  | .emptyR => "R length is zero"
  | .negativeR => "R is negative"
  | .paddedR => "R value has too much padding"
  | .wrongSMarker tag => "S integer marker: " ++ Text.Hex.shortLiteral tag.toNat ++ " != 0x02"
  | .emptyS => "S length is zero"
  | .negativeS => "S is negative"
  | .paddedS => "S value has too much padding"

end SigFault

inductive Fault where
  /-- There is no chunk at this place. -/
  | pastEnd (script offset : Nat)
  /-- An opcode of a push has come to be performed. -/
  | performedPush (op : Opcode)
  | invalidFlags
  | scriptTooBig (role : ScriptRole) (size max : Nat)
  | unlockingNotPushOnly
  | scriptHashNotPushOnly
  | elementTooBig (size max : Nat)
  | tooManyOps (max : Nat)
  | stackOverflow (depth max : Nat)
  | disabledOpcode (op : Opcode)
  | reservedOpcode (op : Opcode)
  | unnamedOpcode (code : UInt8)
  | longPush (chunk : Chunk)
  | badIndex (index depth : Nat)
  | negativeIndex (index : Int)
  | numberTooLong (bytes : Bytes) (max : Nat)
  | longNumber (bytes : Bytes)
  | overflow
  | noCondition
  | noOpenConditional (op : Opcode)
  | openConditional
  /-- The item that the opcode asks to be true is false. -/
  | notTrue (op : Opcode)
  | returned
  | upgradableNop (op : Opcode)
  | noContext (use : ContextUse)
  | negativeLockTime (n : Int)
  | negativeSequence (n : Int)
  | lockTimeKinds (tx operand : Int)
  | lockTimeLater (operand tx : Int)
  | inputFinal
  | oldVersion (version : UInt32)
  | sequenceDisabled (sequence : UInt32)
  | badHashType (hashType : UInt8)
  | badKeyForm
  | badSignature (fault : SigFault)
  | highS
  | nonEmptySignature
  | nonEmptySignatures
  | nonEmptyDummy (length : Nat)
  | badKeyCount (count : Int) (max : Nat)
  | badSignatureCount (count : Int) (max : Nat)
  | emptyResult
  | falseResult
  | unclean (extra : Nat)
  | noRedeem
  | badRedeem (error : ScriptError)
  /-- A fault that the context of the spend reports. -/
  | reported (code : FaultCode) (text : String)
deriving DecidableEq

namespace Fault

/-- The code for an item that an opcode found false. -/
def notTrueCode : Opcode → FaultCode
  | .equalVerify => .equalVerify
  | .numEqualVerify => .numEqualVerify
  | .checkSigVerify => .checkSigVerify
  | .checkMultiSigVerify => .checkMultiSigVerify
  | _ => .verify

def code : Fault → FaultCode
  | .pastEnd _ _ | .performedPush _ => .internal
  | .invalidFlags => .invalidFlags
  | .scriptTooBig _ _ _ => .scriptTooBig
  | .unlockingNotPushOnly | .scriptHashNotPushOnly => .notPushOnly
  | .elementTooBig _ _ => .elementTooBig
  | .tooManyOps _ => .tooManyOperations
  | .stackOverflow _ _ => .stackOverflow
  | .disabledOpcode _ => .disabledOpcode
  | .reservedOpcode _ | .unnamedOpcode _ => .reservedOpcode
  | .longPush _ | .longNumber _ => .minimalData
  | .badIndex _ _ | .negativeIndex _ => .invalidStackOperation
  | .numberTooLong _ _ | .overflow => .numberTooBig
  | .noCondition | .noOpenConditional _ | .openConditional => .unbalancedConditional
  | .notTrue op => notTrueCode op
  | .returned => .earlyReturn
  | .upgradableNop _ => .discourageUpgradableNops
  | .noContext _ => .invalidParams
  | .negativeLockTime _ | .negativeSequence _ => .negativeLockTime
  | .lockTimeKinds _ _ | .lockTimeLater _ _ | .inputFinal | .oldVersion _
  | .sequenceDisabled _ => .unsatisfiedLockTime
  | .badHashType _ => .invalidSigHashType
  | .badKeyForm => .pubKeyType
  | .badSignature fault => fault.code
  | .highS => .sigHighS
  | .nonEmptySignature | .nonEmptySignatures => .nullFail
  | .nonEmptyDummy _ => .sigNullDummy
  | .badKeyCount _ _ => .invalidPubKeyCount
  | .badSignatureCount _ _ => .invalidSignatureCount
  | .emptyResult => .emptyStack
  | .falseResult | .noRedeem => .evalFalse
  | .unclean _ => .cleanStack
  | .badRedeem _ => .malformedPush
  | .reported code _ => code

/-- Bytes in brackets, two digits each. -/
def byteList (bs : Bytes) : String :=
  "[" ++ ", ".intercalate (bs.map fun b => String.ofList (Text.Hex.byteDigits b)) ++ "]"

def message : Fault → String
  | .pastEnd script offset =>
    s!"program counter {script}:{offset} is past the end of the scripts"
  | .performedPush op => "push opcode " ++ op.name ++ " dispatched as an operation"
  | .invalidFlags => "invalid scriptflag combination"
  | .scriptTooBig role size max =>
    s!"{role.label} script size {size} is larger than the max allowed size {max}"
  | .unlockingNotPushOnly => "signature script is not push only"
  | .scriptHashNotPushOnly => "pay to script hash is not push only"
  | .elementTooBig size max => s!"element size {size} exceeds max allowed size {max}"
  | .tooManyOps max => s!"exceeded max operation limit of {max}"
  | .stackOverflow depth max => s!"combined stack size {depth} > max allowed {max}"
  | .disabledOpcode op => "attempt to execute disabled opcode " ++ op.name
  | .reservedOpcode op => "attempt to execute reserved opcode " ++ op.name
  | .unnamedOpcode code => "attempt to execute invalid opcode " ++ Opcode.describe code
  | .longPush chunk =>
    "data push " ++ String.ofList chunk.token ++ " is not minimally encoded"
  | .badIndex index depth => s!"index {index} is invalid for stack size {depth}"
  | .negativeIndex index => s!"negative stack index {index}"
  | .numberTooLong bytes max =>
    "numeric value encoded as " ++ byteList bytes ++
      s!" is {bytes.length} bytes which exceeds the max allowed of {max}"
  | .longNumber bytes =>
    "numeric value encoded as " ++ byteList bytes ++ " is not minimally encoded"
  | .overflow => "arithmetic result overflows"
  | .noCondition => "conditional with an empty stack"
  | .noOpenConditional op =>
    s!"encountered opcode {op.name} with no matching opcode to begin conditional execution"
  | .openConditional => "end of script reached in conditional execution"
  | .notTrue op => op.name ++ " failed"
  | .returned => "script returned early"
  | .upgradableNop op => op.name ++ " reserved for soft-fork upgrades"
  | .noContext use => "no tx context for " ++ use.label
  | .negativeLockTime n => s!"negative lock time: {n}"
  | .negativeSequence n => s!"negative sequence: {n}"
  | .lockTimeKinds tx operand =>
    s!"mismatched locktime types -- tx locktime {tx}, stack locktime {operand}"
  | .lockTimeLater operand tx =>
    "locktime requirement not satisfied -- locktime is greater than the transaction locktime: " ++
      s!"{operand} > {tx}"
  | .inputFinal => "transaction input is finalized"
  | .oldVersion version => s!"invalid transaction version: {version.toNat}"
  | .sequenceDisabled sequence =>
    "transaction sequence has sequence locktime disabled bit set: " ++ Text.Hex.shortLiteral sequence.toNat
  | .badHashType hashType => "invalid hash type " ++ Text.Hex.shortLiteral hashType.toNat
  | .badKeyForm => "unsupported public key type"
  | .badSignature fault => "malformed signature: " ++ fault.message
  | .highS => "signature is not canonical due to unnecessarily high S value"
  | .nonEmptySignature => "signature not empty on failed checksig"
  | .nonEmptySignatures => "not all signatures empty on failed checkmultisig"
  | .nonEmptyDummy length => s!"multisig dummy argument has length {length} instead of 0"
  | .badKeyCount count max => s!"number of pubkeys {count} is outside 0..={max}"
  | .badSignatureCount count max => s!"number of signatures {count} is outside 0..={max}"
  | .emptyResult => "stack empty at end of script execution"
  | .falseResult => "false stack entry at end of script execution"
  | .unclean extra => s!"stack contains {extra} unexpected items"
  | .noRedeem => "no redeem script on the stack"
  | .badRedeem error => "redeem script does not parse: " ++ error.message
  | .reported _ text => text

end Fault

end SpendScript
