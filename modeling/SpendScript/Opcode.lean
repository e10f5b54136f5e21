import SpendScript.Text.Hex

/-!
# SpendScript.Opcode

The named opcodes, their bytes and their names. The bytes `0x01` to `0x4b` carry no name: they are
the lengths of direct pushes.

* `ofByte?_eq_some_iff` — an opcode is found at its own byte and at no other.
-/

namespace SpendScript

inductive Opcode where
  | zero
  | pushData1
  | pushData2
  | pushData4
  | oneNegate
  | reserved
  | one
  | two
  | three
  | four
  | five
  | six
  | seven
  | eight
  | nine
  | ten
  | eleven
  | twelve
  | thirteen
  | fourteen
  | fifteen
  | sixteen
  | nop
  | ver
  | ifOp
  | notIf
  | verIf
  | verNotIf
  | elseOp
  | endIf
  | verify
  | returnOp
  | toAltStack
  | fromAltStack
  | drop2
  | dup2
  | dup3
  | over2
  | rot2
  | swap2
  | ifDup
  | depth
  | drop
  | dup
  | nip
  | over
  | pick
  | roll
  | rot
  | swap
  | tuck
  | cat
  | substr
  | left
  | right
  | size
  | invert
  | bitAnd
  | bitOr
  | bitXor
  | equal
  | equalVerify
  | reserved1
  | reserved2
  | add1
  | sub1
  | mul2
  | div2
  | negate
  | abs
  | not
  | notZero
  | add
  | sub
  | mul
  | div
  | mod
  | shiftLeft
  | shiftRight
  | boolAnd
  | boolOr
  | numEqual
  | numEqualVerify
  | numNotEqual
  | less
  | greater
  | lessEqual
  | greaterEqual
  | min
  | max
  | within
  | ripemd160
  | sha1
  | sha256
  | hash160
  | hash256
  | codeSeparator
  | checkSig
  | checkSigVerify
  | checkMultiSig
  | checkMultiSigVerify
  | nop1
  | checkLockTimeVerify
  | checkSequenceVerify
  | nop4
  | nop5
  | nop6
  | nop7
  | nop8
  | nop9
  | nop10
  | pubKeyHash
  | pubKey
  | invalid
deriving DecidableEq, Repr

namespace Opcode

def byte : Opcode → UInt8
  | .zero => 0x00
  | .pushData1 => 0x4c
  | .pushData2 => 0x4d
  | .pushData4 => 0x4e
  | .oneNegate => 0x4f
  | .reserved => 0x50
  | .one => 0x51
  | .two => 0x52
  | .three => 0x53
  | .four => 0x54
  | .five => 0x55
  | .six => 0x56
  | .seven => 0x57
  | .eight => 0x58
  | .nine => 0x59
  | .ten => 0x5a
  | .eleven => 0x5b
  | .twelve => 0x5c
  | .thirteen => 0x5d
  | .fourteen => 0x5e
  | .fifteen => 0x5f
  | .sixteen => 0x60
  | .nop => 0x61
  | .ver => 0x62
  | .ifOp => 0x63
  | .notIf => 0x64
  | .verIf => 0x65
  | .verNotIf => 0x66
  | .elseOp => 0x67
  | .endIf => 0x68
  | .verify => 0x69
  | .returnOp => 0x6a
  | .toAltStack => 0x6b
  | .fromAltStack => 0x6c
  | .drop2 => 0x6d
  | .dup2 => 0x6e
  | .dup3 => 0x6f
  | .over2 => 0x70
  | .rot2 => 0x71
  | .swap2 => 0x72
  | .ifDup => 0x73
  | .depth => 0x74
  | .drop => 0x75
  | .dup => 0x76
  | .nip => 0x77
  | .over => 0x78
  | .pick => 0x79
  | .roll => 0x7a
  | .rot => 0x7b
  | .swap => 0x7c
  | .tuck => 0x7d
  | .cat => 0x7e
  | .substr => 0x7f
  | .left => 0x80
  | .right => 0x81
  | .size => 0x82
  | .invert => 0x83
  | .bitAnd => 0x84
  | .bitOr => 0x85
  | .bitXor => 0x86
  | .equal => 0x87
  | .equalVerify => 0x88
  | .reserved1 => 0x89
  | .reserved2 => 0x8a
  | .add1 => 0x8b
  | .sub1 => 0x8c
  | .mul2 => 0x8d
  | .div2 => 0x8e
  | .negate => 0x8f
  | .abs => 0x90
  | .not => 0x91
  | .notZero => 0x92
  | .add => 0x93
  | .sub => 0x94
  | .mul => 0x95
  | .div => 0x96
  | .mod => 0x97
  | .shiftLeft => 0x98
  | .shiftRight => 0x99
  | .boolAnd => 0x9a
  | .boolOr => 0x9b
  | .numEqual => 0x9c
  | .numEqualVerify => 0x9d
  | .numNotEqual => 0x9e
  | .less => 0x9f
  | .greater => 0xa0
  | .lessEqual => 0xa1
  | .greaterEqual => 0xa2
  | .min => 0xa3
  | .max => 0xa4
  | .within => 0xa5
  | .ripemd160 => 0xa6
  | .sha1 => 0xa7
  | .sha256 => 0xa8
  | .hash160 => 0xa9
  | .hash256 => 0xaa
  | .codeSeparator => 0xab
  | .checkSig => 0xac
  | .checkSigVerify => 0xad
  | .checkMultiSig => 0xae
  | .checkMultiSigVerify => 0xaf
  | .nop1 => 0xb0
  | .checkLockTimeVerify => 0xb1
  | .checkSequenceVerify => 0xb2
  | .nop4 => 0xb3
  | .nop5 => 0xb4
  | .nop6 => 0xb5
  | .nop7 => 0xb6
  | .nop8 => 0xb7
  | .nop9 => 0xb8
  | .nop10 => 0xb9
  | .pubKeyHash => 0xfd
  | .pubKey => 0xfe
  | .invalid => 0xff

def name : Opcode → String
  | .zero => "OP_0"
  | .pushData1 => "OP_PUSHDATA1"
  | .pushData2 => "OP_PUSHDATA2"
  | .pushData4 => "OP_PUSHDATA4"
  | .oneNegate => "OP_1NEGATE"
  | .reserved => "OP_RESERVED"
  | .one => "OP_1"
  | .two => "OP_2"
  | .three => "OP_3"
  | .four => "OP_4"
  | .five => "OP_5"
  | .six => "OP_6"
  | .seven => "OP_7"
  | .eight => "OP_8"
  | .nine => "OP_9"
  | .ten => "OP_10"
  | .eleven => "OP_11"
  | .twelve => "OP_12"
  | .thirteen => "OP_13"
  | .fourteen => "OP_14"
  | .fifteen => "OP_15"
  | .sixteen => "OP_16"
  | .nop => "OP_NOP"
  | .ver => "OP_VER"
  | .ifOp => "OP_IF"
  | .notIf => "OP_NOTIF"
  | .verIf => "OP_VERIF"
  | .verNotIf => "OP_VERNOTIF"
  | .elseOp => "OP_ELSE"
  | .endIf => "OP_ENDIF"
  | .verify => "OP_VERIFY"
  | .returnOp => "OP_RETURN"
  | .toAltStack => "OP_TOALTSTACK"
  | .fromAltStack => "OP_FROMALTSTACK"
  | .drop2 => "OP_2DROP"
  | .dup2 => "OP_2DUP"
  | .dup3 => "OP_3DUP"
  | .over2 => "OP_2OVER"
  | .rot2 => "OP_2ROT"
  | .swap2 => "OP_2SWAP"
  | .ifDup => "OP_IFDUP"
  | .depth => "OP_DEPTH"
  | .drop => "OP_DROP"
  | .dup => "OP_DUP"
  | .nip => "OP_NIP"
  | .over => "OP_OVER"
  | .pick => "OP_PICK"
  | .roll => "OP_ROLL"
  | .rot => "OP_ROT"
  | .swap => "OP_SWAP"
  | .tuck => "OP_TUCK"
  | .cat => "OP_CAT"
  | .substr => "OP_SUBSTR"
  | .left => "OP_LEFT"
  | .right => "OP_RIGHT"
  | .size => "OP_SIZE"
  | .invert => "OP_INVERT"
  | .bitAnd => "OP_AND"
  | .bitOr => "OP_OR"
  | .bitXor => "OP_XOR"
  | .equal => "OP_EQUAL"
  | .equalVerify => "OP_EQUALVERIFY"
  | .reserved1 => "OP_RESERVED1"
  | .reserved2 => "OP_RESERVED2"
  | .add1 => "OP_1ADD"
  | .sub1 => "OP_1SUB"
  | .mul2 => "OP_2MUL"
  | .div2 => "OP_2DIV"
  | .negate => "OP_NEGATE"
  | .abs => "OP_ABS"
  | .not => "OP_NOT"
  | .notZero => "OP_0NOTEQUAL"
  | .add => "OP_ADD"
  | .sub => "OP_SUB"
  | .mul => "OP_MUL"
  | .div => "OP_DIV"
  | .mod => "OP_MOD"
  | .shiftLeft => "OP_LSHIFT"
  | .shiftRight => "OP_RSHIFT"
  | .boolAnd => "OP_BOOLAND"
  | .boolOr => "OP_BOOLOR"
  | .numEqual => "OP_NUMEQUAL"
  | .numEqualVerify => "OP_NUMEQUALVERIFY"
  | .numNotEqual => "OP_NUMNOTEQUAL"
  | .less => "OP_LESSTHAN"
  | .greater => "OP_GREATERTHAN"
  | .lessEqual => "OP_LESSTHANOREQUAL"
  | .greaterEqual => "OP_GREATERTHANOREQUAL"
  | .min => "OP_MIN"
  | .max => "OP_MAX"
  | .within => "OP_WITHIN"
  | .ripemd160 => "OP_RIPEMD160"
  | .sha1 => "OP_SHA1"
  | .sha256 => "OP_SHA256"
  | .hash160 => "OP_HASH160"
  | .hash256 => "OP_HASH256"
  | .codeSeparator => "OP_CODESEPARATOR"
  | .checkSig => "OP_CHECKSIG"
  | .checkSigVerify => "OP_CHECKSIGVERIFY"
  | .checkMultiSig => "OP_CHECKMULTISIG"
  | .checkMultiSigVerify => "OP_CHECKMULTISIGVERIFY"
  | .nop1 => "OP_NOP1"
  | .checkLockTimeVerify => "OP_CHECKLOCKTIMEVERIFY"
  | .checkSequenceVerify => "OP_CHECKSEQUENCEVERIFY"
  | .nop4 => "OP_NOP4"
  | .nop5 => "OP_NOP5"
  | .nop6 => "OP_NOP6"
  | .nop7 => "OP_NOP7"
  | .nop8 => "OP_NOP8"
  | .nop9 => "OP_NOP9"
  | .nop10 => "OP_NOP10"
  | .pubKeyHash => "OP_PUBKEYHASH"
  | .pubKey => "OP_PUBKEY"
  | .invalid => "OP_INVALIDOPCODE"

/-- Every named opcode, in the order of the bytes. -/
def all : List Opcode := [
  .zero, .pushData1, .pushData2, .pushData4, .oneNegate, .reserved, .one, .two, .three, .four,
  .five, .six, .seven, .eight, .nine, .ten, .eleven, .twelve, .thirteen, .fourteen, .fifteen,
  .sixteen, .nop, .ver, .ifOp, .notIf, .verIf, .verNotIf, .elseOp, .endIf, .verify, .returnOp,
  .toAltStack, .fromAltStack, .drop2, .dup2, .dup3, .over2, .rot2, .swap2, .ifDup, .depth, .drop,
  .dup, .nip, .over, .pick, .roll, .rot, .swap, .tuck, .cat, .substr, .left, .right, .size,
  .invert, .bitAnd, .bitOr, .bitXor, .equal, .equalVerify, .reserved1, .reserved2, .add1, .sub1,
  .mul2, .div2, .negate, .abs, .not, .notZero, .add, .sub, .mul, .div, .mod, .shiftLeft,
  .shiftRight, .boolAnd, .boolOr, .numEqual, .numEqualVerify, .numNotEqual, .less, .greater,
  .lessEqual, .greaterEqual, .min, .max, .within, .ripemd160, .sha1, .sha256, .hash160, .hash256,
  .codeSeparator, .checkSig, .checkSigVerify, .checkMultiSig, .checkMultiSigVerify, .nop1,
  .checkLockTimeVerify, .checkSequenceVerify, .nop4, .nop5, .nop6, .nop7, .nop8, .nop9, .nop10,
  .pubKeyHash, .pubKey, .invalid]

/-- The opcode with this byte, if the byte is named. -/
def ofByte? (b : UInt8) : Option Opcode := all.find? (fun op => op.byte == b)

/-- Second names that assembly text may use. -/
def aliases : List (String × Opcode) := [
  ("OP_FALSE", .zero), ("OP_TRUE", .one), ("OP_NOP2", .checkLockTimeVerify),
  ("OP_NOP3", .checkSequenceVerify)]

def ofName? (s : String) : Option Opcode :=
  match all.find? (fun op => op.name == s) with
  | some op => some op
  | none => aliases.lookup s

def maxDirectPush : UInt8 := 0x4b

/-- The opcode that pushes the number `n`, for `n` from 0 to 16. -/
def smallInt? (n : Nat) : Option Opcode :=
  if n = 0 then some .zero
  else if n ≤ 16 then ofByte? (UInt8.ofNat (0x50 + n))
  else none

/-- The number from 0 to 16 that the opcode with this byte pushes. -/
def smallIntValue? (b : UInt8) : Option Nat :=
  if b = 0 then some 0
  else if 0x51 ≤ b ∧ b ≤ 0x60 then some (b.toNat - 0x50)
  else none

/-- Opcodes that end the evaluation wherever they stand, in a skipped branch too. -/
def isDisabled : Opcode → Bool
  | .cat | .substr | .left | .right | .invert | .bitAnd | .bitOr | .bitXor | .mul2 | .div2 | .mul
  | .div | .mod | .shiftLeft | .shiftRight => true
  | _ => false

/-- Opcodes that are looked at in a skipped branch too. -/
def isConditional : Opcode → Bool
  | .ifOp | .notIf | .verIf | .verNotIf | .elseOp | .endIf => true
  | _ => false

/-- A readable name for any byte of a script. -/
def describe (b : UInt8) : String :=
  match ofByte? b with
  | some op => op.name
  | none =>
    if 1 ≤ b ∧ b ≤ maxDirectPush then s!"OP_DATA_{b.toNat}"
    else Text.Hex.literal b

theorem ofByte?_byte (op : Opcode) : ofByte? op.byte = some op := by
  cases op <;> rfl

theorem byte_eq_of_ofByte? {b : UInt8} {op : Opcode} (h : ofByte? b = some op) : op.byte = b := by
  have hb := List.find?_some h
  exact eq_of_beq hb

theorem ofByte?_eq_some_iff {b : UInt8} {op : Opcode} : ofByte? b = some op ↔ op.byte = b := by
  constructor
  · exact byte_eq_of_ofByte?
  · intro h
    rw [← h]
    exact ofByte?_byte op

theorem byte_injective {a b : Opcode} (h : a.byte = b.byte) : a = b := by
  have ha := ofByte?_byte a
  rw [h, ofByte?_byte b] at ha
  exact (Option.some.inj ha).symm

end Opcode

end SpendScript
