import SpendScript.Address
import SpendScript.Block.Basic
import SpendScript.Block.Merkle
import SpendScript.Block.Target
import SpendScript.Bytes
import SpendScript.Curve.PrivateKey
import SpendScript.Curve.PublicKey
import SpendScript.Curve.Secp256k1
import SpendScript.Eval.Evaluation
import SpendScript.Eval.Exec
import SpendScript.Eval.Fault
import SpendScript.Eval.Flags
import SpendScript.Eval.LockTime
import SpendScript.Eval.Machine
import SpendScript.Eval.Number
import SpendScript.Eval.SigCheck
import SpendScript.Eval.Stack
import SpendScript.Hash.Composed
import SpendScript.Hash.Display
import SpendScript.Hash.Padding
import SpendScript.Hash.Ripemd160
import SpendScript.Hash.Sha1
import SpendScript.Hash.Sha256
import SpendScript.Opcode
import SpendScript.Proofs.Digits
import SpendScript.Proofs.Eval.Phases
import SpendScript.Proofs.Tx.RoundTrip
import SpendScript.Proofs.Wire.RoundTrip
import SpendScript.Script.Asm
import SpendScript.Script.Basic
import SpendScript.Script.Chunk
import SpendScript.Script.Class
import SpendScript.Script.Template
import SpendScript.Signature.Basic
import SpendScript.Signature.Der
import SpendScript.Text.Base58
import SpendScript.Text.Blank
import SpendScript.Text.Hex
import SpendScript.Text.Quoted
import SpendScript.Tx.Basic
import SpendScript.Tx.PayToKey
import SpendScript.Tx.SigHash
import SpendScript.Tx.Signing
import SpendScript.Wire.Field
import SpendScript.Wire.Reader
import SpendScript.Wire.Record
import SpendScript.Wire.Writer
import SpendScript.Proofs.Tx.Commitment
import SpendScript.Proofs.Eval.FewerRules
import SpendScript.Proofs.Eval.Multisig
import SpendScript.Proofs.Eval.Success
import SpendScript.Proofs.Eval.Templates
import SpendScript.Proofs.Script.RoundTrip
import SpendScript.Proofs.Eval.SigForm
import SpendScript.Proofs.Eval.PayToKeyHash
import SpendScript.Proofs.Eval.PushOnly
import SpendScript.Proofs.Eval.ScriptHash
import SpendScript.Proofs.Tx.PayToKey
import SpendScript.Proofs.Script.Decoding
import SpendScript.Proofs.Script.Multisig
import SpendScript.Proofs.Wire.Spelling
import SpendScript.Proofs.Block.RoundTrip
import SpendScript.Proofs.Block.Merkle
import SpendScript.Proofs.Block.Commitment
import SpendScript.Proofs.Eval.OpEffects
import SpendScript.Proofs.Eval.Reachable
import SpendScript.Proofs.Eval.Questions
import SpendScript.Proofs.Eval.Limits
import SpendScript.Proofs.Eval.Conditionals
import SpendScript.Proofs.Eval.Ending
import SpendScript.Proofs.Eval.Skipped
import SpendScript.Proofs.Address.Text
import SpendScript.Proofs.Eval.Wrapping
import SpendScript.Proofs.Address.Script
import SpendScript.Proofs.Wire.Fields
import SpendScript.Proofs.Wire.Cursor
import SpendScript.Proofs.Eval.Number
import SpendScript.Proofs.Signature.Der
import SpendScript.Proofs.Signature.Forms
import SpendScript.Proofs.Eval.SigReads
import SpendScript.Proofs.Tx.MissingInput
import SpendScript.Proofs.Opcode
import SpendScript.Proofs.Script.Asm
import SpendScript.Proofs.Script.Classes
import SpendScript.Proofs.Block.Bisection
import SpendScript.Proofs.Block.Target
import SpendScript.Proofs.Eval.LockTime
import SpendScript.Proofs.Eval.Separators
import SpendScript.Proofs.Eval.SignedCode
import SpendScript.Proofs.Eval.Groups
import SpendScript.Proofs.Eval.Arithmetic
import SpendScript.Proofs.Eval.ShortestPush
import SpendScript.Proofs.Eval.Truth
