import SpendScript.Script.Basic
import SpendScript.Text.Blank

/-!
# SpendScript.Script.Asm

Assembly text of scripts: words between white space. A word is the name of an opcode, `0`, `-1`,
`0x` and two digits for a byte without a name, or hexadecimal data, which is pushed in the
shortest form. The text therefore tells what a script pushes but not in which form.
-/

namespace SpendScript.Script

/-- The byte after `0x`: two digits, or a plus sign and one. The lengths of direct pushes are
refused, since they would take the bytes that follow for their data. -/
def rawByte? (cs : List Char) : Option UInt8 :=
  let value :=
    match cs with
    | ['+', low] => Text.Hex.digitValue? low
    | [high, low] =>
      match Text.Hex.digitValue? high, Text.Hex.digitValue? low with
      | some h, some l => some (16 * h + l)
      | _, _ => none
    | _ => none
  match value with
  | some n => if 1 ≤ n ∧ n ≤ Opcode.maxDirectPush.toNat then none else some (UInt8.ofNat n)
  | none => none

def dataToken (word : List Char) : Except ScriptError Chunk :=
  match Text.Hex.decodeChars word with
  | .error _ => .error (.badToken (String.ofList word))
  | .ok data =>
    match Chunk.ofData? data with
    | some c => .ok c
    | none => .error (.dataTooBig data.length)

def ofToken (word : List Char) : Except ScriptError Chunk :=
  match Opcode.ofName? (String.ofList word) with
  | some op => .ok (Chunk.ofOpcode op)
  | none =>
    match word with
    | ['0'] => .ok (Chunk.ofOpcode .zero)
    | ['-', '1'] => .ok (Chunk.ofOpcode .oneNegate)
    | '0' :: 'x' :: raw =>
      match rawByte? raw with
      | some b => .ok (.op b)
      | none => .error (.badToken (String.ofList word))
    | _ => dataToken word

def ofTokens : List (List Char) → Except ScriptError (List Chunk)
  | [] => .ok []
  | word :: words =>
    match ofToken word with
    | .error e => .error e
    | .ok c =>
      match ofTokens words with
      | .error e => .error e
      | .ok cs => .ok (c :: cs)

def ofAsmChars (cs : List Char) : Except ScriptError Script :=
  match ofTokens (Text.words cs) with
  | .error e => .error e
  | .ok chunks => .ok ⟨chunks⟩

def ofAsm (s : String) : Except ScriptError Script := ofAsmChars s.toList

/-- Words with one space between them. -/
def joinTokens : List (List Char) → List Char
  | [] => []
  | [word] => word
  | word :: words => word ++ ' ' :: joinTokens words

def toAsmChars (s : Script) : List Char := joinTokens (s.chunks.map Chunk.token)

def toAsm (s : Script) : String := String.ofList s.toAsmChars

end SpendScript.Script
