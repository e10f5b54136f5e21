import SpendScript.Wire.Reader
import SpendScript.Text.Hex

/-!
# SpendScript.Wire.Record

Byte strings and texts that hold exactly one record, with nothing after it.
-/

namespace SpendScript.Wire

inductive RecordKind where
  | transaction
  | blockHeader
  | block
deriving DecidableEq

def RecordKind.label : RecordKind → String
  | .transaction => "transaction"
  | .blockHeader => "block header"
  | .block => "block"

/-- Why a byte string or text does not hold one record. -/
inductive RecordError where
  | truncated (error : Truncated)
  /-- Bytes are left after the record. -/
  | trailing (count : Nat) (kind : RecordKind)
  | badHex (error : Text.HexError)
deriving DecidableEq

def RecordError.message : RecordError → String
  | .truncated error => "primitives error: " ++ error.message
  | .trailing count kind => s!"trailing {count} bytes after {kind.label}"
  | .badHex error => "hex decode error: " ++ error.message

/-- The one record in a byte string. -/
def readRecord {α : Type} (kind : RecordKind) (read : Reader → ReadResult α) (bs : Bytes) :
    Except RecordError α :=
  match read (Reader.ofBytes bs) with
  | .error e => .error (.truncated e)
  | .ok (a, r) => if r.finished then .ok a else .error (.trailing r.remaining kind)

/-- The one record in a hexadecimal text. -/
def readRecordHex {α : Type} (kind : RecordKind) (read : Reader → ReadResult α) (s : String) :
    Except RecordError α :=
  match Text.Hex.decode s with
  | .error e => .error (.badHex e)
  | .ok bs => readRecord kind read bs

end SpendScript.Wire
