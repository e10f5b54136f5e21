import SpendScript.Eval.Fault

/-!
# SpendScript.Eval.Number

Stack items as numbers and as truth values. A number is a sign and a magnitude, least significant
byte first, with the sign in the highest bit of the last byte; the empty item is zero. Operands are
limited in length, results only to 64 bits, so a result may be too long to be an operand.
-/

namespace SpendScript

/-- How a stack item has to look to be taken for a number. -/
structure NumberRule where
  maxLength : Nat
  minimal : Bool

namespace Number

/-- The number that an item of any length spells. -/
def value (bs : Bytes) : Int :=
  match bs.getLast? with
  | none => 0
  | some last =>
    let magnitude := Bytes.toNatLE (bs.dropLast ++ [last &&& 0x7f])
    if last &&& 0x80 = 0 then magnitude else -magnitude

/-- The shortest item that spells a number. -/
def encode (n : Int) : Bytes :=
  let digits := Bytes.magnitudeLE n.natAbs
  match digits.getLast? with
  | none => []
  | some last =>
    if last &&& 0x80 ≠ 0 then digits ++ [if n < 0 then 0x80 else 0x00]
    else if n < 0 then digits.dropLast ++ [last ||| 0x80]
    else digits

/-- Whether the last byte is needed: it holds more than a sign, or the byte before it has no room
for the sign. -/
def isMinimal (bs : Bytes) : Bool :=
  match bs.reverse with
  | [] => true
  | [last] => last &&& 0x7f != 0
  | last :: before :: _ => last &&& 0x7f != 0 || before &&& 0x80 != 0

/-- Fails on an item that is longer than its number needs. -/
def checkMinimal (bs : Bytes) : Except Fault Unit :=
  if isMinimal bs then .ok () else .error (.longNumber bs)

/-- The longest item whose number fits 64 bits. -/
def maxWidth : Nat := 8

/-- Takes an item for a number. -/
def decode (rule : NumberRule) (bs : Bytes) : Except Fault Int :=
  if min rule.maxLength maxWidth < bs.length then
    .error (.numberTooLong bs (min rule.maxLength maxWidth))
  else if rule.minimal && !isMinimal bs then .error (.longNumber bs)
  else .ok (value bs)

/-- Whether a signed word of 64 bits holds the number. -/
def fits (n : Int) : Bool := -0x8000000000000000 ≤ n && n < 0x8000000000000000

/-- The nearest number that fits a signed word of 32 bits. -/
def clamp32 (n : Int) : Int := max (-0x80000000) (min n 0x7fffffff)

/-- An item is true if one of its bytes is not zero, a last byte that holds only the sign apart. -/
def truth (bs : Bytes) : Bool :=
  match bs.reverse with
  | [] => false
  | last :: before => before.any (· != 0) || last &&& 0x7f != 0

def ofBool (b : Bool) : Bytes := if b then [1] else []

@[simp] theorem truth_ofBool (b : Bool) : truth (ofBool b) = b := by
  cases b <;> rfl

end Number

end SpendScript
