import SpendScript.Bytes

/-!
# SpendScript.Signature.Der

The DER form of a signature: a sequence of the two integers R and S, `30 len 02 lenR R 02 lenS S`,
followed in a transaction by one hash-type byte. Canonical means that every length fits exactly and
that both integers are non-negative and written without needless padding.
-/

namespace SpendScript.Der

def sequenceTag : UInt8 := 0x30

def integerTag : UInt8 := 0x02

/-- Non-negative, and no leading zero byte but the one that clears the sign bit. -/
def isCanonicalInt : Bytes → Bool
  | [] => false
  | [a] => a < 0x80
  | a :: b :: _ => a < 0x80 && !(a == 0 && b < 0x80)

/-- A canonical DER form and one hash-type byte after it. -/
def isCanonicalTx (bs : Bytes) : Bool :=
  let lenR := (bs.byteAt 3).toNat
  let lenS := (bs.byteAt (5 + lenR)).toNat
  decide (9 ≤ bs.length ∧ bs.length ≤ 73) &&
    bs.byteAt 0 == sequenceTag && decide ((bs.byteAt 1).toNat + 3 = bs.length) &&
    decide (5 + lenR < bs.length) && decide (lenR + lenS + 7 = bs.length) &&
    bs.byteAt 2 == integerTag && isCanonicalInt (bs.slice 4 lenR) &&
    bs.byteAt (4 + lenR) == integerTag && isCanonicalInt (bs.slice (6 + lenR) lenS)

/-- The shortest non-negative integer content for an unsigned big-endian magnitude. -/
def intContent (magnitude : Bytes) : Bytes :=
  match magnitude.stripZeros with
  | [] => [0]
  | a :: rest => if a < 0x80 then a :: rest else 0 :: a :: rest

/-- What follows the sequence tag, for two unsigned magnitudes. Each length is one byte. -/
def body (r s : Bytes) : Bytes :=
  let rc := intContent r
  let sc := intContent s
  UInt8.ofNat (4 + rc.length + sc.length) ::
    integerTag :: UInt8.ofNat rc.length :: rc ++ integerTag :: UInt8.ofNat sc.length :: sc

/-- Where the two integers cannot be found in a body. -/
inductive BodyFault where
  | tooShort
  | wrongLength
  | noR
  | badRLength
  | noS
  | badSLength
deriving DecidableEq

def BodyFault.message : BodyFault → String
  | .tooShort => "too short"
  | .wrongLength => "length byte does not match body"
  | .noR => "missing R integer marker"
  | .badRLength => "bad R length"
  | .noS => "missing S integer marker"
  | .badSLength => "bad S length"

/-- The contents of the two integers of a body. -/
def components (body : Bytes) : Except BodyFault (Bytes × Bytes) :=
  let lenR := (body.byteAt 2).toNat
  let lenS := (body.byteAt (4 + lenR)).toNat
  if body.length < 5 then .error .tooShort
  else if (body.byteAt 0).toNat + 1 ≠ body.length then .error .wrongLength
  else if body.byteAt 1 ≠ integerTag then .error .noR
  else if lenR = 0 ∨ body.length < 5 + lenR then .error .badRLength
  else if body.byteAt (3 + lenR) ≠ integerTag then .error .noS
  else if lenS = 0 ∨ 5 + lenR + lenS ≠ body.length then .error .badSLength
  else .ok (body.slice 3 lenR, body.drop (5 + lenR))

end SpendScript.Der
