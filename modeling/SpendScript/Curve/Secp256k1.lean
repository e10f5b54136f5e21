/-!
# SpendScript.Curve.Secp256k1

The curve `y ^ 2 = x ^ 3 + 7` over the integers modulo `fieldPrime`, whose points form a group of
prime order `groupOrder`. Points are kept in Jacobian coordinates, `x = X / Z ^ 2` and
`y = Y / Z ^ 3`, so that only the last conversion divides.
-/

namespace SpendScript.Curve

def fieldPrime : Nat :=
  0xfffffffffffffffffffffffffffffffffffffffffffffffffffffffefffffc2f

def groupOrder : Nat :=
  0xfffffffffffffffffffffffffffffffebaaedce6af48a03bbfd25e8cd0364141

/-- The largest S that is called low. -/
def halfOrder : Nat :=
  0x7fffffffffffffffffffffffffffffff5d576e7357a4501ddfe92f46681b20a0

/-- `base ^ exponent` modulo `m`, by squaring. -/
def powMod (m base exponent : Nat) : Nat :=
  if exponent = 0 then 1 % m
  else
    let half := powMod m (base * base % m) (exponent / 2)
    if exponent % 2 = 1 then base * half % m else half
termination_by exponent
decreasing_by omega

/-- The inverse of `a` modulo a prime `m`, by Fermat's theorem. -/
def inverseMod (m a : Nat) : Nat := powMod m a (m - 2)

def fieldSub (a b : Nat) : Nat := (a + (fieldPrime - b % fieldPrime)) % fieldPrime

def fieldMul (a b : Nat) : Nat := a * b % fieldPrime

/-- `x ^ 3 + 7` modulo the field prime. -/
def curveRhs (x : Nat) : Nat := (x * x % fieldPrime * x + 7) % fieldPrime

/-- A point of the curve; `z = 0` is the point at infinity. -/
structure Jacobian where
  x : Nat
  y : Nat
  z : Nat

namespace Jacobian

def infinity : Jacobian := ⟨1, 1, 0⟩

def double (p : Jacobian) : Jacobian :=
  let a := fieldMul p.x p.x
  let b := fieldMul p.y p.y
  let c := fieldMul b b
  let d := fieldMul 2 (fieldSub (fieldMul (p.x + b) (p.x + b)) (a + c))
  let e := fieldMul 3 a
  let x := fieldSub (fieldMul e e) (2 * d)
  ⟨x, fieldSub (fieldMul e (fieldSub d x)) (8 * c), fieldMul (2 * p.y) p.z⟩

def add (p q : Jacobian) : Jacobian :=
  if p.z = 0 then q
  else if q.z = 0 then p
  else
    let pzz := fieldMul p.z p.z
    let qzz := fieldMul q.z q.z
    let u1 := fieldMul p.x qzz
    let u2 := fieldMul q.x pzz
    let s1 := fieldMul p.y (fieldMul qzz q.z)
    let s2 := fieldMul q.y (fieldMul pzz p.z)
    if u1 = u2 then
      if s1 = s2 then p.double else infinity
    else
      let h := fieldSub u2 u1
      let r := fieldSub s2 s1
      let hh := fieldMul h h
      let hhh := fieldMul h hh
      let v := fieldMul u1 hh
      let x := fieldSub (fieldMul r r) (hhh + 2 * v)
      ⟨x, fieldSub (fieldMul r (fieldSub v x)) (fieldMul s1 hhh), fieldMul (fieldMul p.z q.z) h⟩

/-- `k` times the point, by doubling. -/
def scale (k : Nat) (p : Jacobian) : Jacobian :=
  if k = 0 then infinity
  else
    let half := (scale (k / 2) p).double
    if k % 2 = 1 then half.add p else half
termination_by k
decreasing_by omega

/-- The affine coordinates, if the point is not at infinity. -/
def affine? (p : Jacobian) : Option (Nat × Nat) :=
  if p.z = 0 then none
  else
    let zi := inverseMod fieldPrime p.z
    let zi2 := fieldMul zi zi
    some (fieldMul p.x zi2, fieldMul p.y (fieldMul zi2 zi))

end Jacobian

/-- The agreed point of order `groupOrder`. -/
def generator : Jacobian :=
  ⟨0x79be667ef9dcbbac55a06295ce870b07029bfcdb2dce28d959f2815b16f81798,
    0x483ada7726a3c4655da4fbfc0e1108a8fd17b448a68554199c47d08ffb10d4b8, 1⟩

end SpendScript.Curve
