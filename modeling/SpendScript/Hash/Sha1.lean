import SpendScript.Hash.Padding

/-!
# SpendScript.Hash.Sha1

SHA-1 over byte strings.
-/

namespace SpendScript.Hash

namespace Sha1

/-- The five words of the chaining state. -/
structure State where
  a : UInt32
  b : UInt32
  c : UInt32
  d : UInt32
  e : UInt32

def initial : State := ⟨0x67452301, 0xefcdab89, 0x98badcfe, 0x10325476, 0xc3d2e1f0⟩

/-- The next word of the schedule, from the words so far, newest first. -/
def nextWord (ws : List UInt32) : UInt32 :=
  rotateLeft (ws.getD 2 0 ^^^ ws.getD 7 0 ^^^ ws.getD 13 0 ^^^ ws.getD 15 0) 1

/-- The mixing function and the constant of round `t`. -/
def mix (t : Nat) (s : State) : UInt32 × UInt32 :=
  if t < 20 then ((s.b &&& s.c) ||| (~~~s.b &&& s.d), 0x5a827999)
  else if t < 40 then (s.b ^^^ s.c ^^^ s.d, 0x6ed9eba1)
  else if t < 60 then ((s.b &&& s.c) ||| (s.b &&& s.d) ||| (s.c &&& s.d), 0x8f1bbcdc)
  else (s.b ^^^ s.c ^^^ s.d, 0xca62c1d6)

def round (s : State) (w : UInt32 × Nat) : State :=
  let m := mix w.2 s
  ⟨rotateLeft s.a 5 + m.1 + s.e + m.2 + w.1, s.a, rotateLeft s.b 30, s.c, s.d⟩

def compress (s : State) (block : List UInt32) : State :=
  let schedule := (extendSchedule nextWord 64 block.reverse).reverse
  let r := schedule.zipIdx.foldl round s
  ⟨s.a + r.a, s.b + r.b, s.c + r.c, s.d + r.d, s.e + r.e⟩

def State.toBytes (s : State) : Bytes :=
  wordBytesBE s.a ++ wordBytesBE s.b ++ wordBytesBE s.c ++ wordBytesBE s.d ++ wordBytesBE s.e

end Sha1

def sha1 (message : Bytes) : Digest 20 :=
  let padded := padBE message
  ⟨(foldBlocks Sha1.compress (padded.length / 64) Sha1.initial (wordsBE padded)).toBytes, rfl⟩

end SpendScript.Hash
