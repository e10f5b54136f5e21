import SpendScript.Bytes

/-!
# SpendScript.Hash.Padding

What the three block hashes share: a message is closed with a one bit, zeros and its length in
bits, cut into blocks of sixteen 32-bit words, and folded block by block.
-/

namespace SpendScript.Hash

/-- `x` turned left by `k` bits, `0 < k < 32`. -/
def rotateLeft (x k : UInt32) : UInt32 := (x <<< k) ||| (x >>> (32 - k))

/-- `x` turned right by `k` bits, `0 < k < 32`. -/
def rotateRight (x k : UInt32) : UInt32 := (x >>> k) ||| (x <<< (32 - k))

/-- The message, a closing one bit, and zeros up to eight bytes short of a whole block. -/
def closeMessage (message : Bytes) : Bytes :=
  message ++ 0x80 :: List.replicate ((119 - message.length % 64) % 64) 0

/-- The message closed with its length in bits, most significant byte first. -/
def padBE (message : Bytes) : Bytes :=
  closeMessage message ++ Bytes.ofNatBE 8 (8 * message.length)

/-- The message closed with its length in bits, least significant byte first. -/
def padLE (message : Bytes) : Bytes :=
  closeMessage message ++ Bytes.ofNatLE 8 (8 * message.length)

/-- The whole 32-bit words of a byte string, each most significant byte first. -/
def wordsBE : Bytes → List UInt32
  | a :: b :: c :: d :: rest =>
    (a.toUInt32 <<< 24 ||| b.toUInt32 <<< 16 ||| c.toUInt32 <<< 8 ||| d.toUInt32) :: wordsBE rest
  | _ => []

/-- The whole 32-bit words of a byte string, each least significant byte first. -/
def wordsLE : Bytes → List UInt32
  | a :: b :: c :: d :: rest =>
    (d.toUInt32 <<< 24 ||| c.toUInt32 <<< 16 ||| b.toUInt32 <<< 8 ||| a.toUInt32) :: wordsLE rest
  | _ => []

/-- The four bytes of a word, most significant first. -/
def wordBytesBE (w : UInt32) : Bytes :=
  [(w >>> 24).toUInt8, (w >>> 16).toUInt8, (w >>> 8).toUInt8, w.toUInt8]

/-- The four bytes of a word, least significant first. -/
def wordBytesLE (w : UInt32) : Bytes :=
  [w.toUInt8, (w >>> 8).toUInt8, (w >>> 16).toUInt8, (w >>> 24).toUInt8]

/-- Folds `compress` over the first `n` blocks of sixteen words. -/
def foldBlocks {σ : Type} (compress : σ → List UInt32 → σ) : Nat → σ → List UInt32 → σ
  | 0, s, _ => s
  | n + 1, s, ws => foldBlocks compress n (compress s (ws.take 16)) (ws.drop 16)

/-- Newest-first message schedule: `next` makes one more word from the words so far. -/
def extendSchedule (next : List UInt32 → UInt32) : Nat → List UInt32 → List UInt32
  | 0, ws => ws
  | n + 1, ws => extendSchedule next n (next ws :: ws)

end SpendScript.Hash
