import SpendScript.Hash.Sha256
import SpendScript.Hash.Ripemd160

/-!
# SpendScript.Hash.Composed

Digests built from the basic hashes: the double hash of identifiers, the short hash of keys and
scripts, the checksum of texts, and the keyed hash.
-/

namespace SpendScript.Hash

def sha256d (message : Bytes) : Digest 32 := sha256 (sha256 message).bytes

/-- RIPEMD-160 of SHA-256, the 20-byte hash of keys and scripts. -/
def hash160 (message : Bytes) : Digest 20 := ripemd160 (sha256 message).bytes

/-- The first four bytes of the double hash. -/
def checksum (message : Bytes) : Bytes := (sha256d message).bytes.take 4

/-- The key of a keyed hash filled up to one block; a longer key is hashed first. -/
def blockKey (key : Bytes) : Bytes :=
  let short := if key.length ≤ 64 then key else (sha256 key).bytes
  short ++ List.replicate (64 - short.length) 0

def hmacSha256 (key message : Bytes) : Bytes :=
  let k := blockKey key
  let inner := sha256 (k.map (· ^^^ 0x36) ++ message)
  (sha256 (k.map (· ^^^ 0x5c) ++ inner.bytes)).bytes

end SpendScript.Hash
