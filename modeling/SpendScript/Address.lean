import SpendScript.Script.Class
import SpendScript.Text.Base58
import SpendScript.Text.Blank

/-!
# SpendScript.Address

Addresses: a 20-byte hash of a public key or of a script, for one of two networks. The text is
base 58 over a version byte, which stands for network and kind, the hash and a checksum. An address
is also what a locking script pays to.
-/

namespace SpendScript

inductive Network where
  | livenet
  | testnet
deriving DecidableEq

inductive AddressKind where
  | pubkeyHash
  | scriptHash
deriving DecidableEq

namespace Network

/-- The name of a network as error texts show it. -/
def title : Network → String
  | .livenet => "Livenet"
  | .testnet => "Testnet"

def version : Network → AddressKind → UInt8
  | .livenet, .pubkeyHash => 0x26
  | .livenet, .scriptHash => 0x32
  | .testnet, .pubkeyHash => 0x6f
  | .testnet, .scriptHash => 0xc4

/-- What a version byte stands for. -/
def ofVersion? (v : UInt8) : Option (Network × AddressKind) :=
  if v = 0x26 then some (.livenet, .pubkeyHash)
  else if v = 0x32 then some (.livenet, .scriptHash)
  else if v = 0x6f then some (.testnet, .pubkeyHash)
  else if v = 0xc4 then some (.testnet, .scriptHash)
  else none

theorem ofVersion?_version (n : Network) (k : AddressKind) :
    ofVersion? (n.version k) = some (n, k) := by
  cases n <;> cases k <;> rfl

end Network

/-- Why a text or a script has no address. -/
inductive AddressError where
  | badChar (char : Char) (position : Nat)
  | wrongChecksum
  | badLength (length : Nat)
  | unknownVersion (version : UInt8)
  | wrongNetwork (expected actual : Network)
  | noAddress (template : ScriptClass)
  | base58 (error : Text.Base58Error)
deriving DecidableEq

def AddressError.message : AddressError → String
  | .badChar char position =>
    s!"non-base58 character {Text.Quoted.char char} at index {position}"
  | .wrongChecksum => "address checksum mismatch"
  | .badLength length => s!"invalid decoded address length: {length} bytes"
  | .unknownVersion version => "unknown network byte " ++ Text.Hex.literal version
  | .wrongNetwork expected actual =>
    s!"address is for {actual.title}, expected {expected.title}"
  | .noAddress template => "no address for script template " ++ template.label
  | .base58 error => error.message

structure Address where
  hash : Digest 20
  network : Network
  kind : AddressKind
deriving DecidableEq

namespace Address

def encode (version : UInt8) (hash : Digest 20) : String :=
  Text.Base58.checkEncode (version :: hash.bytes)

/-- Reads the characters of a text into a version byte and a hash, whatever the version. -/
def decodeChars (cs : List Char) : Except AddressError (UInt8 × Digest 20) :=
  match Text.Base58.decodeChars cs with
  | .error (.badChar char position) => .error (.badChar char position)
  | .error e => .error (.base58 e)
  | .ok bs =>
    match bs with
    | [] => .error (.badLength 0)
    | version :: rest =>
      match Digest.ofBytes? 20 (rest.take 20) with
      | none => .error (.badLength bs.length)
      | some hash =>
        if bs.length ≠ 25 then .error (.badLength bs.length)
        else if rest.drop 20 ≠ Hash.checksum (version :: hash.bytes) then .error .wrongChecksum
        else .ok (version, hash)

/-- Reads a text, with blanks around it or not, into a version byte and a hash. -/
def decode (s : String) : Except AddressError (UInt8 × Digest 20) :=
  decodeChars (Text.trim s.toList)

def version (a : Address) : UInt8 := a.network.version a.kind

def toText (a : Address) : String := encode a.version a.hash

/-- Reads the text of an address of either network. -/
def ofText (s : String) : Except AddressError Address :=
  match decode s with
  | .error e => .error e
  | .ok (version, hash) =>
    match Network.ofVersion? version with
    | some (network, kind) => .ok ⟨hash, network, kind⟩
    | none => .error (.unknownVersion version)

def ofTextFor (s : String) (network : Network) : Except AddressError Address :=
  match ofText s with
  | .error e => .error e
  | .ok a => if a.network = network then .ok a else .error (.wrongNetwork network a.network)

def ofPublicKey (key : Bytes) (network : Network) : Address :=
  ⟨Hash.hash160 key, network, .pubkeyHash⟩

/-- The address that is spent by showing the script with this byte form. -/
def ofRedeemBytes (redeem : Bytes) (network : Network) : Address :=
  ⟨Hash.hash160 redeem, network, .scriptHash⟩

def ofRedeem (redeem : Script) (network : Network) : Address :=
  ofRedeemBytes redeem.toBytes network

/-- The locking script that pays to the address. -/
def toScript (a : Address) : Script :=
  match a.kind with
  | .pubkeyHash => .pubkeyHashOut a.hash
  | .scriptHash => .scriptHashOut a.hash

/-- The 20-byte hash in the first push of that length. -/
def hashIn? (s : Script) : Option (Digest 20) :=
  s.chunks.findSome? (fun c => c.data?.bind (Digest.ofBytes? 20))

/-- The address that a locking script pays to. -/
def ofLocking? (s : Script) (network : Network) : Option Address :=
  match s.classOut with
  | .pubkeyHashOut => (hashIn? s).map (⟨·, network, .pubkeyHash⟩)
  | .scriptHashOut => (hashIn? s).map (⟨·, network, .scriptHash⟩)
  | _ => none

def lastData? (s : Script) : Option Bytes := s.chunks.getLast?.bind Chunk.data?

def ofUnlocking? (s : Script) (network : Network) : Option Address :=
  match s.classIn with
  | .pubkeyHashIn => (lastData? s).map (ofPublicKey · network)
  | .scriptHashIn => (lastData? s).map (ofRedeemBytes · network)
  | _ => none

/-- The address of a script, tried as a locking script first. -/
def ofScript (s : Script) (network : Network) : Except AddressError Address :=
  match ofLocking? s network with
  | some a => .ok a
  | none =>
    match ofUnlocking? s network with
    | some a => .ok a
    | none =>
      if s.classIn = .unknown then .error (.noAddress s.classOut)
      else .error (.noAddress s.classIn)

end Address

end SpendScript
