import ChainLab.Crypto
import ChainLab.Text.Quoted
import Std.Data.ExtTreeMap

/-!
# Keys by name

Keys are never drawn at random: the key of a name is always derived from the
hash of that name, so the same name gives the same key in every run.
-/

namespace ChainLab

variable [Crypto]

def PublicKey.describe (key : PublicKey) : String :=
  "PublicKey(" ++ Digest.short key.bytes ++ ")"

def BlockId.describe (id : BlockId) : String := "BlockId(" ++ toString id ++ ")"

/-- The start of a signature, enough to tell it from others. -/
def Signature.describe (signature : Signature) : String :=
  "Signature(" ++ Hex.encode (signature.bytes.toList.take 8) ++ "..)"

def Hex.Fault.message : Hex.Fault → String
  | .oddLength => "invalid hex: Odd number of digits"
  | .badDigit byte position =>
    let shown := Text.quotedChar (Char.ofNat byte.toNat)
    s!"invalid hex: Invalid character {shown} at position {position}"

def PublicKey.Fault.message : PublicKey.Fault → String
  | .hex fault => fault.message
  | .length actual => s!"expected 32 bytes, got {actual}"

structure KeyPair where
  name : String
  signer : Signer

namespace KeyPair

def ofName (name : String) : KeyPair :=
  ⟨name, Crypto.signer (Crypto.hash (name ++ "_private_key").toUTF8.toList)⟩

def publicKey (key : KeyPair) : PublicKey := key.signer.publicKey

def sign (key : KeyPair) (message : List UInt8) : Signature := key.signer.sign message

def describe (key : KeyPair) : String :=
  "KeyPair \x7b name: " ++ Text.quoted key.name ++ ", public_key: " ++
    key.publicKey.describe ++ " \x7d"

end KeyPair

/-- The keys made so far, by name. -/
structure KeyRing where
  keys : Std.ExtTreeMap String KeyPair

namespace KeyRing

def empty : KeyRing := ⟨∅⟩

/-- Derive the key of a name and keep it. -/
def make (ring : KeyRing) (name : String) : KeyPair × KeyRing :=
  let key := KeyPair.ofName name
  (key, ⟨ring.keys.insert name key⟩)

def get? (ring : KeyRing) (name : String) : Option KeyPair := ring.keys[name]?

def size (ring : KeyRing) : Nat := ring.keys.size

/-- All keys in the order of their names. -/
def toList (ring : KeyRing) : List KeyPair := ring.keys.toList.map (·.2)

def names (ring : KeyRing) : List String := ring.keys.keys

end KeyRing

end ChainLab
