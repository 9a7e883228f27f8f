import ChainLab.Digest

/-!
# Hashing and signatures

The chain is defined over any hash function and any signature scheme; what it
guarantees about replicas does not depend on which ones are plugged in.
-/

namespace ChainLab

/-- The public half of a key together with the ability to sign. -/
structure Signer where
  publicKey : PublicKey
  sign : List UInt8 → Signature

class Crypto where
  hash : List UInt8 → Digest
  /-- The signer whose secret is the given seed. -/
  signer : Digest → Signer
  verify : PublicKey → List UInt8 → Signature → Bool

/-- A byte string with its length in front, so that adjacent fields cannot run together. -/
def framed (bytes : List UInt8) : List UInt8 := littleEndian 8 bytes.length ++ bytes

def framedText (text : String) : List UInt8 := framed text.toUTF8.toList

def framedDigest (digest : Digest) : List UInt8 := framed digest.toList

def word32 (n : UInt32) : List UInt8 := littleEndian 4 n.toNat

def word64 (n : UInt64) : List UInt8 := littleEndian 8 n.toNat

end ChainLab
