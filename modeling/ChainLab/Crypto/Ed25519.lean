import ChainLab.Crypto
import ChainLab.Crypto.Edwards25519
import ChainLab.Crypto.Sha2

/-!
# Ed25519 signatures

Signing is deterministic. Verification recomputes the commitment `R` from the
response and compares its encoding, so `R` itself is never decoded.
-/

namespace ChainLab.Ed25519

open Edwards25519

/-- The hash of some bytes as a scalar. -/
def challenge (bytes : List UInt8) : Nat := ofLittleEndian (sha512 bytes) % groupOrder

/-- The secret scalar: low three bits clear, top bit clear, the bit below it set. -/
def clamp (bytes : List UInt8) : Nat :=
  ofLittleEndian bytes % Nat.pow 2 254 / 8 * 8 + Nat.pow 2 254

def mulBase (scalar : Nat) : Point := Point.mulAdd scalar Point.baseMultiples 0 #[]

def signer (seed : Digest) : Signer :=
  let hashed := sha512 seed.toList
  let scalar := clamp (hashed.take 32)
  let nonceSeed := hashed.drop 32
  let key := (mulBase scalar).encode
  { publicKey := ⟨Bytes.fill 32 key⟩
    sign := fun message =>
      let nonce := challenge (nonceSeed ++ message)
      let commitment := (mulBase nonce).encode
      let response := (nonce + challenge (commitment ++ key ++ message) * scalar) % groupOrder
      ⟨Bytes.fill 64 (commitment ++ littleEndian 32 response)⟩ }

/-- The response must be reduced, the key must decode. -/
def verify (key : PublicKey) (message : List UInt8) (signature : Signature) : Bool :=
  let commitment := signature.bytes.toList.take 32
  let response := ofLittleEndian (signature.bytes.toList.drop 32)
  match Point.decode? key.bytes.toList with
  | none => false
  | some point =>
    response < groupOrder &&
      let k := challenge (commitment ++ key.bytes.toList ++ message)
      (Point.mulAdd response Point.baseMultiples k point.neg.multiples).encode == commitment

end ChainLab.Ed25519
