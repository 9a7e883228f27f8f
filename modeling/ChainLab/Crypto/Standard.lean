import ChainLab.Crypto.Ed25519

/-!
# SHA-256 and Ed25519
-/

namespace ChainLab

instance standardCrypto : Crypto where
  hash message := Bytes.fill 32 (sha256 message)
  signer := Ed25519.signer
  verify := Ed25519.verify

end ChainLab
