import ChainLab.Authority
import ChainLab.Key
import ChainLab.Quantity

/-!
# Transactions

A transaction names a recent block of its chain, lists messages, and is signed
for one chain. Its digest leaves out chain and signatures, so the same content
has the same digest everywhere.
-/

namespace ChainLab

structure Message where
  contract : AccountName
  authorizations : LevelSet
  type : String
  payload : List UInt8

structure Transaction where
  expiration : Time
  refBlockNum : UInt32
  /-- The bits of the reference block's identifier that name it. -/
  refBlockTag : UInt32
  messages : List Message

/-- What is hashed: a framed domain, then fields that are framed or of fixed width. -/
def preimage (domain : String) (fields : List (List UInt8)) : List UInt8 :=
  framedText domain ++ fields.flatten

def countOf {α : Type} (items : List α) : List UInt8 := littleEndian 8 items.length

namespace Message

def fields (m : Message) : List UInt8 :=
  framedText m.contract ++ countOf m.authorizations.toList ++
    (m.authorizations.toList.flatMap fun level =>
      framedText level.actor ++ framedText level.permission) ++
    framedText m.type ++ framed m.payload

end Message

namespace Transaction

def preimage (t : Transaction) : List UInt8 :=
  ChainLab.preimage "authsim/transaction"
    [word64 t.expiration.ticks, word32 t.refBlockNum, word32 t.refBlockTag,
     countOf t.messages, t.messages.flatMap Message.fields]

/-- What signers sign: the digest bound to one chain. -/
def signingPreimage (chainId digest : Digest) : List UInt8 :=
  ChainLab.preimage "authsim/signing" [framedDigest chainId, framedDigest digest]

variable [Crypto]

def digest (t : Transaction) : Digest := Crypto.hash t.preimage

def signingDigest (chainId : Digest) (t : Transaction) : Digest :=
  Crypto.hash (signingPreimage chainId t.digest)

end Transaction

structure SignedTransaction where
  transaction : Transaction
  signatures : List (PublicKey × Signature)

namespace SignedTransaction

variable [Crypto]

def digest (trx : SignedTransaction) : Digest := trx.transaction.digest

/-- Sign for a chain with every key in turn. -/
def sign (chainId : Digest) (keys : List KeyPair) (t : Transaction) : SignedTransaction :=
  let message := (t.signingDigest chainId).toList
  { transaction := t
    signatures := keys.map fun key => (key.publicKey, key.sign message) }

/-- Collect the keys of signatures that verify, up to the first one that does not. -/
def collectKeys (message : List UInt8) (keys : KeySet) :
    List (PublicKey × Signature) → Except PublicKey KeySet
  | [] => .ok keys
  | (key, signature) :: rest =>
    if Crypto.verify key message signature then collectKeys message (keys.insert key) rest
    else .error key

/-- The keys whose signatures verify for a chain, or the first that does not. -/
def verifiedKeys (chainId : Digest) (trx : SignedTransaction) : Except PublicKey KeySet :=
  collectKeys (trx.transaction.signingDigest chainId).toList ∅ trx.signatures

end SignedTransaction

end ChainLab
