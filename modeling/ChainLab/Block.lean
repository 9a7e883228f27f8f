import ChainLab.Transaction

/-!
# Blocks

The identifier of a block hashes its header, and the header commits to the
digests of the transactions in order. Signatures are not committed to.
-/

namespace ChainLab

structure BlockHeader where
  id : BlockId
  previous : BlockId
  num : UInt32
  time : Time
  /-- The node that made the block. -/
  producer : NodeName
  root : Digest
  deriving DecidableEq

structure Block where
  header : BlockHeader
  transactions : List SignedTransaction

namespace BlockHeader

def preimage (h : BlockHeader) : List UInt8 :=
  ChainLab.preimage "authsim/block"
    [framedDigest h.previous.digest, word32 h.num, word64 h.time.ticks,
     framedText h.producer, framedDigest h.root]

def genesisPreimage (chainId commitment : Digest) (time : Time) : List UInt8 :=
  ChainLab.preimage "authsim/genesis"
    [framedDigest chainId, framedDigest commitment, word64 time.ticks]

variable [Crypto]

/-- The identifier the contents call for. -/
def computedId (h : BlockHeader) : BlockId := ⟨Crypto.hash h.preimage⟩

/-- Block 0 of a chain commits to the chain and to what exists at the start. -/
def genesis (chainId commitment : Digest) (time : Time) : BlockHeader where
  id := ⟨Crypto.hash (genesisPreimage chainId commitment time)⟩
  previous := .zero
  num := 0
  time := time
  producer := "genesis"
  root := Bytes.zero 32

end BlockHeader

namespace Block

def id (b : Block) : BlockId := b.header.id

def num (b : Block) : UInt32 := b.header.num

def previous (b : Block) : BlockId := b.header.previous

def rootPreimage (digests : List Digest) : List UInt8 :=
  ChainLab.preimage "authsim/transactions" [countOf digests, digests.flatMap framedDigest]

variable [Crypto]

def rootOf (transactions : List SignedTransaction) : Digest :=
  Crypto.hash (rootPreimage (transactions.map (·.digest)))

/-- A block on top of `parent`. -/
def make (parent : BlockHeader) (time : Time) (producer : NodeName)
    (transactions : List SignedTransaction) : Block :=
  let header : BlockHeader :=
    { id := .zero
      previous := parent.id
      num := parent.num + 1
      time := time
      producer := producer
      root := rootOf transactions }
  { header := { header with id := header.computedId }, transactions }

/-- Whether identifier and root are those of the contents. -/
def isConsistent (b : Block) : Bool :=
  b.header.root = rootOf b.transactions && b.header.id = b.header.computedId

end Block

end ChainLab
