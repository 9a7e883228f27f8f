import ChainLab.Proofs.Preimage

/-!
# The hashed string determines what is hashed

Six kinds of content are hashed: transactions, what signers sign, headers, the digests of a block's
transactions, the account a chain starts with, and what the genesis block stands for. A string under
one of the domains spells content of one kind, and only one content of that kind. The one thing that
a string leaves out is the identifier of a header, which is the hash of that very string.
-/

namespace ChainLab

/-- What is hashed under some domain. -/
inductive Content where
  | transaction (t : Transaction)
  | signing (chainId digest : Digest)
  | header (h : BlockHeader)
  | root (digests : List Digest)
  | genesisAccount (account : GenesisAccount)
  | genesis (chainId commitment : Digest) (time : Time)

namespace Content

def domain : Content → String
  | transaction _ => "authsim/transaction"
  | signing _ _ => "authsim/signing"
  | header _ => "authsim/block"
  | root _ => "authsim/transactions"
  | genesisAccount _ => "authsim/genesis-state"
  | genesis _ _ _ => "authsim/genesis"

/-- The string that is hashed. -/
def preimage : Content → List UInt8
  | transaction t => t.preimage
  | signing chainId digest => Transaction.signingPreimage chainId digest
  | header h => h.preimage
  | root digests => Block.rootPreimage digests
  | genesisAccount account => ChainState.genesisPreimage account
  | genesis chainId commitment time => BlockHeader.genesisPreimage chainId commitment time

/-- Every length in the content can be written in eight bytes. -/
def Fits : Content → Prop
  | transaction t => t.Fits
  | signing _ _ => True
  | header h => h.producer.utf8ByteSize < UInt64.size
  | root digests => digests.length < UInt64.size
  | genesisAccount account => account.name.utf8ByteSize < UInt64.size
  | genesis _ _ _ => True

/-- The content, with the identifier of a header left out. -/
def unnamed : Content → Content
  | header h => header { h with id := .zero }
  | content => content

variable {a b : Content}

theorem utf8ByteSize_domain_lt (a : Content) : a.domain.utf8ByteSize < UInt64.size := by
  cases a <;> simp only [domain] <;> decide

theorem exists_preimage_eq (a : Content) :
    ∃ fields, a.preimage = ChainLab.preimage a.domain fields := by
  cases a <;> exact ⟨_, rfl⟩

/-- No string is written under two domains. -/
theorem domain_eq_of_preimage_eq (same : a.preimage = b.preimage) : a.domain = b.domain := by
  obtain ⟨fieldsA, spelledA⟩ := a.exists_preimage_eq
  obtain ⟨fieldsB, spelledB⟩ := b.exists_preimage_eq
  rw [spelledA, spelledB] at same
  exact ChainLab.domain_eq_of_preimage_eq a.utf8ByteSize_domain_lt b.utf8ByteSize_domain_lt same

/-- The string tells its domain, and content with lengths that fit is told by it but for the
identifier of a header. -/
theorem unnamed_eq_of_preimage_eq (a b : Content) (same : a.preimage = b.preimage) :
    a.domain = b.domain ∧ (a.Fits → b.Fits → a.unnamed = b.unnamed) := by
  have domains := domain_eq_of_preimage_eq same
  refine ⟨domains, fun fitsA fitsB => ?_⟩
  -- Content of different kinds has different domains.
  cases a <;> cases b <;> simp [domain] at domains
  case transaction.transaction t u =>
    have contents : t = u := readable_transaction.eq_of_eq fitsA fitsB same
    rw [contents]
  case signing.signing c d c' d' =>
    have pairs := readable_signing.eq_of_eq (a := (c, d)) (b := (c', d')) fitsA fitsB same
    cases pairs
    rfl
  case header.header h k =>
    have headers := BlockHeader.eq_of_preimage_eq fitsA fitsB same
    rw [unnamed, headers]
    rfl
  case root.root xs ys =>
    have digests : xs = ys := readable_root.eq_of_eq fitsA fitsB same
    rw [digests]
  case genesisAccount.genesisAccount x y =>
    have accounts : x = y := readable_genesisAccount.eq_of_eq fitsA fitsB same
    rw [accounts]
  case genesis.genesis c d t c' d' t' =>
    have triples := readable_genesis.eq_of_eq (a := (c, d, t)) (b := (c', d', t')) fitsA fitsB same
    cases triples
    rfl

/-- Two headers that differ in their identifiers only are hashed as one string. -/
theorem unnamed_eq_of_preimage_eq_sample :
    let h : BlockHeader := ⟨.zero, .zero, 1, ⟨3⟩, "a", Bytes.zero 32⟩
    let k : BlockHeader := { h with id := ⟨Vector.replicate 32 1⟩ }
    h ≠ k ∧ (header h).preimage = (header k).preimage ∧
      (header h).unnamed = (header k).unnamed := by
  intro h k
  have same : (header h).preimage = (header k).preimage := rfl
  have fits : (header h).Fits ∧ (header k).Fits := by
    simp only [Fits, h, k]
    decide
  obtain ⟨-, told⟩ := unnamed_eq_of_preimage_eq (header h) (header k) same
  exact ⟨by decide, same, told fits.1 fits.2⟩

end Content

end ChainLab
