import ChainLab.Action
import ChainLab.Authority.Evaluation
import ChainLab.Chain.Account
import ChainLab.Chain.Error

/-!
# The state of a chain

Accounts and producers after some block, the identifiers of the chain's blocks
by number, and the digests of the transactions applied so far.
-/

namespace ChainLab

/-- What a chain is played by: its identifier and its parameters. -/
structure Rules where
  chainId : Digest
  config : ChainConfig
  deriving DecidableEq

structure ChainState where
  accounts : Std.ExtTreeMap AccountName Account
  producers : Std.ExtTreeMap AccountName Producer
  head : BlockHeader
  /-- Identifiers of this chain's blocks by number. -/
  chain : Array BlockId
  applied : Std.ExtTreeSet Digest
  deriving DecidableEq

namespace ChainState

def account? (s : ChainState) (name : AccountName) : Option Account := s.accounts[name]?

def producer? (s : ChainState) (name : AccountName) : Option Producer := s.producers[name]?

def blockId? (s : ChainState) (num : Nat) : Option BlockId := s.chain[num]?

def hasApplied (s : ChainState) (digest : Digest) : Bool := s.applied.contains digest

/-- The stake of all accounts that approve a producer. -/
def producerVotes (s : ChainState) (producer : AccountName) : Nat :=
  total (fun (_, a) => a.staked.units.toNat)
    (s.accounts.toList.filter fun (_, a) => a.approvedProducers.contains producer)

/-- The authority behind a level. -/
def authority? (s : ChainState) (level : Level) : Option Authority :=
  (s.account? level.actor).bind (·.authority? level.permission)

def levels (s : ChainState) : List Level :=
  s.accounts.toList.flatMap fun (name, a) => a.permissions.keys.map (Level.mk name)

/-- The permissions of all accounts as a graph of delegations. -/
def resolver (s : ChainState) : Resolver where
  find? := s.authority?
  levels := s.levels
  mem_levels {level authority} h := by
    simp only [authority?, Option.bind_eq_some_iff, account?, Account.authority?,
      Option.map_eq_some_iff] at h
    obtain ⟨a, ha, p, hp, -⟩ := h
    refine List.mem_flatMap.mpr ⟨(level.actor, a), ?_, List.mem_map.mpr ⟨level.permission, ?_, rfl⟩⟩
    · exact Std.ExtTreeMap.mem_toList_iff_getElem?_eq_some.mpr ha
    · rw [Std.ExtTreeMap.mem_keys]
      exact Std.ExtTreeMap.mem_iff_isSome_getElem?.mpr (by simp [hp])

/-- What the genesis block commits to. -/
def genesisPreimage (genesis : GenesisAccount) : List UInt8 :=
  ChainLab.preimage "authsim/genesis-state"
    [framedText genesis.name, framedDigest genesis.publicKey.bytes, word64 genesis.balance.units]

/-- The state before any block: one account owned by one key. -/
def genesis [Crypto] (rules : Rules) : ChainState :=
  let account := rules.config.genesisAccount
  let head := BlockHeader.genesis rules.chainId (Crypto.hash (genesisPreimage account))
    rules.config.genesisTime
  let authority := Authority.ofKey account.publicKey
  { accounts :=
      (∅ : Std.ExtTreeMap AccountName Account).insert account.name
        (Account.make account.name authority authority account.balance)
    producers := ∅
    head := head
    chain := #[head.id]
    applied := ∅ }

/-- Make a block the head without looking at it. -/
def advance (s : ChainState) (header : BlockHeader) : ChainState :=
  { s with head := header, chain := s.chain.push header.id }

def requireAccount (s : ChainState) (name : AccountName) : Except ChainError Account :=
  match s.account? name with
  | some a => .ok a
  | none => .error (.unknownAccount name)

def setAccount (s : ChainState) (name : AccountName) (a : Account) : ChainState :=
  { s with accounts := s.accounts.insert name a }

/-- Change an account that has to exist. -/
def updateAccount (s : ChainState) (name : AccountName)
    (change : Account → Except ChainError Account) : Except ChainError ChainState := do
  let a ← s.requireAccount name
  return s.setAccount name (← change a)

end ChainState

end ChainLab
