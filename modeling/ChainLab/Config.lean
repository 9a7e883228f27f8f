import ChainLab.Key
import ChainLab.Level
import ChainLab.Quantity

/-!
# Parameters of chains and scenarios
-/

namespace ChainLab

/-- The account that exists at genesis and funds new accounts by default. -/
structure GenesisAccount where
  name : AccountName
  publicKey : PublicKey
  balance : Amount
  deriving DecidableEq

/-- A producer's vote for chain parameters. -/
structure ProducerConfig where
  maxBlockSize : UInt32
  targetBlockSize : UInt32
  maxTransactionLifetime : UInt32
  deriving DecidableEq

structure ChainConfig where
  /-- The contract that understands the system actions. -/
  nativeContract : AccountName
  genesisTime : Time
  genesisAccount : GenesisAccount
  /-- Time units between consecutive blocks. -/
  blockInterval : UInt64
  defaultExpirationOffset : UInt64
  /-- How many blocks behind the head a reference block may be. -/
  referenceBlockWindow : UInt32
  /-- Time units between an unlock and the matching claim. -/
  unstakeDelay : UInt64
  defaultProducerConfig : ProducerConfig
  deriving DecidableEq

structure ScenarioConfig where
  /-- Seed of the order in which links are serviced. -/
  seed : Option UInt64
  /-- Whether every change propagates until the network is quiet. -/
  autoPropagate : Bool
  chainName : String
  /-- What a new account receives unless it is said otherwise. -/
  defaultDeposit : Amount
  chain : ChainConfig
  deriving DecidableEq

def ProducerConfig.standard : ProducerConfig :=
  { maxBlockSize := 1048576, targetBlockSize := 524288, maxTransactionLifetime := 3600 }

variable [Crypto]

def GenesisAccount.standard : GenesisAccount :=
  { name := "init0", publicKey := (KeyPair.ofName "init0").publicKey, balance := ⟨1000000⟩ }

def ChainConfig.standard : ChainConfig where
  nativeContract := "eos"
  genesisTime := .zero
  genesisAccount := .standard
  blockInterval := 3
  defaultExpirationOffset := 100
  referenceBlockWindow := 16
  unstakeDelay := 300
  defaultProducerConfig := .standard

def ScenarioConfig.standard : ScenarioConfig where
  seed := none
  autoPropagate := true
  chainName := "authsim-test"
  defaultDeposit := ⟨100⟩
  chain := .standard

end ChainLab
