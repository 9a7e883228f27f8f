import ChainLab.Authority.Wire
import ChainLab.Config

/-!
# Parameters as JSON

A parameter record may leave out any field and takes the standard value then;
only the genesis account has to be complete.
-/

namespace ChainLab

namespace Amount

def toJson (amount : Amount) : Json := .natural amount.units.toNat

def ofJson? (json : Json) : Option Amount := json.word64?.map Amount.mk

end Amount

namespace Time

def toJson (t : Time) : Json := .natural t.ticks.toNat

def ofJson? (json : Json) : Option Time := json.word64?.map Time.mk

end Time

namespace GenesisAccount

def fieldNames : List String := ["name", "public_key", "balance"]

def toJson (account : GenesisAccount) : Json :=
  .record
    (fieldNames.zip
      [.text account.name, account.publicKey.toJson, account.balance.toJson])

def ofJson? (json : Json) : Option GenesisAccount := do
  let [name, publicKey, balance] ← json.record? fieldNames | none
  some ⟨← name.text?, ← PublicKey.ofJson? publicKey, ← Amount.ofJson? balance⟩

end GenesisAccount

namespace ProducerConfig

def fieldNames : List String := ["max_block_size", "target_block_size", "max_transaction_lifetime"]

def toJson (config : ProducerConfig) : Json :=
  .record
    (fieldNames.zip
      [.natural config.maxBlockSize.toNat,
       .natural config.targetBlockSize.toNat,
       .natural config.maxTransactionLifetime.toNat])

def ofJson? (json : Json) : Option ProducerConfig := do
  let [maxSize, targetSize, lifetime] ← json.fields? true fieldNames | none
  some
    { maxBlockSize := ← Fields.defaulted? standard.maxBlockSize Json.word32? maxSize
      targetBlockSize := ← Fields.defaulted? standard.targetBlockSize Json.word32? targetSize
      maxTransactionLifetime :=
        ← Fields.defaulted? standard.maxTransactionLifetime Json.word32? lifetime }

end ProducerConfig

namespace ChainConfig

def fieldNames : List String :=
  ["native_contract", "genesis_time", "genesis_account", "block_interval",
   "default_expiration_offset", "reference_block_window", "unstake_delay",
   "default_producer_config"]

def toJson (config : ChainConfig) : Json :=
  .record
    (fieldNames.zip
      [.text config.nativeContract,
       config.genesisTime.toJson,
       config.genesisAccount.toJson,
       .natural config.blockInterval.toNat,
       .natural config.defaultExpirationOffset.toNat,
       .natural config.referenceBlockWindow.toNat,
       .natural config.unstakeDelay.toNat,
       config.defaultProducerConfig.toJson])

def ofJson? [Crypto] (json : Json) : Option ChainConfig := do
  let [contract, time, account, interval, offset, window, delay, producer] ←
    json.fields? true fieldNames | none
  some
    { nativeContract := ← Fields.defaulted? standard.nativeContract Json.text? contract
      genesisTime := ← Fields.defaulted? standard.genesisTime Time.ofJson? time
      genesisAccount := ← Fields.defaulted? standard.genesisAccount GenesisAccount.ofJson? account
      blockInterval := ← Fields.defaulted? standard.blockInterval Json.word64? interval
      defaultExpirationOffset :=
        ← Fields.defaulted? standard.defaultExpirationOffset Json.word64? offset
      referenceBlockWindow := ← Fields.defaulted? standard.referenceBlockWindow Json.word32? window
      unstakeDelay := ← Fields.defaulted? standard.unstakeDelay Json.word64? delay
      defaultProducerConfig :=
        ← Fields.defaulted? standard.defaultProducerConfig ProducerConfig.ofJson? producer }

end ChainConfig

namespace ScenarioConfig

def fieldNames : List String :=
  ["seed", "auto_propagate", "chain_id", "default_deposit", "chain"]

def toJson (config : ScenarioConfig) : Json :=
  .record
    (fieldNames.zip
      [.ofOption (fun seed => .natural seed.toNat) config.seed,
       .bool config.autoPropagate,
       .text config.chainName,
       config.defaultDeposit.toJson,
       config.chain.toJson])

def ofJson? [Crypto] (json : Json) : Option ScenarioConfig := do
  let [seed, auto, name, deposit, chain] ← json.fields? true fieldNames | none
  some
    { seed := ← Json.optional? Json.word64? seed
      autoPropagate := ← Fields.defaulted? standard.autoPropagate Json.bool? auto
      chainName := ← Fields.defaulted? standard.chainName Json.text? name
      defaultDeposit := ← Fields.defaulted? standard.defaultDeposit Amount.ofJson? deposit
      chain := ← Fields.defaulted? standard.chain ChainConfig.ofJson? chain }

end ScenarioConfig

end ChainLab
