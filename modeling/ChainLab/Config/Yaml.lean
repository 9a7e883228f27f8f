import ChainLab.Config.Wire
import ChainLab.Yaml.Record

/-!
# Parameters as YAML

The fields and their standard values are those of the JSON form.
-/

namespace ChainLab

def Amount.ofYaml? (value : Yaml) : Option Amount := value.word64?.map Amount.mk

def Time.ofYaml? (value : Yaml) : Option Time := value.word64?.map Time.mk

def PublicKey.ofYaml? (value : Yaml) : Option PublicKey :=
  value.text?.bind fun text => (ofHex text).toOption

def GenesisAccount.ofYaml? (value : Yaml) : Option GenesisAccount := do
  let [name, publicKey, balance] ← value.record? fieldNames | none
  some ⟨← name.text?, ← PublicKey.ofYaml? publicKey, ← Amount.ofYaml? balance⟩

namespace ProducerConfig

def ofYaml? (value : Yaml) : Option ProducerConfig := do
  let [maxSize, targetSize, lifetime] ← value.fields? fieldNames | none
  some
    { maxBlockSize := ← Fields.defaulted? standard.maxBlockSize Yaml.word32? maxSize
      targetBlockSize := ← Fields.defaulted? standard.targetBlockSize Yaml.word32? targetSize
      maxTransactionLifetime :=
        ← Fields.defaulted? standard.maxTransactionLifetime Yaml.word32? lifetime }

end ProducerConfig

namespace ChainConfig

def ofYaml? [Crypto] (value : Yaml) : Option ChainConfig := do
  let [contract, time, account, interval, offset, window, delay, producer] ←
    value.fields? fieldNames | none
  some
    { nativeContract := ← Fields.defaulted? standard.nativeContract Yaml.text? contract
      genesisTime := ← Fields.defaulted? standard.genesisTime Time.ofYaml? time
      genesisAccount := ← Fields.defaulted? standard.genesisAccount GenesisAccount.ofYaml? account
      blockInterval := ← Fields.defaulted? standard.blockInterval Yaml.word64? interval
      defaultExpirationOffset :=
        ← Fields.defaulted? standard.defaultExpirationOffset Yaml.word64? offset
      referenceBlockWindow := ← Fields.defaulted? standard.referenceBlockWindow Yaml.word32? window
      unstakeDelay := ← Fields.defaulted? standard.unstakeDelay Yaml.word64? delay
      defaultProducerConfig :=
        ← Fields.defaulted? standard.defaultProducerConfig ProducerConfig.ofYaml? producer }

end ChainConfig

namespace ScenarioConfig

def ofYaml? [Crypto] (value : Yaml) : Option ScenarioConfig := do
  let [seed, auto, name, deposit, chain] ← value.fields? fieldNames | none
  some
    { seed := ← Yaml.optional? Yaml.word64? seed
      autoPropagate := ← Fields.defaulted? standard.autoPropagate Yaml.bool? auto
      chainName := ← Fields.defaulted? standard.chainName Yaml.text? name
      defaultDeposit := ← Fields.defaulted? standard.defaultDeposit Amount.ofYaml? deposit
      chain := ← Fields.defaulted? standard.chain ChainConfig.ofYaml? chain }

/-- The configuration that a YAML text spells. -/
def ofYamlText? [Crypto] (text : String) : Option ScenarioConfig := (Yaml.parse? text).bind ofYaml?

end ScenarioConfig

end ChainLab
