import ChainLab.Network.Group

/-!
# Scenarios

A network together with the keys to sign for it. Each helper builds exactly one
transaction with one message, signs it with every key made so far, and submits
it; which signatures matter is decided by the node.
-/

namespace ChainLab

structure Scenario where
  network : Network
  keys : KeyRing
  config : ScenarioConfig

/-- What may be chosen for a new account; the rest has defaults. -/
structure AccountOptions where
  /-- Defaults to the genesis account. -/
  creator : Option AccountName
  /-- Defaults to the scenario's deposit. -/
  deposit : Option Amount
  /-- Defaults to the key named after the account. -/
  owner : Option Authority
  /-- Defaults like `owner`. -/
  active : Option Authority
  /-- Defaults to the creator's active permission. -/
  recovery : Option Authority

namespace Scenario

variable [Crypto]

/-- An empty network; the key of the genesis account is there. -/
def make (config : ScenarioConfig) (seed : BitVec 128) : Scenario where
  network := Network.make config seed
  keys := (KeyRing.empty.make config.chain.genesisAccount.name).2
  config := config

omit [Crypto] in
/-- Carry the outcome of a network operation over to the scenario. -/
def lift {α : Type} (sc : Scenario) (result : Except NetworkError α × Network) :
    Except NetworkError α × Scenario :=
  (result.1, { sc with network := result.2 })

def makeKey (sc : Scenario) (name : String) : KeyPair × Scenario :=
  let (key, keys) := sc.keys.make name
  (key, { sc with keys })

/-- Add nodes up to the first that cannot be added. -/
def makeNodes (sc : Scenario) : List NodeName → Except NetworkError Unit × Scenario
  | [] => (.ok (), sc)
  | name :: rest =>
    match sc.lift (sc.network.addNode name) with
    | (.error error, sc) => (.error error, sc)
    | (.ok (), sc) => sc.makeNodes rest

def push (sc : Scenario) (node : NodeName) (trx : SignedTransaction) :
    Except NetworkError Digest × Scenario :=
  sc.lift (sc.network.pushTransaction node trx)

def produceBlock (sc : Scenario) (node : NodeName) : Except NetworkError BlockId × Scenario :=
  sc.lift (sc.network.produceBlock node)

/-- Produce blocks in a row, and tell the head in the end. -/
def produceBlocks (sc : Scenario) (node : NodeName) :
    (count : Nat) → Except NetworkError BlockId × Scenario
  | 0 => ((sc.network.node node).map Node.headId, sc)
  | count + 1 =>
    match sc.produceBlock node with
    | (.error error, sc) => (.error error, sc)
    | (.ok _, sc) => sc.produceBlocks node count

/-- Send an action to the native contract with one declared level. -/
def submit (sc : Scenario) (node : NodeName) (level : Level) (action : Action) :
    Except NetworkError Digest × Scenario :=
  match sc.network.node node with
  | .error error => (.error error, sc)
  | .ok n =>
    let m := action.toMessage n.rules.config.nativeContract (Std.ExtTreeSet.ofList [level])
    let t := n.draft n.defaultLifetime [m]
    sc.push node (SignedTransaction.sign n.rules.chainId sc.keys.toList t)

/-- The owner and active authority of a new account, with the key made for them if
one of them was left open. -/
def accountKeys (sc : Scenario) (name : AccountName) (options : AccountOptions) :
    Authority × Authority × Option KeyPair × Scenario :=
  match options.owner, options.active with
  | some owner, some active => (owner, active, none, sc)
  | owner, active =>
    let (key, sc) := sc.makeKey name
    let generated := Authority.ofKey key.publicKey
    (owner.getD generated, active.getD generated, some key, sc)

/-- Create an account, and tell the key generated for it, if any. -/
def createAccount (sc : Scenario) (node : NodeName) (name : AccountName)
    (options : AccountOptions) : Except NetworkError (Option KeyPair) × Scenario :=
  match sc.network.node node with
  | .error error => (.error error, sc)
  | .ok n =>
    let creator := options.creator.getD n.rules.config.genesisAccount.name
    let deposit := options.deposit.getD sc.config.defaultDeposit
    let (owner, active, key, sc) := sc.accountKeys name options
    let recovery := options.recovery.getD (Authority.ofAccount creator)
    let (result, sc) := sc.submit node (Level.active creator)
      (.newAccount creator name owner active recovery deposit)
    (result.map fun _ => key, sc)

omit [Crypto] in
/-- A producer's configuration: the one given or the node's default. -/
def producerConfig (sc : Scenario) (node : NodeName) (config : Option ProducerConfig) :
    Except NetworkError ProducerConfig :=
  match config with
  | some config => .ok config
  | none => (sc.network.node node).map (·.rules.config.defaultProducerConfig)

/-- Register a producer, and tell the signing key generated for it, if any. -/
def registerProducer (sc : Scenario) (node : NodeName) (owner : AccountName)
    (signingKey : Option PublicKey) (config : Option ProducerConfig) :
    Except NetworkError (Option KeyPair) × Scenario :=
  match sc.producerConfig node config with
  | .error error => (.error error, sc)
  | .ok config =>
    let (key, generated, sc) :=
      match signingKey with
      | some key => (key, none, sc)
      | none =>
        let (key, sc) := sc.makeKey (owner ++ "_producer")
        (key.publicKey, some key, sc)
    let (result, sc) := sc.submit node (Level.active owner) (.setProducer owner key config)
    (result.map fun _ => generated, sc)

def updateProducer (sc : Scenario) (node : NodeName) (owner : AccountName)
    (signingKey : PublicKey) (config : Option ProducerConfig) :
    Except NetworkError Digest × Scenario :=
  match sc.producerConfig node config with
  | .error error => (.error error, sc)
  | .ok config => sc.submit node (Level.active owner) (.updateProducer owner signingKey config)

def approveProducer (sc : Scenario) (node : NodeName) (voter producer : AccountName)
    (approve : Bool) : Except NetworkError Digest × Scenario :=
  sc.submit node (Level.active voter) (.approveProducer voter producer approve)

def transfer (sc : Scenario) (node : NodeName) (sender recipient : AccountName) (amount : Amount)
    (memo : String) : Except NetworkError Digest × Scenario :=
  sc.submit node (Level.active sender) (.transfer sender recipient amount memo)

/-- Stake funds of one account to another, by default to itself. -/
def stake (sc : Scenario) (node : NodeName) (sender : AccountName)
    (recipient : Option AccountName) (amount : Amount) : Except NetworkError Digest × Scenario :=
  sc.submit node (Level.active sender) (.lock sender (recipient.getD sender) amount)

def beginUnstake (sc : Scenario) (node : NodeName) (account : AccountName) (amount : Amount) :
    Except NetworkError Digest × Scenario :=
  sc.submit node (Level.active account) (.unlock account amount)

def finishUnstake (sc : Scenario) (node : NodeName) (account : AccountName) (amount : Amount) :
    Except NetworkError Digest × Scenario :=
  sc.submit node (Level.active account) (.claim account amount)

def setProxy (sc : Scenario) (node : NodeName) (stakeholder proxy : AccountName) :
    Except NetworkError Digest × Scenario :=
  sc.submit node (Level.active stakeholder) (.setProxy stakeholder proxy)

/-- Create or replace a permission under a parent. -/
def setAuthority (sc : Scenario) (node : NodeName) (account : AccountName)
    (permission parent : PermissionName) (authority : Authority) :
    Except NetworkError Digest × Scenario :=
  sc.submit node (Level.owner account) (.updateAuthority account permission parent authority)

def deleteAuthority (sc : Scenario) (node : NodeName) (account : AccountName)
    (permission : PermissionName) : Except NetworkError Digest × Scenario :=
  sc.submit node (Level.owner account) (.deleteAuthority account permission)

def linkAuthority (sc : Scenario) (node : NodeName) (account : AccountName)
    (permission : PermissionName) (contract : AccountName) (messageType : Option String) :
    Except NetworkError Digest × Scenario :=
  sc.submit node (Level.owner account) (.linkAuthority account contract messageType permission)

def unlinkAuthority (sc : Scenario) (node : NodeName) (account contract : AccountName)
    (messageType : Option String) : Except NetworkError Digest × Scenario :=
  sc.submit node (Level.owner account) (.unlinkAuthority account contract messageType)

def setCode (sc : Scenario) (node : NodeName) (account : AccountName) (code : List UInt8) :
    Except NetworkError Digest × Scenario :=
  sc.submit node (Level.active account) (.setCode account code)

end Scenario

end ChainLab
