import ChainLab.Scenario

/-!
# A bench for experiments

A scenario with further nodes that stand alone, and named places for
transactions and blocks made by hand, so that forged, stale or foreign items can
be handed to any node. Nothing done to a node here is announced to its peers.
-/

namespace ChainLab

structure Bench where
  scenario : Scenario
  /-- Nodes outside of the network; their names hide the network's. -/
  standalone : Std.ExtTreeMap NodeName Node
  transactions : Std.ExtTreeMap String SignedTransaction
  blocks : Std.ExtTreeMap String Block

/-- What a hand-made transaction has otherwise than a draft on the head. -/
structure Amendment where
  expiration : Option Time
  refBlockNum : Option UInt32
  refBlockTag : Option UInt32
  /-- The name of the chain that is signed for. -/
  chainName : Option String

/-- Changes to a block that leave its other fields as they are. -/
structure Tampering where
  num : Option UInt32
  time : Option Time
  producer : Option NodeName
  id : Option BlockId
  previous : Option BlockId
  root : Option Digest
  /-- The position of a transaction to leave out. -/
  drop : Option Nat
  reverse : Bool

namespace Tampering

def apply (change : Tampering) (b : Block) : Block :=
  let h := b.header
  let kept := match change.drop with
    | some i => b.transactions.eraseIdx i
    | none => b.transactions
  { header :=
      { id := change.id.getD h.id
        previous := change.previous.getD h.previous
        num := change.num.getD h.num
        time := change.time.getD h.time
        producer := change.producer.getD h.producer
        root := change.root.getD h.root }
    transactions := if change.reverse then kept.reverse else kept }

end Tampering

namespace Bench

def make (scenario : Scenario) : Bench := ⟨scenario, ∅, ∅, ∅⟩

/-- Nodes that stand alone come first. -/
def node (bench : Bench) (name : NodeName) : Except NetworkError Node :=
  match bench.standalone[name]? with
  | some n => .ok n
  | none => bench.scenario.network.node name

def setNode (bench : Bench) (name : NodeName) (n : Node) : Bench :=
  if name ∈ bench.standalone then { bench with standalone := bench.standalone.insert name n }
  else
    { bench with
      scenario := { bench.scenario with network := bench.scenario.network.setNode n name } }

/-- All nodes: those of the network in name order, then those that stand alone. -/
def nodes (bench : Bench) : List Node :=
  (bench.scenario.network.nodes.toList ++ bench.standalone.toList).map (·.2)

/-- Do something to a node that may be refused by its chain. -/
def onNode {α : Type} (bench : Bench) (name : NodeName)
    (operate : Node → Except ChainError α × Node) : Except NetworkError α × Bench :=
  match bench.node name with
  | .error error => (.error error, bench)
  | .ok n =>
    let (result, n) := operate n
    (result.mapError .chain, bench.setNode name n)

variable [Crypto]

def spawn (bench : Bench) (name : NodeName) (chainName : String) (config : ChainConfig) : Bench :=
  { bench with standalone := bench.standalone.insert name (Node.make name chainName config) }

/-- Draft a transaction on a node's head and sign it with the named keys. -/
def draft (n : Node) (messages : List Message) (lifetime : Option UInt64) (keys : List String) :
    SignedTransaction :=
  SignedTransaction.sign n.rules.chainId (keys.map KeyPair.ofName)
    (n.draft (lifetime.getD n.defaultLifetime) messages)

/-- Draft a transaction, amend it, sign it for the chain asked for, and keep it. -/
def build (bench : Bench) (name : NodeName) (place : String) (messages : List Message)
    (lifetime : Option UInt64) (amendment : Amendment) (keys : List String) :
    Except NetworkError SignedTransaction × Bench :=
  match bench.node name with
  | .error error => (.error error, bench)
  | .ok n =>
    let t := n.draft (lifetime.getD n.defaultLifetime) messages
    let t :=
      { t with
        expiration := amendment.expiration.getD t.expiration
        refBlockNum := amendment.refBlockNum.getD t.refBlockNum
        refBlockTag := amendment.refBlockTag.getD t.refBlockTag }
    let chainId := match amendment.chainName with
      | some chain => Crypto.hash chain.toUTF8.toList
      | none => n.rules.chainId
    let trx := SignedTransaction.sign chainId (keys.map KeyPair.ofName) t
    (.ok trx, { bench with transactions := bench.transactions.insert place trx })

def nodePush (bench : Bench) (name : NodeName) (trx : SignedTransaction) :
    Except NetworkError Digest × Bench :=
  bench.onNode name fun n => n.pushTransaction trx

/-- Draft, sign and push in one go. -/
def nodeSubmit (bench : Bench) (name : NodeName) (messages : List Message)
    (lifetime : Option UInt64) (keys : List String) : Except NetworkError Digest × Bench :=
  bench.onNode name fun n => n.pushTransaction (draft n messages lifetime keys)

def nodeProduce (bench : Bench) (name : NodeName) : Except NetworkError BlockId × Bench :=
  bench.onNode name fun n =>
    let (b, n) := n.produceBlock
    (.ok b.id, n)

def nodeApply (bench : Bench) (name : NodeName) (b : Block) :
    Except NetworkError BlockOutcome × Bench :=
  bench.onNode name fun n => n.applyBlock b

/-- Hand over blocks one after the other and collect what became of each. -/
def applyAll (n : Node) : List Block → List (Except ChainError BlockOutcome) × Node
  | [] => ([], n)
  | b :: rest =>
    let (result, n) := n.applyBlock b
    let (results, n) := applyAll n rest
    (result :: results, n)

/-- Hand all blocks of one node's current chain to another node. -/
def sync (bench : Bench) (source target : NodeName) :
    Except NetworkError (List (Except ChainError BlockOutcome)) × Bench :=
  match bench.node source with
  | .error error => (.error error, bench)
  | .ok n =>
    bench.onNode target fun peer =>
      let (results, peer) := applyAll peer n.chainBlocks
      (.ok results, peer)

omit [Crypto] in
/-- Keep a block of a node's current chain. -/
def takeBlock (bench : Bench) (place : String) (b : Block) : Bench :=
  { bench with blocks := bench.blocks.insert place b }

end Bench

end ChainLab
