import ChainLab.Network.Link
import ChainLab.Random

/-!
# Networks of nodes

What a node accepts is queued on all of its links. A round delivers everything
queued when it begins, link by link in some order; items a node accepts are
queued onward to its other peers, so data floods across many hops.
-/

namespace ChainLab

structure Network where
  seed : BitVec 128
  /-- Draws the order in which a round services the links. -/
  generator : Generator
  /-- Whether every change is propagated until the network is quiet. -/
  autoPropagate : Bool
  /-- The chain of nodes that are not told another one. -/
  chainName : String
  config : ChainConfig
  nodes : Std.ExtTreeMap NodeName Node
  links : Std.ExtTreeMap Edge Link
  groups : Std.ExtTreeMap String (Std.ExtTreeSet NodeName)

inductive NetworkError where
  | unknownNode (name : NodeName)
  | duplicateNode (name : NodeName)
  | selfLink (name : NodeName)
  | alreadyLinked (edge : Edge)
  | notLinked (edge : Edge)
  | unknownGroup (name : String)
  | duplicateGroup (name : String)
  | chain (error : ChainError)
  deriving DecidableEq

namespace NetworkError

def kind : NetworkError → String
  | unknownNode .. => "UnknownNode"
  | duplicateNode .. => "DuplicateNode"
  | selfLink .. => "SelfLink"
  | alreadyLinked .. => "LinkAlreadyExists"
  | notLinked .. => "LinkNotFound"
  | unknownGroup .. => "UnknownGroup"
  | duplicateGroup .. => "DuplicateGroup"
  | chain error => error.kind

def message : NetworkError → String
  | unknownNode name => s!"unknown node {name}"
  | duplicateNode name => s!"node {name} already exists"
  | selfLink name => s!"node {name} cannot be linked to itself"
  | alreadyLinked ⟨lo, hi⟩ => s!"{lo} and {hi} are already linked"
  | notLinked ⟨lo, hi⟩ => s!"{lo} and {hi} are not linked"
  | unknownGroup name => s!"unknown group {name}"
  | duplicateGroup name => s!"group {name} already exists"
  | chain error => error.message

end NetworkError

namespace Network

def make (config : ScenarioConfig) (seed : BitVec 128) : Network where
  seed := seed
  generator := Generator.ofSeed seed
  autoPropagate := config.autoPropagate
  chainName := config.chainName
  config := config.chain
  nodes := ∅
  links := ∅
  groups := ∅

def node (net : Network) (name : NodeName) : Except NetworkError Node :=
  match net.nodes[name]? with
  | some n => .ok n
  | none => .error (.unknownNode name)

def setNode (net : Network) (n : Node) (name : NodeName) : Network :=
  { net with nodes := net.nodes.insert name n }

def isConnected (net : Network) (a b : NodeName) : Bool := net.links.contains (Edge.between a b)

/-- Deliveries waiting on all links. -/
def queued (net : Network) : Nat := total (fun (_, link) => link.size) net.links.toList

/-- The links with something to deliver, in the order of their names. -/
def busy (net : Network) : List Edge :=
  (net.links.toList.filter fun (_, link) => 0 < link.size).map (·.1)

/-- Queue an item on every link of `sender` except the one towards `skip`. -/
def announce (net : Network) (sender : NodeName) (skip : Option NodeName) (item : Delivery) :
    Network :=
  { net with
    links := net.links.map fun e link =>
      match e.peer? sender with
      | none => link
      | some peer => if some peer = skip then link else link.enqueue e sender [item] }

/-- Empty the queues of the given links, in their order. -/
def collect (links : Std.ExtTreeMap Edge Link) :
    List Edge → List Parcel × Std.ExtTreeMap Edge Link
  | [] => ([], links)
  | e :: rest =>
    match links[e]? with
    | none => collect links rest
    | some link =>
      let (parcels, links) := collect (links.insert e Link.empty) rest
      (link.parcels e ++ parcels, links)

variable [Crypto]

/-- Hand an item to its receiver, which passes it on if it is new there. -/
def deliver (net : Network) (parcel : Parcel) : Network :=
  match net.nodes[parcel.receiver]? with
  | none => net
  | some n =>
    let (accepted, n) := n.receive parcel.item
    let net := net.setNode n parcel.receiver
    if accepted then net.announce parcel.receiver (some parcel.sender) parcel.item else net

/-- One round with the links serviced in the given order. -/
def round (order : List Edge) (net : Network) : Nat × Network :=
  let (parcels, links) := collect net.links order
  (parcels.length, parcels.foldl deliver { net with links })

/-- One round in an order drawn at random, and the number of deliveries made. -/
def step (net : Network) : Nat × Network :=
  let (order, generator) := net.generator.shuffle net.busy
  round order { net with generator }

/-- At most `fuel` rounds, up to the first that delivers nothing. -/
def settle : (fuel : Nat) → Network → Nat × Network
  | 0, net => (0, net)
  | fuel + 1, net =>
    let (delivered, net) := net.step
    if delivered = 0 then (0, net)
    else
      let (more, net) := settle fuel net
      (delivered + more, net)

/-- More rounds than can deliver anything. A node accepts a block once, and a
transaction once between two blocks; each acceptance queues at most one item per link. -/
def enoughRounds (net : Network) : Nat :=
  let items := net.queued
  items + net.links.size * net.nodes.size * (items + items * (items + 1)) + 1

/-- Rounds until nothing is queued, and the number of deliveries made. -/
def propagate (net : Network) : Nat × Network := net.settle net.enoughRounds

def afterChange (net : Network) : Network :=
  if net.autoPropagate then net.propagate.2 else net

/-- Add a node on a chain of its own choice. -/
def addNodeOn (net : Network) (name : NodeName) (chainName : String) :
    Except NetworkError Unit × Network :=
  if name ∈ net.nodes then (.error (.duplicateNode name), net)
  else (.ok (), net.setNode (Node.make name chainName net.config) name)

def addNode (net : Network) (name : NodeName) : Except NetworkError Unit × Network :=
  net.addNodeOn name net.chainName

/-- Link two nodes, queue on each side what the other one lacks, and run a round. -/
def connect (net : Network) (a b : NodeName) : Except NetworkError Unit × Network :=
  match net.node a, net.node b with
  | .error error, _ => (.error error, net)
  | .ok _, .error error => (.error error, net)
  | .ok na, .ok nb =>
    let e := Edge.between a b
    if a = b then (.error (.selfLink a), net)
    else if e ∈ net.links then (.error (.alreadyLinked e), net)
    else
      let link := (Link.empty.enqueue e a (na.missingFor nb)).enqueue e b (nb.missingFor na)
      let net := { net with links := net.links.insert e link }
      (.ok (), net.step.2.afterChange)

/-- Remove a link together with what is queued on it. -/
def disconnect (net : Network) (a b : NodeName) : Except NetworkError Unit × Network :=
  match net.node a, net.node b with
  | .error error, _ => (.error error, net)
  | .ok _, .error error => (.error error, net)
  | .ok _, .ok _ =>
    let e := Edge.between a b
    if e ∈ net.links then (.ok (), { net with links := net.links.erase e })
    else (.error (.notLinked e), net)

/-- Remove every link of a node, and tell how many there were. -/
def isolate (net : Network) (name : NodeName) : Except NetworkError Nat × Network :=
  match net.node name with
  | .error error => (.error error, net)
  | .ok _ =>
    let links := net.links.filter fun e _ => !e.touches name
    (.ok (net.links.size - links.size), { net with links })

/-- Push a transaction into a node and announce it. -/
def pushTransaction (net : Network) (name : NodeName) (trx : SignedTransaction) :
    Except NetworkError Digest × Network :=
  match net.node name with
  | .error error => (.error error, net)
  | .ok n =>
    match n.pushTransaction trx with
    | (.error error, n) => (.error (.chain error), net.setNode n name)
    | (.ok digest, n) =>
      (.ok digest, ((net.setNode n name).announce name none (.transaction trx)).afterChange)

/-- Produce a block on a node and announce it. -/
def produceBlock (net : Network) (name : NodeName) : Except NetworkError BlockId × Network :=
  match net.node name with
  | .error error => (.error error, net)
  | .ok n =>
    let (b, n) := n.produceBlock
    (.ok b.id, ((net.setNode n name).announce name none (.block b)).afterChange)

end Network

end ChainLab
