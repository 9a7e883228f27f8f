import ChainLab.Network.Group
import ChainLab.Proofs.LinkFeed

/-!
# Runs of a network

Whatever a network is told to do comes down to a few events: a node appears, a link is
made or removed, a round serves some links, a node takes a transaction or makes a
block. Operations are spelled out as the events they come down to. A watched run also
remembers what was held back whenever a link was made.
-/

namespace ChainLab

/-- What happens to a network, one thing at a time. -/
inductive Event where
  | addNode (name : NodeName)
  | link (a b : NodeName)
  | unlink (dropped : Edge → Bool)
  | serve (order : List Edge)
  | push (name : NodeName) (trx : SignedTransaction)
  | produce (name : NodeName)
  /-- A change of what no delivery depends on. -/
  | arrange (generator : Generator) (autoPropagate : Bool)
      (groups : Std.ExtTreeMap String (Std.ExtTreeSet NodeName))

/-- What a network can be told to do. -/
inductive Operation where
  | addNode (name : NodeName)
  | connect (a b : NodeName)
  | disconnect (a b : NodeName)
  | isolate (name : NodeName)
  | createGroup (group : String) (members : List NodeName)
  | joinGroup (group : String) (name : NodeName)
  | leaveGroup (group : String) (name : NodeName)
  | pushTransaction (name : NodeName) (trx : SignedTransaction)
  | produceBlock (name : NodeName)
  | step
  | propagate
  | setAutoPropagate (on : Bool)

namespace Network

theorem getElem?_filter_edges {links : Std.ExtTreeMap Edge Link} {kept : Edge → Bool} {e : Edge} :
    (links.filter fun x _ => kept x)[e]? = if kept e then links[e]? else none := by
  have plain : (links.filter fun x _ => kept x)[e]? = (links[e]?).filter fun _ => kept e := by
    simp
  rw [plain]
  cases links[e]? <;> simp [Option.filter]

/-- The nodes that are about to be linked, if they can be. -/
def linkable? (net : Network) (a b : NodeName) : Option (Node × Node) :=
  match net.nodes[a]?, net.nodes[b]? with
  | some na, some nb => if a = b || net.isConnected a b then none else some (na, nb)
  | _, _ => none

theorem linkable_eq_some {net : Network} {a b : NodeName} {na nb : Node} :
    net.linkable? a b = some (na, nb) ↔
      net.nodes[a]? = some na ∧ net.nodes[b]? = some nb ∧ a ≠ b ∧ Edge.between a b ∉ net.links := by
  unfold linkable?
  cases net.nodes[a]? with
  | none => simp
  | some _ =>
    cases net.nodes[b]? with
    | none => simp
    | some _ =>
      by_cases same : a = b
      · simp [same]
      · by_cases linked : Edge.between a b ∈ net.links <;> simp [same, linked, isConnected]

variable [Crypto]

def play (net : Network) : Event → Network
  | .addNode name => (net.addNode name).2
  | .link a b =>
    match net.linkable? a b with
    | none => net
    | some (na, nb) =>
      let e := Edge.between a b
      let link := (Link.empty.enqueue e a (na.missingFor nb)).enqueue e b (nb.missingFor na)
      { net with links := net.links.insert e link }
  | .unlink dropped => { net with links := net.links.filter fun e _ => !dropped e }
  | .serve order => (net.round order).2
  | .push name trx =>
    match net.nodes[name]? with
    | none => net
    | some n =>
      match n.pushTransaction trx with
      | (.error _, n) => net.setNode n name
      | (.ok _, n) => (net.setNode n name).announce name none (.transaction trx)
  | .produce name =>
    match net.nodes[name]? with
    | none => net
    | some n => (net.setNode n.produceBlock.2 name).announce name none (.block n.produceBlock.1)
  | .arrange generator autoPropagate groups => { net with generator, autoPropagate, groups }

def playAll (net : Network) (events : List Event) : Network := events.foldl play net

/-- The blocks made in a run. -/
def made (net : Network) : List Event → List Block
  | [] => []
  | event :: rest =>
    let blocks :=
      match event with
      | .produce name => (net.nodes[name]?).toList.map (·.produceBlock.1)
      | _ => []
    blocks ++ (net.play event).made rest

def perform (net : Network) : Operation → Network
  | .addNode name => (net.addNode name).2
  | .connect a b => (net.connect a b).2
  | .disconnect a b => (net.disconnect a b).2
  | .isolate name => (net.isolate name).2
  | .createGroup group members => (net.createGroup group members).2
  | .joinGroup group name => (net.joinGroup group name).2
  | .leaveGroup group name => (net.leaveGroup group name).2
  | .pushTransaction name trx => (net.pushTransaction name trx).2
  | .produceBlock name => (net.produceBlock name).2
  | .step => net.step.2
  | .propagate => net.propagate.2
  | .setAutoPropagate on => { net with autoPropagate := on }

def performAll (net : Network) (operations : List Operation) : Network :=
  operations.foldl perform net

end Network

/-- A network, and for every link the blocks its ends held back when it was made: those
off the current chain of the first node that the second did not know. -/
structure Watched where
  net : Network
  held : NodeName → NodeName → List BlockId

namespace Watched

variable [Crypto]

def play (w : Watched) (event : Event) : Watched where
  net := w.net.play event
  held :=
    match event with
    | .link a b =>
      match w.net.linkable? a b with
      | none => w.held
      | some (na, nb) => fun x y =>
        if x = a ∧ y = b then na.heldFrom nb
        else if x = b ∧ y = a then nb.heldFrom na
        else w.held x y
    | _ => w.held

def playAll (w : Watched) (events : List Event) : Watched := events.foldl play w

theorem net_playAll {w : Watched} {events : List Event} :
    (w.playAll events).net = w.net.playAll events := by
  induction events generalizing w with
  | nil => rfl
  | cons event rest ih => exact ih

end Watched

end ChainLab
