import ChainLab.Node

/-!
# Links between nodes

A link joins two different nodes and carries one queue in each direction. Its
ends are told apart by the order of their names.
-/

namespace ChainLab

/-- Two node names, the lesser first. -/
structure Edge where
  lo : NodeName
  hi : NodeName
  deriving DecidableEq

namespace Edge

instance : Ord Edge := ⟨compareLex (compareOn lo) (compareOn hi)⟩

instance : Std.TransOrd Edge :=
  inferInstanceAs (Std.TransCmp (compareLex (compareOn lo) (compareOn hi)))

instance : Std.LawfulEqOrd Edge where
  eq_of_compare {a b} h := by
    obtain ⟨hlo, hhi⟩ := compareLex_eq_eq.mp h
    have los : a.lo = b.lo := Std.LawfulEqOrd.eq_of_compare hlo
    have his : a.hi = b.hi := Std.LawfulEqOrd.eq_of_compare hhi
    cases a; cases b
    cases los; cases his
    rfl

/-- The edge between two nodes, whichever is named first. -/
def between (a b : NodeName) : Edge := if b < a then ⟨b, a⟩ else ⟨a, b⟩

def touches (e : Edge) (node : NodeName) : Bool := e.lo = node || e.hi = node

/-- The other end of an edge seen from one of its ends. -/
def peer? (e : Edge) (node : NodeName) : Option NodeName :=
  if e.lo = node then some e.hi else if e.hi = node then some e.lo else none

end Edge

/-- An item on its way over a link. -/
inductive Delivery where
  | block (b : Block)
  | transaction (trx : SignedTransaction)

/-- The queues of one link, the oldest item first. -/
structure Link where
  forward : List Delivery
  backward : List Delivery

namespace Link

def empty : Link := ⟨[], []⟩

def size (link : Link) : Nat := link.forward.length + link.backward.length

/-- Queue items that leave from one end of the edge. -/
def enqueue (e : Edge) (sender : NodeName) (items : List Delivery) (link : Link) : Link :=
  if sender = e.lo then { link with forward := link.forward ++ items }
  else { link with backward := link.backward ++ items }

end Link

/-- An item with the ends of its way. -/
structure Parcel where
  sender : NodeName
  receiver : NodeName
  item : Delivery

/-- Everything queued on a link: first what goes from the lesser name to the greater. -/
def Link.parcels (e : Edge) (link : Link) : List Parcel :=
  link.forward.map (Parcel.mk e.lo e.hi) ++ link.backward.map (Parcel.mk e.hi e.lo)

/-- Whether a node takes an item in as something new, and the node afterwards. -/
def Node.receive [Crypto] (n : Node) : Delivery → Bool × Node
  | .block b =>
    match n.applyBlock b with
    | (.ok .alreadyKnown, n) => (false, n)
    | (.ok _, n) => (true, n)
    | (.error _, n) => (false, n)
  | .transaction trx =>
    if n.knowsTransaction trx.digest then (false, n)
    else
      match n.pushTransaction trx with
      | (.ok _, n) => (true, n)
      | (.error _, n) => (false, n)

/-- Blocks of the current chain, then pending transactions, that a peer does not know. -/
def Node.missingFor [Crypto] (n peer : Node) : List Delivery :=
  (n.chainBlocks.filter fun b => !peer.knowsBlock b.id).map .block ++
    (n.pending.filter fun trx => !peer.knowsTransaction trx.digest).map .transaction

end ChainLab
