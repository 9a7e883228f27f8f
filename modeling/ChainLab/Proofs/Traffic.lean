import ChainLab.Proofs.AnchoredNode
import ChainLab.Proofs.Convergence
import ChainLab.Proofs.QueueAgreement

/-!
# Traffic between nodes

A run of a network in moves so small that each concerns one node at most. Whether a node is given
something by hand, makes a block, or finds an item on a link: it is asked to do something, and what
is news to it goes to an audience. A round is one move that takes parcels off the links, followed by
one move for each parcel that is handed over. Nodes may be on chains of their own, and may be
reached into behind the back of the network.
-/

namespace ChainLab

/-- What a node is asked to do with an item that reaches it. -/
def Delivery.request : Delivery → Request
  | .block b => .receive b
  | .transaction trx => .push trx

/-- Who hears of what a node has taken in or made. -/
inductive Audience where
  | nobody
  | peers (skip : Option NodeName)

/-- Whether a peer is among those who hear. -/
def Audience.includes : Audience → NodeName → Bool
  | .nobody, _ => false
  | .peers skip, peer => some peer ≠ skip

namespace Node

variable [Crypto]

/-- What a node has to tell when it is asked something. -/
def news (n : Node) : Request → Option Delivery
  | .push trx => if (n.pushTransaction trx).1.isOk then some (.transaction trx) else none
  | .produce => some (.block n.produceBlock.1)
  | .receive b => if (n.receive (.block b)).1 then some (.block b) else none

theorem news_eq_none {n : Node} {trx : SignedTransaction}
    (known : n.knowsTransaction trx.digest = true) :
    n.handle (.push trx) = n ∧ n.news (.push trx) = none := by
  obtain ⟨error, fails⟩ := ChainState.applyTransaction_of_hasApplied n.rules n.headTime known
  simp [handle, news, pushTransaction, fails, Except.isOk, Except.toBool]

/-- A delivery is a request whose news, if there is any, is the item itself. -/
theorem receive_eq_handle (n : Node) (item : Delivery) :
    n.handle item.request = (n.receive item).2 ∧
      n.news item.request = if (n.receive item).1 then some item else none := by
  cases item with
  | block b =>
    refine ⟨?_, rfl⟩
    simp only [receive, Delivery.request, handle]
    rcases n.applyBlock b with ⟨_ | outcome, n'⟩
    · rfl
    · cases outcome <;> rfl
  | transaction trx =>
    cases known : n.knowsTransaction trx.digest with
    | true =>
      obtain ⟨same, silent⟩ := news_eq_none known
      simp [receive, Delivery.request, known, same, silent]
    | false =>
      simp only [receive, Delivery.request, handle, news, known, Bool.false_eq_true, if_false]
      rcases n.pushTransaction trx with ⟨_ | _, n'⟩ <;> exact ⟨rfl, rfl⟩

end Node

namespace Network

section tell

variable {net : Network} {sender : NodeName} {audience : Audience} {news : Option Delivery}

/-- If there is news, it is queued on the links to those who hear it. -/
def tell (net : Network) (sender : NodeName) : Audience → Option Delivery → Network
  | .peers skip, some item => net.announce sender skip item
  | _, _ => net

@[simp] theorem nodes_tell : (net.tell sender audience news).nodes = net.nodes := by
  unfold tell
  split <;> rfl

theorem mem_links_tell {e : Edge} : e ∈ (net.tell sender audience news).links ↔ e ∈ net.links := by
  unfold tell
  split
  · exact mem_links_announce
  · rfl

theorem queue_tell {a b : NodeName} (apart : a ≠ b) (linked : Edge.between a b ∈ net.links) :
    queue (net.tell sender audience news).links a b =
      queue net.links a b ++ if sender = a ∧ audience.includes b then news.toList else [] := by
  cases audience with
  | nobody => simp [tell, Audience.includes]
  | peers skip =>
    cases news with
    | none => simp [tell]
    | some item =>
      rw [tell, queue_announce apart linked]
      by_cases hears : sender = a ∧ some b ≠ skip <;> simp [Audience.includes, hears]

end tell

variable [Crypto]

/-- A node is asked something and tells its audience. -/
def ask (net : Network) (name : NodeName) (request : Request) (audience : Audience) : Network :=
  match net.nodes[name]? with
  | none => net
  | some n => (net.setNode (n.handle request) name).tell name audience (n.news request)

variable {net : Network} {name : NodeName} {n : Node} {request : Request} {audience : Audience}

theorem ask_of_none (absent : net.nodes[name]? = none) : net.ask name request audience = net := by
  simp only [ask, absent]

theorem ask_of_some (found : net.nodes[name]? = some n) :
    net.ask name request audience =
      (net.setNode (n.handle request) name).tell name audience (n.news request) := by
  simp only [ask, found]

theorem deliver_eq_ask {p : Parcel} :
    net.deliver p = net.ask p.receiver p.item.request (.peers (some p.sender)) := by
  cases found : net.nodes[p.receiver]? with
  | none => simp only [deliver, ask, found]
  | some n =>
    obtain ⟨after, news⟩ := n.receive_eq_handle p.item
    simp only [deliver, found, ask_of_some found, after, news]
    rcases n.receive p.item with ⟨_ | _, n'⟩ <;> rfl

theorem play_push_eq_ask {trx : SignedTransaction} :
    net.play (.push name trx) = net.ask name (.push trx) (.peers none) := by
  cases found : net.nodes[name]? with
  | none => simp only [play, ask, found]
  | some n =>
    simp only [play, found, ask_of_some found, Node.handle, Node.news]
    rcases n.pushTransaction trx with ⟨_ | _, n'⟩ <;> rfl

theorem play_produce_eq_ask :
    net.play (.produce name) = net.ask name .produce (.peers none) := by
  cases found : net.nodes[name]? with
  | none => simp only [play, ask, found]
  | some n =>
    simp only [play, found, ask_of_some found]
    rfl

theorem getElem?_ask {x : NodeName} :
    (net.ask name request audience).nodes[x]? =
      if name = x then (net.nodes[x]?).map (·.handle request) else net.nodes[x]? := by
  cases found : net.nodes[name]? with
  | none =>
    rw [ask_of_none found]
    split
    next here => simp [← here, found]
    next => rfl
  | some n =>
    rw [ask_of_some found, nodes_tell, Watched.getElem?_setNode]
    split
    next here => simp [← here, found]
    next => rfl

theorem mem_nodes_ask {x : NodeName} :
    x ∈ (net.ask name request audience).nodes ↔ x ∈ net.nodes := by
  simp only [Std.ExtTreeMap.mem_iff_isSome_getElem?, getElem?_ask]
  split <;> simp

theorem mem_links_ask {e : Edge} :
    e ∈ (net.ask name request audience).links ↔ e ∈ net.links := by
  unfold ask
  split
  · rfl
  · exact mem_links_tell

theorem mem_links_round {order : List Edge} {e : Edge} :
    e ∈ (net.round order).2.links ↔ e ∈ net.links := by
  have delivered : ∀ (parcels : List Parcel) (net : Network),
      e ∈ (parcels.foldl deliver net).links ↔ e ∈ net.links := by
    intro parcels
    induction parcels with
    | nil => exact fun net => Iff.rfl
    | cons p rest ih =>
      intro net
      rw [List.foldl_cons, ih, deliver_eq_ask, mem_links_ask]
  exact (delivered _ _).trans mem_collect

/-- What one node tells another, if they are linked, when someone is asked something. -/
def told (net : Network) (name : NodeName) (request : Request) (audience : Audience)
    (a b : NodeName) : List Delivery :=
  if name = a ∧ audience.includes b ∧ net.isConnected a b then
    (net.nodes[name]?).toList.flatMap fun n => (n.news request).toList
  else []

theorem queue_ask {a b : NodeName} (apart : a ≠ b) (linked : Edge.between a b ∈ net.links) :
    queue (net.ask name request audience).links a b =
      queue net.links a b ++ net.told name request audience a b := by
  cases found : net.nodes[name]? with
  | none => simp [ask_of_none found, told, found]
  | some n =>
    have kept : Edge.between a b ∈ (net.setNode (n.handle request) name).links := linked
    rw [ask_of_some found, queue_tell apart kept]
    have connected : net.isConnected a b = true := linked
    simp [told, found, connected, setNode]

end Network

/-- What happens while parcels are on their way. -/
inductive Move where
  | enroll (name : NodeName) (chainName : String)
  | link (a b : NodeName)
  | unlink (dropped : Edge → Bool)
  | arrange (generator : Generator) (autoPropagate : Bool)
      (groups : Std.ExtTreeMap String (Std.ExtTreeSet NodeName))
  | ask (name : NodeName) (request : Request) (audience : Audience)
  /-- Take off the links what is queued on them. -/
  | collect (order : List Edge)
  /-- Hand the next parcel to its receiver. -/
  | hand

/-- What can be done with a network: what it offers, a node on a chain of its own choice, and
reaching a node behind its back. -/
inductive Command where
  | operate (operation : Operation)
  | addNodeOn (name : NodeName) (chainName : String)
  | reach (name : NodeName) (request : Request)

/-- A network, and the parcels taken off its links that have not been handed over. -/
structure Traffic where
  net : Network
  parcels : List Parcel

/-- A network between rounds. -/
def Network.atRest (net : Network) : Traffic := ⟨net, []⟩

@[simp] theorem Network.net_atRest (net : Network) : net.atRest.net = net := rfl

section

variable [Crypto]

namespace Traffic

/-- With a link goes what is on its way over it. -/
def move (t : Traffic) : Move → Traffic
  | .enroll name chainName => { t with net := (t.net.addNodeOn name chainName).2 }
  | .link a b => { t with net := t.net.play (.link a b) }
  | .unlink dropped =>
    { net := t.net.play (.unlink dropped)
      parcels := t.parcels.filter fun p => !dropped (Edge.between p.sender p.receiver) }
  | .arrange generator autoPropagate groups =>
    { t with net := t.net.play (.arrange generator autoPropagate groups) }
  | .ask name request audience => { t with net := t.net.ask name request audience }
  | .collect order =>
    let (parcels, links) := Network.collect t.net.links order
    { net := { t.net with links }, parcels := t.parcels ++ parcels }
  | .hand =>
    match t.parcels with
    | [] => t
    | p :: rest => ⟨t.net.deliver p, rest⟩

def moveAll (t : Traffic) (moves : List Move) : Traffic := moves.foldl move t

end Traffic

namespace Network

def obey (net : Network) : Command → Network
  | .operate operation => net.perform operation
  | .addNodeOn name chainName => (net.addNodeOn name chainName).2
  | .reach name request =>
    match net.nodes[name]? with
    | none => net
    | some n => net.setNode (n.handle request) name

def obeyAll (net : Network) (commands : List Command) : Network := commands.foldl obey net

/-- A round in moves. -/
def roundMoves (net : Network) (order : List Edge) : List Move :=
  .collect order :: List.replicate (net.round order).1 .hand

def movesOfEvent (net : Network) : Event → List Move
  | .addNode name => [.enroll name net.chainName]
  | .link a b => [.link a b]
  | .unlink dropped => [.unlink dropped]
  | .serve order => net.roundMoves order
  | .push name trx => [.ask name (.push trx) (.peers none)]
  | .produce name => [.ask name .produce (.peers none)]
  | .arrange generator autoPropagate groups => [.arrange generator autoPropagate groups]

def movesOfEvents (net : Network) : List Event → List Move
  | [] => []
  | event :: rest => net.movesOfEvent event ++ (net.play event).movesOfEvents rest

def movesOf (net : Network) : Command → List Move
  | .operate operation => net.movesOfEvents (net.eventsOf operation)
  | .addNodeOn name chainName => [.enroll name chainName]
  | .reach name request => [.ask name request .nobody]

/-- The moves that commands come down to, one after the other. -/
def moves (net : Network) : List Command → List Move
  | [] => []
  | command :: rest => net.movesOf command ++ (net.obey command).moves rest

end Network

namespace Traffic

variable {t : Traffic} {net : Network}

@[simp] theorem moveAll_nil : t.moveAll [] = t := rfl

@[simp] theorem moveAll_cons {m : Move} {rest : List Move} :
    t.moveAll (m :: rest) = (t.move m).moveAll rest := rfl

@[simp] theorem moveAll_append {moves more : List Move} :
    t.moveAll (moves ++ more) = (t.moveAll moves).moveAll more :=
  List.foldl_append

theorem move_hand {p : Parcel} {rest : List Parcel} :
    move ⟨net, p :: rest⟩ .hand =
      ⟨net.ask p.receiver p.item.request (.peers (some p.sender)), rest⟩ := by
  rw [← Network.deliver_eq_ask]
  rfl

/-- Parcels are handed over one after the other. -/
theorem moveAll_hand {parcels : List Parcel} :
    moveAll ⟨net, parcels⟩ (List.replicate parcels.length .hand) =
      ⟨parcels.foldl Network.deliver net, []⟩ := by
  induction parcels generalizing net with
  | nil => rfl
  | cons p rest ih => exact ih

theorem moveAll_roundMoves {order : List Edge} :
    net.atRest.moveAll (net.roundMoves order) = (net.round order).2.atRest := moveAll_hand

theorem moveAll_movesOfEvent {event : Event} :
    net.atRest.moveAll (net.movesOfEvent event) = (net.play event).atRest := by
  cases event with
  | serve order => exact moveAll_roundMoves
  | push name trx =>
    rw [Network.play_push_eq_ask]
    rfl
  | produce name =>
    rw [Network.play_produce_eq_ask]
    rfl
  | addNode | link | unlink | arrange => rfl

theorem moveAll_movesOfEvents {events : List Event} :
    net.atRest.moveAll (net.movesOfEvents events) = (net.playAll events).atRest := by
  induction events generalizing net with
  | nil => rfl
  | cons event rest ih =>
    rw [Network.movesOfEvents, moveAll_append, moveAll_movesOfEvent, ih, Network.playAll_cons]

theorem moveAll_movesOf {command : Command} :
    net.atRest.moveAll (net.movesOf command) = (net.obey command).atRest := by
  cases command with
  | operate operation =>
    rw [Network.movesOf, moveAll_movesOfEvents, Network.playAll_eventsOf]
    rfl
  | addNodeOn name chainName => rfl
  | reach name request =>
    simp only [Network.movesOf, Network.obey, moveAll_cons, moveAll_nil, move, Network.ask,
      Network.atRest]
    split <;> rfl

/-- Commands do nothing but what their moves do. -/
theorem moveAll_moves {commands : List Command} :
    net.atRest.moveAll (net.moves commands) = (net.obeyAll commands).atRest := by
  induction commands generalizing net with
  | nil => rfl
  | cons command rest ih =>
    rw [Network.moves, moveAll_append, moveAll_movesOf, ih]
    rfl

/-- What is true of the links and the parcels, whatever happens: both ends of a link are nodes,
and a parcel is on its way over a link. -/
structure Wired (t : Traffic) : Prop where
  joins : ∀ e ∈ t.net.links, e.Joins
  present : ∀ e ∈ t.net.links, e.lo ∈ t.net.nodes ∧ e.hi ∈ t.net.nodes
  carried : ∀ p ∈ t.parcels, p.sender ≠ p.receiver ∧ Edge.between p.sender p.receiver ∈ t.net.links

end Traffic

namespace Network

variable {net : Network} {a b : NodeName}

omit [Crypto] in
theorem mem_links_unlink {dropped : Edge → Bool} {e : Edge} :
    e ∈ net.links.filter (fun x _ => !dropped x) ↔ e ∈ net.links ∧ dropped e = false := by
  simp only [Std.ExtTreeMap.mem_iff_isSome_getElem?, getElem?_filter_edges]
  cases dropped e <;> simp

theorem mem_nodes_addNodeOn {x name : NodeName} {chainName : String}
    (mem : x ∈ net.nodes) : x ∈ (net.addNodeOn name chainName).2.nodes := by
  unfold addNodeOn
  split
  · exact mem
  · exact Std.ExtTreeMap.mem_insert.mpr (.inr mem)

theorem links_addNodeOn (net : Network) (name : NodeName) (chainName : String) :
    (net.addNodeOn name chainName).2.links = net.links := by
  unfold addNodeOn
  split <;> rfl

end Network

namespace Traffic

variable {t : Traffic} {net : Network} {parcels : List Parcel}

namespace Wired

omit [Crypto] in
theorem apart (h : Wired ⟨net, parcels⟩) {a b : NodeName} (linked : Edge.between a b ∈ net.links) :
    a ≠ b := by
  rintro rfl
  obtain ⟨distinct, -⟩ := h.joins _ linked
  exact distinct (by simp [Edge.between])

omit [Crypto] in
theorem exists_node (h : Wired t) {a b : NodeName} (linked : Edge.between a b ∈ t.net.links) :
    (∃ na, t.net.nodes[a]? = some na) ∧ ∃ nb, t.net.nodes[b]? = some nb :=
  Watched.exists_nodes_of_linked h.present linked

omit [Crypto] in
theorem pop {p : Parcel} (h : Wired ⟨net, p :: parcels⟩) : Wired ⟨net, parcels⟩ :=
  ⟨h.joins, h.present, fun q hq => h.carried q (List.mem_cons_of_mem p hq)⟩

omit [Crypto] in
/-- Links may go and nodes may come, as long as no parcel loses its link. -/
theorem congr {net' : Network} {parcels' : List Parcel} (h : Wired ⟨net, parcels⟩)
    (links : ∀ e ∈ net'.links, e ∈ net.links) (nodes : ∀ x ∈ net.nodes, x ∈ net'.nodes)
    (carried : ∀ p ∈ parcels',
      p.sender ≠ p.receiver ∧ Edge.between p.sender p.receiver ∈ net'.links) :
    Wired ⟨net', parcels'⟩ where
  joins e he := h.joins e (links e he)
  present e he := (h.present e (links e he)).imp (nodes e.lo) (nodes e.hi)
  carried := carried

theorem ask (h : Wired ⟨net, parcels⟩) (name : NodeName) (request : Request)
    (audience : Audience) : Wired ⟨net.ask name request audience, parcels⟩ :=
  h.congr (fun _ => Network.mem_links_ask.mp) (fun _ => Network.mem_nodes_ask.mpr) fun p hp =>
    (h.carried p hp).imp_right Network.mem_links_ask.mpr

theorem link (h : Wired ⟨net, parcels⟩) (a b : NodeName) :
    Wired ⟨net.play (.link a b), parcels⟩ := by
  cases able : net.linkable? a b with
  | none =>
    simp only [Network.play, able]
    exact h
  | some pair =>
    obtain ⟨ha, hb, apart, -⟩ := Network.linkable_eq_some.mp able
    have memA := Watched.mem_nodes_of_getElem? ha
    have memB := Watched.mem_nodes_of_getElem? hb
    have entered : ∀ {e}, e ∈ (net.play (.link a b)).links ↔
        Edge.between a b = e ∨ e ∈ net.links := by
      simp [Network.play, able, Std.ExtTreeMap.mem_insert]
    have same : (net.play (.link a b)).nodes = net.nodes := by simp only [Network.play, able]
    refine ⟨fun e he => ?_, fun e he => ?_, fun p hp => ?_⟩
    · rcases entered.mp he with rfl | old
      · exact Edge.joins_between apart
      · exact h.joins e old
    · simp only [same]
      rcases entered.mp he with rfl | old
      · unfold Edge.between
        split
        · exact ⟨memB, memA⟩
        · exact ⟨memA, memB⟩
      · exact h.present e old
    · exact (h.carried p hp).imp_right fun linked => entered.mpr (.inr linked)

theorem move (h : Wired t) (m : Move) : Wired (t.move m) := by
  obtain ⟨net, parcels⟩ := t
  cases m with
  | enroll name chainName =>
    have same := net.links_addNodeOn name chainName
    refine h.congr (fun e he => ?_) (fun x => Network.mem_nodes_addNodeOn) fun p hp => ?_
    · exact same ▸ he
    · exact (h.carried p hp).imp_right fun linked => same.symm ▸ linked
  | link a b => exact h.link a b
  | unlink dropped =>
    refine h.congr (fun e he => (Network.mem_links_unlink.mp he).1) (fun x mem => mem) ?_
    intro p hp
    obtain ⟨listed, kept⟩ := List.mem_filter.mp hp
    obtain ⟨apart, linked⟩ := h.carried p listed
    exact ⟨apart, Network.mem_links_unlink.mpr ⟨linked, by simpa using kept⟩⟩
  | arrange generator autoPropagate groups => exact ⟨h.joins, h.present, h.carried⟩
  | ask name request audience => exact h.ask name request audience
  | collect order =>
    refine h.congr (fun e => Network.mem_collect.mp) (fun x mem => mem) fun p hp => ?_
    rcases List.mem_append.mp hp with old | new
    · exact (h.carried p old).imp_right Network.mem_collect.mpr
    · exact (Network.linked_of_mem_collect h.joins new).imp_right Network.mem_collect.mpr
  | hand =>
    cases parcels with
    | nil => exact h
    | cons p rest =>
      rw [move_hand]
      exact h.pop.ask _ _ _

end Wired

end Traffic

end

end ChainLab
