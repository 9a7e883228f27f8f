import ChainLab.Proofs.AnchoredNetwork
import ChainLab.Proofs.ForkStore
import ChainLab.Proofs.Quiescence

/-!
# Links keep the order of what is sent

For each direction of a link it is written down what has been sent since the link was made: what
one end lacked, then what the other end had to tell. What has been handed over, what a round has
taken off the link and what is queued on it are together what was sent, in that order. A node only
tells what is news to it, so it sends no block twice.
-/

namespace ChainLab

open Network

/-- The identifiers of the blocks among some items. -/
def blockIds (items : List Delivery) : List BlockId :=
  items.filterMap fun
    | .block b => some b.id
    | .transaction _ => none

@[simp] theorem blockIds_nil : blockIds [] = [] := rfl

@[simp] theorem blockIds_block {b : Block} : blockIds [.block b] = [b.id] := rfl

@[simp] theorem blockIds_transaction {trx : SignedTransaction} :
    blockIds [.transaction trx] = [] := rfl

theorem blockIds_append {items more : List Delivery} :
    blockIds (items ++ more) = blockIds items ++ blockIds more := List.filterMap_append

theorem eq_of_getElem?_of_nodup {α : Type} {l : List α} (h : l.Nodup) {i j : Nat} {a : α}
    (hi : l[i]? = some a) (hj : l[j]? = some a) : i = j := by
  obtain ⟨inside, -⟩ := List.getElem?_eq_some_iff.mp hi
  exact (List.getElem?_inj inside h).mp (hi.trans hj.symm)

namespace Node

variable [Crypto] {n : Node} {rules : Rules} {strings : List (List UInt8)} {b : Block}

/-- A block that a node takes in from a peer was unknown, and is stored now. -/
theorem learned_of_receive (head : n.knowsBlock n.headId = true)
    (accepted : (n.receive (.block b)).1 = true) : Learned n b (n.handle (.receive b)) := by
  have received := received n b
  simp only [receive] at accepted
  simp only [handle]
  generalize n.applyBlock b = r at received accepted
  cases received with
  | known | malformed | unlinked | refused | abandoned => cases accepted
  | extended unknown onHead => exact ⟨rfl, rfl, unknown, onHead ▸ head⟩
  | stored unknown _ linked | switched unknown _ linked => exact ⟨rfl, rfl, unknown, linked⟩

/-- A block that a node has to tell is news to it. -/
theorem Anchored.learned_of_news (h : n.Anchored rules strings) (clean : NoCollision strings)
    (origin : rules.genesisString ∈ strings) {request : Request}
    (listed : ∀ b ∈ n.considered request, b.header.preimage ∈ strings)
    (tells : n.news request = some (.block b)) : Learned n b (n.handle request) := by
  cases request with
  | push trx => simp [news] at tells
  | produce =>
    cases tells
    exact (h.produce clean origin (listed _ List.mem_cons_self)).2.toLearned
  | receive c =>
    simp only [news] at tells
    split at tells
    next accepted =>
      cases tells
      exact learned_of_receive h.head_known accepted
    next => cases tells

theorem Anchored.blockIds_news (h : n.Anchored rules strings) (clean : NoCollision strings)
    (origin : rules.genesisString ∈ strings) {request : Request}
    (listed : ∀ b ∈ n.considered request, b.header.preimage ∈ strings) :
    (blockIds (n.news request).toList).Nodup ∧
      ∀ id ∈ blockIds (n.news request).toList,
        n.knowsBlock id = false ∧ (n.handle request).knowsBlock id = true := by
  cases tells : n.news request with
  | none => simp
  | some item =>
    cases item with
    | transaction trx => simp
    | block b =>
      have learned := h.learned_of_news clean origin listed tells
      refine ⟨by simp, fun id mem => ?_⟩
      obtain rfl : id = b.id := by simpa using mem
      exact ⟨learned.unknown, learned.knowsBlock_iff.mpr (.inr rfl)⟩

/-- The current chain comes back to no block. -/
theorem Anchored.nodup_chain (h : n.Anchored rules strings) : n.headState.chain.toList.Nodup := by
  obtain ⟨bs, path, stacked⟩ := h.head
  rw [stacked.grown.chain_eq, ← h.genesis_eq]
  refine List.nodup_cons.mpr ⟨?_, ?_⟩
  · rw [List.map_reverse, List.mem_reverse]
    exact path.genesisId_not_mem h.keyed
  · rw [List.map_reverse]
    exact List.nodup_reverse.mpr (path.nodup h.keyed)

omit [Crypto] in
theorem id_of_blockAt? (keyed : n.Keyed) {num : Nat} (found : n.blockAt? num = some b) :
    n.headState.chain.toList[num]? = some b.id ∧ n.knowsBlock b.id = true := by
  obtain ⟨id, listed, stored⟩ := Option.bind_eq_some_iff.mp found
  rw [keyed id b stored]
  refine ⟨?_, knowsBlock_iff.mpr (.inr ⟨b, stored⟩)⟩
  rw [← listed, ChainState.blockId?, Array.getElem?_toList]

/-- The blocks of the current chain are known, and no two of them are the same. -/
theorem Anchored.chainBlocks (h : n.Anchored rules strings) :
    (n.chainBlocks.map (·.id)).Nodup ∧ ∀ b ∈ n.chainBlocks, n.knowsBlock b.id = true := by
  constructor
  · rw [Node.chainBlocks, List.map_filterMap]
    refine List.Nodup.filterMap ?_ List.nodup_range'
    intro i j id hi hj
    obtain ⟨b, foundB, rfl⟩ := Option.map_eq_some_iff.mp hi
    obtain ⟨c, foundC, same⟩ := Option.map_eq_some_iff.mp hj
    have atI := (id_of_blockAt? h.keyed foundB).1
    have atJ := (id_of_blockAt? h.keyed foundC).1
    rw [same] at atJ
    exact eq_of_getElem?_of_nodup h.nodup_chain atI atJ
  · intro b mem
    obtain ⟨num, -, found⟩ := List.mem_filterMap.mp mem
    exact (id_of_blockAt? h.keyed found).2

/-- What a node sends over a new link. -/
theorem Anchored.missingFor (h : n.Anchored rules strings) (peer : Node) :
    (blockIds (n.missingFor peer)).Nodup ∧
      ∀ id ∈ blockIds (n.missingFor peer), n.knowsBlock id = true := by
  have ids : blockIds (n.missingFor peer) =
      (n.chainBlocks.filter fun b => !peer.knowsBlock b.id).map (·.id) := by
    simp [blockIds, Node.missingFor, List.filterMap_map]
  obtain ⟨nodup, known⟩ := h.chainBlocks
  rw [ids]
  refine ⟨nodup.sublist (List.filter_sublist.map _), ?_⟩
  intro id mem
  obtain ⟨b, listed, rfl⟩ := List.mem_map.mp mem
  exact known b (List.mem_filter.mp listed).1

end Node

/-- Traffic, and what has been sent and handed over from one node to another since they were
linked. -/
structure Logged where
  traffic : Traffic
  sent : NodeName → NodeName → List Delivery
  handed : NodeName → NodeName → List Delivery

/-- What is on its way from one node to another: first what a round has taken off their link. -/
def Traffic.underway (t : Traffic) (a b : NodeName) : List Delivery :=
  collected t.parcels a b ++ queue t.net.links a b

namespace Logged

section

variable [Crypto]

/-- Whoever is linked sends what the other lacks, and whoever has something to tell sends it to
its audience. -/
def sentAfter (l : Logged) (m : Move) (x y : NodeName) : List Delivery :=
  match m with
  | .link a b =>
    match l.traffic.net.linkable? a b with
    | none => l.sent x y
    | some (na, nb) =>
      if x = a ∧ y = b then na.missingFor nb
      else if x = b ∧ y = a then nb.missingFor na
      else l.sent x y
  | .ask name request audience => l.sent x y ++ l.traffic.net.told name request audience x y
  | .hand =>
    match l.traffic.parcels with
    | [] => l.sent x y
    | p :: _ =>
      let audience := Audience.peers (some p.sender)
      l.sent x y ++ l.traffic.net.told p.receiver p.item.request audience x y
  | .enroll .. | .unlink .. | .arrange .. | .collect .. => l.sent x y

def handedAfter (l : Logged) (m : Move) (x y : NodeName) : List Delivery :=
  match m with
  | .link a b =>
    match l.traffic.net.linkable? a b with
    | none => l.handed x y
    | some _ => if Edge.between x y = Edge.between a b then [] else l.handed x y
  | .hand =>
    match l.traffic.parcels with
    | [] => l.handed x y
    | p :: _ => l.handed x y ++ collected [p] x y
  | .enroll .. | .unlink .. | .arrange .. | .ask .. | .collect .. => l.handed x y

def move (l : Logged) (m : Move) : Logged where
  traffic := l.traffic.move m
  sent := l.sentAfter m
  handed := l.handedAfter m

def moveAll (l : Logged) (moves : List Move) : Logged := moves.foldl move l

theorem traffic_moveAll {l : Logged} {moves : List Move} :
    (l.moveAll moves).traffic = l.traffic.moveAll moves := by
  induction moves generalizing l with
  | nil => rfl
  | cons m rest ih => exact ih

/-- A network before anything happened to it. -/
def start (config : ScenarioConfig) (seed : BitVec 128) : Logged where
  traffic := (Network.make config seed).atRest
  sent _ _ := []
  handed _ _ := []

/-- What was handed over and what is on its way is what was sent. -/
structure InOrder (l : Logged) : Prop where
  wired : l.traffic.Wired
  flow : ∀ a b, Edge.between a b ∈ l.traffic.net.links →
    l.handed a b ++ l.traffic.underway a b = l.sent a b

/-- Moves that deliver so many items and lead to a network between rounds: they deliver all that is
queued, all that was sent has then been handed over, and what is queued is what was sent in them. -/
structure Drains (l : Logged) (moves : List Move) (result : Nat × Network) : Prop where
  rest : (l.moveAll moves).traffic = result.2.atRest
  count : result.1 = l.traffic.net.queued
  all : ∀ a b, result.2.isConnected a b = true → (l.moveAll moves).handed a b = l.sent a b
  left : ∀ a b, result.2.isConnected a b = true →
    (l.moveAll moves).sent a b = l.sent a b ++ queue result.2.links a b

variable {l : Logged} {net : Network} {parcels : List Parcel}
  {sent handed : NodeName → NodeName → List Delivery}

omit [Crypto] in
theorem inOrder_start (config : ScenarioConfig) (seed : BitVec 128) :
    InOrder (start config seed) where
  wired :=
    { joins := fun e he => by simp [start, Network.make] at he
      present := fun e he => by simp [start, Network.make] at he
      carried := fun p hp => nomatch hp }
  flow a b linked := by simp [start, Network.make] at linked

theorem underway_ask {name : NodeName} {request : Request} {audience : Audience} {a b : NodeName}
    (wired : (⟨net, parcels⟩ : Traffic).Wired) (linked : Edge.between a b ∈ net.links) :
    Traffic.underway ⟨net.ask name request audience, parcels⟩ a b =
      Traffic.underway ⟨net, parcels⟩ a b ++ net.told name request audience a b := by
  rw [Traffic.underway, queue_ask (wired.apart linked) linked, ← List.append_assoc]
  rfl

namespace InOrder

theorem link (h : InOrder ⟨⟨net, parcels⟩, sent, handed⟩) (a b : NodeName) :
    InOrder (move ⟨⟨net, parcels⟩, sent, handed⟩ (.link a b)) := by
  refine ⟨h.wired.move (.link a b), fun x y linked => ?_⟩
  cases able : net.linkable? a b with
  | none =>
    simp only [move, sentAfter, handedAfter, Traffic.move, Network.play, able] at linked ⊢
    exact h.flow x y linked
  | some pair =>
    obtain ⟨na, nb⟩ := pair
    obtain ⟨-, -, apart, free⟩ := linkable_eq_some.mp able
    have fed := queue_insert net.links apart (na.missingFor nb) (nb.missingFor na)
    simp only [move, sentAfter, handedAfter, Traffic.move, Network.play, able,
      Traffic.underway] at linked ⊢ fed
    by_cases new : Edge.between x y = Edge.between a b
    · -- A parcel would have come over a link that was not there.
      have nothing : collected parcels x y = [] := by
        refine List.map_eq_nil_iff.mpr (List.filter_eq_nil_iff.mpr fun p hp => ?_)
        intro ends
        obtain ⟨rfl, rfl⟩ := of_decide_eq_true ends
        exact free (new ▸ (h.wired.carried p hp).2)
      rw [if_pos new, nothing, List.nil_append, List.nil_append]
      rcases Edge.between_eq_iff.mp new with ⟨rfl, rfl⟩ | ⟨rfl, rfl⟩
      · rw [if_pos ⟨rfl, rfl⟩, fed.1]
      · rw [if_neg fun both => apart both.2, if_pos ⟨rfl, rfl⟩, fed.2]
    · have others := mt Edge.between_eq_iff.mpr new
      have old : Edge.between x y ∈ net.links := by
        simpa [Std.ExtTreeMap.mem_insert, Ne.symm new] using linked
      rw [if_neg new, if_neg fun both => others (.inl both), if_neg fun both => others (.inr both),
        queue_insert_of_ne (Ne.symm new)]
      exact h.flow x y old

theorem unlink (h : InOrder ⟨⟨net, parcels⟩, sent, handed⟩) (dropped : Edge → Bool) :
    InOrder (move ⟨⟨net, parcels⟩, sent, handed⟩ (.unlink dropped)) := by
  refine ⟨h.wired.move (.unlink dropped), fun a b linked => ?_⟩
  obtain ⟨old, kept⟩ := mem_links_unlink.mp linked
  have carried : collected (parcels.filter fun p => !dropped (Edge.between p.sender p.receiver))
      a b = collected parcels a b := by
    unfold collected
    rw [List.filter_filter]
    congr 1
    refine List.filter_congr fun p _ => ?_
    by_cases ends : p.sender = a ∧ p.receiver = b
    · obtain ⟨rfl, rfl⟩ := ends
      simp [kept]
    · simp [ends]
  have queued : queue (net.links.filter fun e _ => !dropped e) a b = queue net.links a b := by
    rw [queue, getElem?_filter_edges, kept]
    rfl
  have flow := h.flow a b old
  rw [Traffic.underway, ← carried, ← queued] at flow
  exact flow

theorem hand {p : Parcel} (h : InOrder ⟨⟨net, p :: parcels⟩, sent, handed⟩) :
    InOrder (move ⟨⟨net, p :: parcels⟩, sent, handed⟩ .hand) := by
  refine ⟨h.wired.move .hand, fun a b linked => ?_⟩
  simp only [move, sentAfter, handedAfter, Traffic.move_hand] at linked ⊢
  have old := mem_links_ask.mp linked
  have flow : handed a b ++ Traffic.underway ⟨net, p :: parcels⟩ a b = sent a b := h.flow a b old
  have first : collected (p :: parcels) a b = collected [p] a b ++ collected parcels a b := by
    rw [← collected_append]
    rfl
  rw [underway_ask h.wired.pop old, ← flow, Traffic.underway, Traffic.underway, first]
  simp only [List.append_assoc]

theorem move (h : InOrder l) (m : Move) : InOrder (l.move m) := by
  obtain ⟨⟨net, parcels⟩, sent, handed⟩ := l
  cases m with
  | enroll name chainName =>
    refine ⟨h.wired.move (.enroll name chainName), fun a b linked => ?_⟩
    have flow := h.flow a b (net.links_addNodeOn name chainName ▸ linked)
    rw [Traffic.underway, ← net.links_addNodeOn name chainName] at flow
    exact flow
  | link a b => exact h.link a b
  | unlink dropped => exact h.unlink dropped
  | arrange generator autoPropagate groups => exact ⟨h.wired.move (.arrange ..), h.flow⟩
  | ask name request audience =>
    refine ⟨h.wired.move (.ask name request audience), fun a b linked => ?_⟩
    have old := mem_links_ask.mp linked
    have flow : handed a b ++ Traffic.underway ⟨net, parcels⟩ a b = sent a b := h.flow a b old
    change handed a b ++ Traffic.underway ⟨net.ask name request audience, parcels⟩ a b =
      sent a b ++ net.told name request audience a b
    rw [underway_ask h.wired old, ← flow, List.append_assoc]
  | collect order =>
    refine ⟨h.wired.move (.collect order), fun a b linked => ?_⟩
    have old := mem_collect.mp linked
    have taken := collected_collect order (h.wired.apart old) h.wired.joins
    change handed a b ++ (collected (parcels ++ (collect net.links order).1) a b ++
      queue (collect net.links order).2 a b) = sent a b
    rw [collected_append, List.append_assoc, taken]
    exact h.flow a b old
  | hand =>
    cases parcels with
    | nil => exact h
    | cons p rest => exact h.hand

theorem moveAll (h : InOrder l) (moves : List Move) : InOrder (l.moveAll moves) := by
  induction moves generalizing l with
  | nil => exact h
  | cons m rest ih => exact ih (h.move m)

theorem handed_hand {a b : NodeName} :
    (Logged.moveAll ⟨⟨net, parcels⟩, sent, handed⟩
      (List.replicate parcels.length .hand)).handed a b = handed a b ++ collected parcels a b := by
  induction parcels generalizing net sent handed with
  | nil => simp [Logged.moveAll, collected]
  | cons p rest ih =>
    have first : collected (p :: rest) a b = collected [p] a b ++ collected rest a b := by
      rw [← collected_append]
      rfl
    rw [first, ← List.append_assoc]
    exact ih

/-- A round that serves all links with something queued drains them. -/
theorem round {order : List Edge} (h : InOrder ⟨net.atRest, sent, handed⟩)
    (served : ∀ e ∈ net.busy, e ∈ order) :
    Drains ⟨net.atRest, sent, handed⟩ (net.roundMoves order) (net.round order) := by
  let after := Logged.moveAll ⟨net.atRest, sent, handed⟩ (net.roundMoves order)
  have traffic : after.traffic = (net.round order).2.atRest := by
    rw [traffic_moveAll]
    exact Traffic.moveAll_roundMoves
  have all : ∀ a b, (net.round order).2.isConnected a b = true →
      after.handed a b = sent a b := by
    intro a b linked
    have there : Edge.between a b ∈ net.links := mem_links_round.mp linked
    have taken := collected_eq_queue served (h.wired.apart there) h.wired.joins
    have flow : handed a b ++ queue net.links a b = sent a b := h.flow a b there
    rw [← flow, ← taken]
    exact handed_hand
  refine ⟨traffic, round_eq_queued served, all, fun a b linked => ?_⟩
  have flow : after.handed a b ++ after.traffic.underway a b = after.sent a b :=
    (h.moveAll (net.roundMoves order)).flow a b (traffic ▸ linked)
  rw [all a b linked, traffic] at flow
  exact flow.symm

/-- A step is a round with the links in an order of its own. -/
theorem step (h : InOrder ⟨net.atRest, sent, handed⟩) :
    Drains ⟨net.atRest, sent, handed⟩ (net.movesOf (.operate .step)) net.step := by
  let order := (net.generator.shuffle net.busy).1
  let drawn : Network := { net with generator := (net.generator.shuffle net.busy).2 }
  have served : ∀ e ∈ drawn.busy, e ∈ order := fun e =>
    (net.generator.shuffle_perm net.busy).mem_iff.mpr
  have ready : InOrder ⟨drawn.atRest, sent, handed⟩ :=
    h.move (.arrange drawn.generator net.autoPropagate net.groups)
  have spelled : Logged.moveAll ⟨net.atRest, sent, handed⟩ (net.movesOf (.operate .step)) =
      Logged.moveAll ⟨drawn.atRest, sent, handed⟩ (drawn.roundMoves order) := by
    simp only [Network.movesOf, eventsOf, stepEvents, movesOfEvents, movesOfEvent,
      List.append_nil, List.singleton_append]
    rfl
  obtain ⟨rest, count, all, left⟩ := ready.round served
  exact ⟨spelled ▸ rest, count, spelled ▸ all, spelled ▸ left⟩

end InOrder

/-- How what a node has sent to a peer comes out of a move. -/
inductive Sends (l : Logged) (m : Move) (a b : NodeName) : List Delivery → Prop
  | nothing : Edge.between a b ∈ l.traffic.net.links → Sends l m a b (l.sent a b)
  | opened {n peer : Node} : l.traffic.net.nodes[a]? = some n →
      Sends l m a b (n.missingFor peer)
  | told {n : Node} {request : Request} : Edge.between a b ∈ l.traffic.net.links →
    l.traffic.net.nodes[a]? = some n →
      (l.traffic.move m).net.nodes[a]? = some (n.handle request) →
        (∀ c ∈ n.considered request, c.header.preimage ∈ l.traffic.hashed m) →
          Sends l m a b (l.sent a b ++ (n.news request).toList)

theorem sends_ask {m : Move} {name : NodeName} {request : Request} {audience : Audience}
    {a b : NodeName} (linked : Edge.between a b ∈ l.traffic.net.links)
    (asked : (l.traffic.move m).net = l.traffic.net.ask name request audience)
    (listed : ∀ c ∈ l.traffic.net.considered name request,
      c.header.preimage ∈ l.traffic.hashed m) :
    Sends l m a b (l.sent a b ++ l.traffic.net.told name request audience a b) := by
  unfold told
  split
  next tells =>
    obtain ⟨rfl, -⟩ := tells
    cases found : l.traffic.net.nodes[name]? with
    | none => simpa using Sends.nothing linked
    | some n =>
      have after : (l.traffic.move m).net.nodes[name]? = some (n.handle request) := by
        simp [asked, getElem?_ask, found]
      simpa using Sends.told linked found after
        fun c hc => listed c (by simpa [considered, found] using hc)
  next => simpa using Sends.nothing linked

theorem sends_sentAfter {m : Move} {a b : NodeName}
    (linked : Edge.between a b ∈ (l.traffic.move m).net.links) :
    Sends l m a b (l.sentAfter m a b) := by
  have spelled : ∀ {blocks : List Block}, ∀ b ∈ blocks,
      b.header.preimage ∈ blocks.map (·.header.preimage) := fun _ => List.mem_map_of_mem
  obtain ⟨⟨net, parcels⟩, sent, handed⟩ := l
  cases m with
  | enroll name chainName => exact .nothing (net.links_addNodeOn name chainName ▸ linked)
  | link x y =>
    cases able : net.linkable? x y with
    | none =>
      simp only [sentAfter, Traffic.move, Network.play, able] at linked ⊢
      exact .nothing linked
    | some pair =>
      obtain ⟨nx, ny⟩ := pair
      obtain ⟨hx, hy, -, -⟩ := linkable_eq_some.mp able
      simp only [sentAfter, Traffic.move, Network.play, able] at linked ⊢
      split
      next ends =>
        obtain ⟨rfl, rfl⟩ := ends
        exact .opened hx
      next other =>
        split
        next ends =>
          obtain ⟨rfl, rfl⟩ := ends
          exact .opened hy
        next another =>
          have apart : Edge.between x y ≠ Edge.between a b := fun same =>
            (Edge.between_eq_iff.mp same.symm).elim other another
          refine .nothing ?_
          simpa [Std.ExtTreeMap.mem_insert, apart] using linked
  | unlink dropped => exact .nothing (mem_links_unlink.mp linked).1
  | arrange => exact .nothing linked
  | ask name request audience => exact sends_ask (mem_links_ask.mp linked) rfl spelled
  | collect order => exact .nothing (mem_collect.mp linked)
  | hand =>
    cases parcels with
    | nil => exact .nothing linked
    | cons p rest =>
      rw [Traffic.move_hand] at linked
      exact sends_ask (mem_links_ask.mp linked) (congrArg Traffic.net Traffic.move_hand) spelled

/-- Each block that was sent is known to who sent it, and was sent once. -/
structure Once (l : Logged) : Prop where
  known : ∀ (a b : NodeName) (n : Node), Edge.between a b ∈ l.traffic.net.links →
    l.traffic.net.nodes[a]? = some n → ∀ id ∈ blockIds (l.sent a b), n.knowsBlock id = true
  nodup : ∀ a b, Edge.between a b ∈ l.traffic.net.links → (blockIds (l.sent a b)).Nodup

omit [Crypto] in
theorem once_start (config : ScenarioConfig) (seed : BitVec 128) : Once (start config seed) where
  known a b n linked := by simp [start, Network.make] at linked
  nodup a b linked := by simp [start, Network.make] at linked

variable {strings : List (List UInt8)} (clean : NoCollision strings)

include clean

theorem Once.move (h : Once l) (wired : l.traffic.Wired) (anchored : l.traffic.net.Anchored strings)
    (m : Move) (listed : l.traffic.hashed m ⊆ strings) : Once (l.move m) := by
  have step : ∀ (a b : NodeName) (n' : Node), Edge.between a b ∈ (l.traffic.move m).net.links →
      (l.traffic.move m).net.nodes[a]? = some n' →
        (blockIds (l.sentAfter m a b)).Nodup ∧
          ∀ id ∈ blockIds (l.sentAfter m a b), n'.knowsBlock id = true := by
    intro a b n' linked found'
    have sends := sends_sentAfter linked
    generalize l.sentAfter m a b = items at sends
    cases sends with
    | nothing before =>
      obtain ⟨⟨n, found⟩, -⟩ := wired.exists_node before
      have within := Traffic.within_move clean anchored listed found found'
      refine ⟨h.nodup a b before, fun id hid => ?_⟩
      exact within.knowsBlock (h.known a b n before found id hid)
    | @opened n peer found =>
      have within := Traffic.within_move clean anchored listed found found'
      obtain ⟨nodup, known⟩ := (anchored a n found).1.missingFor peer
      exact ⟨nodup, fun id hid => within.knowsBlock (known id hid)⟩
    | @told n request before found after spelled =>
      cases after.symm.trans found'
      obtain ⟨anchor, origin⟩ := anchored a n found
      have spelled := fun c hc => listed (spelled c hc)
      have within := anchor.within_handle clean origin spelled
      obtain ⟨nodup, news⟩ := anchor.blockIds_news clean origin spelled
      have old := h.known a b n before found
      rw [blockIds_append]
      constructor
      · refine List.nodup_append.mpr ⟨h.nodup a b before, nodup, ?_⟩
        rintro id hid _ hid' rfl
        exact Bool.noConfusion ((old id hid).symm.trans (news id hid').1)
      · intro id hid
        rcases List.mem_append.mp hid with earlier | new
        · exact within.knowsBlock (old id earlier)
        · exact (news id new).2
  refine ⟨fun a b n' linked found' => (step a b n' linked found').2, fun a b linked => ?_⟩
  obtain ⟨⟨n', found'⟩, -⟩ := (wired.move m).exists_node linked
  exact (step a b n' linked found').1

theorem Once.moveAll (h : Once l) (wired : l.traffic.Wired)
    (anchored : l.traffic.net.Anchored strings) (moves : List Move)
    (listed : l.traffic.hashedIn moves ⊆ strings) : Once (l.moveAll moves) := by
  induction moves generalizing l with
  | nil => exact h
  | cons m rest ih =>
    obtain ⟨first, later⟩ := List.append_subset.mp listed
    exact ih (h.move clean wired anchored m first) (wired.move m)
      (Traffic.anchored_move clean anchored first) later

omit clean

/-- Links are first in, first out, and lose nothing. Whatever is done with a network comes down to
moves. After any moves at all, those in the middle of a round included, what has been handed over in
one direction of a link and what is still on its way there are what has been sent since the link was
made, in that order. Between rounds, a round drains the links if it serves those with something
queued in any order, and so does a step. As long as no chain names, genesis blocks and headers
collide, no block is sent twice. -/
theorem handed_append_underway_eq_sent (config : ScenarioConfig) (seed : BitVec 128) :
    let net := Network.make config seed
    (∀ commands, net.atRest.moveAll (net.moves commands) = (net.obeyAll commands).atRest) ∧
      ∀ moves,
        let l := (start config seed).moveAll moves
        let now := l.traffic.net
        l.traffic = net.atRest.moveAll moves ∧
          (∀ a b, now.isConnected a b = true →
            l.handed a b ++ l.traffic.underway a b = l.sent a b) ∧
          (l.traffic.parcels = [] →
            (∀ order, (∀ e ∈ now.busy, e ∈ order) →
              l.Drains (now.roundMoves order) (now.round order)) ∧
            l.Drains (now.movesOf (.operate .step)) now.step) ∧
          (NoCollision (net.atRest.hashedIn moves) →
            ∀ a b, now.isConnected a b = true → (blockIds (l.sent a b)).Nodup) := by
  intro net
  refine ⟨fun commands => Traffic.moveAll_moves, fun moves => ?_⟩
  have first := inOrder_start config seed
  have inOrder := first.moveAll moves
  refine ⟨traffic_moveAll, inOrder.flow, fun rest => ?_, fun clean => ?_⟩
  · generalize (start config seed).moveAll moves = l at inOrder rest
    obtain ⟨⟨now, parcels⟩, sent, handed⟩ := l
    obtain rfl : parcels = [] := rest
    exact ⟨fun order => inOrder.round, inOrder.step⟩
  · have nobody : (start config seed).traffic.net.Anchored (net.atRest.hashedIn moves) :=
      fun name n found => by simp [start, Network.make] at found
    have once := (once_start config seed).moveAll clean first.wired nobody moves
      (List.Subset.refl _)
    exact once.nodup

end

section sample

attribute [local instance] checksum

/-- A cycle of three nodes. One had made a block before there were links, and another one is
telling its peers of a transaction and of the block it has made of it. -/
def sampleRing : List Command :=
  [.operate (.addNode "a"), .operate (.addNode "b"), .operate (.addNode "c"),
    .operate (.produceBlock "c"), .operate (.connect "a" "b"), .operate (.connect "b" "c"),
    .operate (.connect "c" "a"), .operate (.pushTransaction "a" Node.sampleLate),
    .operate (.produceBlock "a")]

def sampleRingNetwork : Network := (Network.make Watched.sampleNetwork 7).obeyAll sampleRing

theorem handed_append_underway_eq_sent_sample :
    ∃ l, l = (start Watched.sampleNetwork 7).moveAll
        ((Network.make Watched.sampleNetwork 7).moves sampleRing) ∧
      l.traffic = sampleRingNetwork.atRest ∧
      l.handed "a" "b" ++ queue sampleRingNetwork.links "a" "b" = l.sent "a" "b" ∧
      (queue sampleRingNetwork.links "a" "b").length = 3 ∧ (blockIds (l.sent "a" "b")).Nodup ∧
      sampleRingNetwork.step.1 = 5 ∧
      (l.moveAll (sampleRingNetwork.roundMoves sampleRingNetwork.busy)).handed "a" "b" =
        l.sent "a" "b" ∧
      (l.moveAll (sampleRingNetwork.movesOf (.operate .step))).handed "a" "b" = l.sent "a" "b" := by
  have facts :
      let net := Network.make Watched.sampleNetwork 7
      let distinct := (net.atRest.hashedIn (net.moves sampleRing)).eraseDups
      (∀ s ∈ distinct, s.length < UInt64.size) ∧ (distinct.map Crypto.hash).Nodup ∧
        sampleRingNetwork.isConnected "a" "b" = true ∧ sampleRingNetwork.queued = 5 ∧
        (queue sampleRingNetwork.links "a" "b").length = 3 ∧
        sampleRingNetwork.step.2.isConnected "a" "b" = true ∧
        (sampleRingNetwork.round sampleRingNetwork.busy).2.isConnected "a" "b" = true := by
    decide +kernel
  obtain ⟨short, apart, linked, queued, length, linked', linked''⟩ := facts
  have clean := noCollision_of_nodup short apart fun _ => List.mem_eraseDups.mpr
  obtain ⟨spelled, moved⟩ := handed_append_underway_eq_sent Watched.sampleNetwork 7
  obtain ⟨traffic, flow, drains, once⟩ :=
    moved ((Network.make Watched.sampleNetwork 7).moves sampleRing)
  rw [spelled, ← sampleRingNetwork] at traffic
  refine ⟨_, rfl, ?_⟩
  generalize (start Watched.sampleNetwork 7).moveAll
    ((Network.make Watched.sampleNetwork 7).moves sampleRing) = l at traffic flow drains once ⊢
  obtain ⟨round, step⟩ := drains (by rw [traffic]; rfl)
  rw [traffic, Network.net_atRest] at flow once round step
  have served := round sampleRingNetwork.busy fun e busy => busy
  have waiting := step.count
  rw [traffic, Network.net_atRest, queued] at waiting
  exact ⟨traffic, flow "a" "b" linked, length, once clean "a" "b" linked, waiting,
    served.all "a" "b" linked'', step.all "a" "b" linked'⟩

end sample

end Logged

end ChainLab
