import ChainLab.Proofs.EventKinds
import ChainLab.Proofs.Quiescence
import ChainLab.Proofs.Traffic

/-!
# A new link synchronizes its ends

Two nodes that are linked queue for each other what the other one lacks of their chains. Whatever
else the round after that delivers before or in between, no delivery makes a node forget a block.
So each block finds its parent there when it arrives, and is taken in, on whatever branch it is.
After the round either end knows the chain that the other one was on, and a node is as high as
everybody whose head it knows.
-/

namespace ChainLab

open Network Node

namespace Node

/-- Items bring a node all blocks of some kind: those it does not know are among them, and none
comes before its parent. -/
structure Brings (items : List Delivery) (wanted : BlockId → Prop) (target : Node) : Prop where
  sorted : Sorted (target.knowsBlock · = true) items
  promised : ∀ id, wanted id → Promised (target.knowsBlock · = true) items id

variable {items : List Delivery} {item : Delivery} {wanted : BlockId → Prop} {target target' : Node}

namespace Brings

theorem within (h : Brings items wanted target) (more : Within target target') :
    Brings items wanted target' where
  sorted := h.sorted.mono fun _ => more.knowsBlock
  promised id want := (h.promised id want).imp_left more.knowsBlock

theorem knowsBlock {id : BlockId} (h : Brings [] wanted target) (want : wanted id) :
    target.knowsBlock id = true := by
  rcases h.promised id want with known | ⟨_, listed, -⟩
  · exact known
  · cases listed

/-- The parent of a block that arrives is there, so the block is known from then on. -/
theorem receive [Crypto] {rules : Rules} {strings : List (List UInt8)}
    (h : Brings (item :: items) wanted target) (clean : NoCollision strings)
    (origin : rules.genesisString ∈ strings) (honest : target.Honest rules strings)
    (genuine : ∀ b, item = .block b → b.Honest rules strings) :
    Brings items wanted (target.receive item).2 := by
  have more := target.within_receive item
  cases item with
  | transaction trx =>
    refine Brings.within ⟨h.sorted, fun id want => (h.promised id want).imp_right ?_⟩ more
    rintro ⟨c, listed, same⟩
    exact ⟨c, by simpa using listed, same⟩
  | block b =>
    obtain ⟨parent, later⟩ := h.sorted
    have known : (target.receive (.block b)).2.knowsBlock b.id = true := by
      rcases honest.receive clean origin (genuine b rfl) with ⟨passed, known | orphan⟩ | taken
      · exact more.knowsBlock known
      · rw [parent] at orphan
        cases orphan
      · obtain ⟨n', taken, -, learned⟩ := taken
        rw [taken]
        exact learned.knowsBlock_iff.mpr (.inr rfl)
    refine ⟨later.mono ?_, fun id want => ?_⟩
    · rintro id (old | rfl)
      · exact more.knowsBlock old
      · exact known
    · rcases h.promised id want with old | ⟨c, listed, rfl⟩
      · exact .inl (more.knowsBlock old)
      · rcases List.mem_cons.mp listed with first | rest
        · cases first
          exact .inl known
        · exact .inr ⟨c, rest, rfl⟩

end Brings

/-- A node has learned the chain that a peer was on, and is as high as the higher of the two. -/
structure CaughtUp (own peer after : Node) : Prop where
  knows : ∀ id ∈ peer.headState.chain, after.knowsBlock id = true
  high : max own.headNum peer.headNum ≤ after.headNum

theorem Honest.caughtUp [Crypto] {rules : Rules} {strings : List (List UInt8)}
    {own peer after : Node} (ownHonest : own.Honest rules strings) (clean : NoCollision strings)
    (origin : rules.genesisString ∈ strings) (peerHonest : peer.Honest rules strings)
    (afterHonest : after.Honest rules strings) (more : Within own after)
    (knows : ∀ id ∈ peer.headState.chain, after.knowsBlock id = true) :
    CaughtUp own peer after where
  knows := knows
  high := by
    have higher : own.headNum ≤ after.headNum :=
      ownHonest.headNum_le clean origin afterHonest (more.knowsBlock ownHonest.head_known)
    have higher' : peer.headNum ≤ after.headNum := by
      obtain ⟨bs, laid⟩ := peerHonest.head_laid
      exact peerHonest.headNum_le clean origin afterHonest
        (knows _ laid.grown.1.head_mem_chain)
    change (if own.headNum ≤ peer.headNum then _ else _) ≤ _
    split
    · exact higher'
    · exact higher

end Node

namespace Network

/-- Each of two nodes has caught up with the other one. -/
def Synchronized (before after : Network) (a b : NodeName) : Prop :=
  ∃ na nb na' nb', before.nodes[a]? = some na ∧ before.nodes[b]? = some nb ∧
    after.nodes[a]? = some na' ∧ after.nodes[b]? = some nb' ∧
      CaughtUp na nb na' ∧ CaughtUp nb na nb'

/-- No node has left or forgotten a block. -/
def Keeps (net net' : Network) : Prop :=
  ∀ (name : NodeName) (n : Node), net.nodes[name]? = some n →
    ∃ n', net'.nodes[name]? = some n' ∧ Within n n'

variable [Crypto] {net : Network}

namespace Keeps

omit [Crypto] in
theorem refl : Keeps net net := fun _ n found => ⟨n, found, .refl⟩

omit [Crypto] in
theorem trans {mid after : Network} (h : Keeps net mid) (h' : Keeps mid after) :
    Keeps net after := by
  intro name n found
  obtain ⟨n₁, found₁, more⟩ := h name n found
  obtain ⟨n', found', more'⟩ := h' name n₁ found₁
  exact ⟨n', found', more.trans more'⟩

theorem ask {name : NodeName} {request : Request} {audience : Audience}
    (more : ∀ n : Node, Within n (n.handle request)) :
    Keeps net (net.ask name request audience) := by
  intro x n found
  rw [getElem?_ask, found]
  split
  · exact ⟨_, rfl, more n⟩
  · exact ⟨n, rfl, .refl⟩

theorem deliver (p : Parcel) : Keeps net (net.deliver p) := by
  rw [deliver_eq_ask]
  exact ask fun n => (n.receive_eq_handle p.item).1 ▸ n.within_receive p.item

theorem deliverAll (parcels : List Parcel) : Keeps net (parcels.foldl Network.deliver net) := by
  induction parcels generalizing net with
  | nil => exact refl
  | cons p rest ih => exact (deliver p).trans ih

/-- Only a block that a node makes under an identifier it knows could replace another one. -/
theorem play {event : Event} (silent : event.makesBlock = false) : Keeps net (net.play event) := by
  cases event with
  | addNode name =>
    intro x n found
    simp only [Network.play, addNode, addNodeOn]
    split
    · exact ⟨n, found, .refl⟩
    next fresh =>
      have other : name ≠ x := fun same => fresh (same ▸ Watched.mem_nodes_of_getElem? found)
      exact ⟨n, by rw [Watched.getElem?_setNode, if_neg other, found], .refl⟩
  | link a b =>
    simp only [Network.play]
    split <;> exact refl
  | unlink | arrange => exact refl
  | serve order =>
    have emptied : Keeps net { net with links := (collect net.links order).2 } := refl
    exact emptied.trans (deliverAll (collect net.links order).1)
  | push name trx =>
    rw [play_push_eq_ask]
    exact ask fun n => (n.within_pushTransaction trx).1
  | produce name => cases silent

theorem playAll {events : List Event} (silent : ∀ e ∈ events, e.makesBlock = false) :
    Keeps net (net.playAll events) := by
  induction events generalizing net with
  | nil => exact refl
  | cons event rest ih =>
    obtain ⟨first, others⟩ := List.forall_mem_cons.mp silent
    exact (play first).trans (ih others)

end Keeps

end Network

namespace Watched

variable [Crypto] {rules : Rules} {strings : List (List UInt8)} {w : Watched} {net : Network}
  {held : NodeName → NodeName → List BlockId} {parcels : List Parcel} {a b : NodeName}
  {na nb : Node} {wanted : BlockId → Prop}

namespace Tidy

theorem honest_item (h : Tidy rules strings w parcels) {p : Parcel} {c : Block}
    (mem : p ∈ parcels) (item : p.item = .block c) : c.Honest rules strings := by
  obtain ⟨apart, linked⟩ := h.carried p mem
  obtain ⟨⟨source, hs⟩, target, ht⟩ := h.exists_node linked
  refine (h.feeds _ _ source target apart linked hs ht).honest c (List.mem_append_left _ ?_)
  exact List.mem_map.mpr ⟨p, List.mem_filter.mpr ⟨mem, by simp⟩, item⟩

variable (clean : NoCollision strings) (origin : rules.genesisString ∈ strings)

include clean origin

/-- Whichever parcel is handed over, what is on its way to a node still brings it what it wants. -/
theorem brings_deliver {p : Parcel} (h : Tidy rules strings ⟨net, held⟩ (p :: parcels))
    (found : net.nodes[b]? = some nb) (brings : Brings (collected (p :: parcels) a b) wanted nb) :
    ∃ nb', (net.deliver p).nodes[b]? = some nb' ∧ Brings (collected parcels a b) wanted nb' := by
  obtain ⟨nb', found', more⟩ := Keeps.deliver p b nb found
  refine ⟨nb', found', ?_⟩
  by_cases here : p.sender = a ∧ p.receiver = b
  · obtain ⟨rfl, rfl⟩ := here
    have after : nb' = (nb.receive p.item).2 := by
      rw [deliver_eq_ask, getElem?_ask, if_pos rfl, found] at found'
      cases found'
      exact (nb.receive_eq_handle p.item).1
    rw [collected_cons_self] at brings
    rw [after]
    exact brings.receive clean origin (h.honest _ nb found) fun c =>
      h.honest_item List.mem_cons_self
  · have other : collected (p :: parcels) a b = collected parcels a b := by
      simp [collected, here]
    rw [other] at brings
    exact brings.within more

theorem knows_deliverAll (h : Tidy rules strings ⟨net, held⟩ parcels)
    (found : net.nodes[b]? = some nb) (brings : Brings (collected parcels a b) wanted nb) :
    ∃ nb', (parcels.foldl Network.deliver net).nodes[b]? = some nb' ∧
      ∀ id, wanted id → nb'.knowsBlock id = true := by
  induction parcels generalizing net nb with
  | nil => exact ⟨nb, found, fun id => brings.knowsBlock⟩
  | cons p rest ih =>
    obtain ⟨nb', found', brings'⟩ := h.brings_deliver clean origin found brings
    exact ih (h.deliver clean origin) found' brings'

/-- If all that is queued for a node is what it lacks of a chain, it knows that chain after a
round that serves all links with something queued. -/
theorem knows_round {order : List Edge} (h : Tidy rules strings ⟨net, held⟩ [])
    (served : ∀ e ∈ net.busy, e ∈ order) (apart : a ≠ b) (source : na.Honest rules strings)
    (found : net.nodes[b]? = some nb) (sends : queue net.links a b = na.missingFor nb) :
    ∃ nb', (net.round order).2.nodes[b]? = some nb' ∧
      ∀ id ∈ na.headState.chain, nb'.knowsBlock id = true := by
  obtain ⟨-, sorted, promised⟩ :=
    source.missingFor clean origin (h.honest b nb found).toStocked
  have brings : Brings (collected (Network.collect net.links order).1 a b)
      (· ∈ na.headState.chain) nb := by
    rw [collected_eq_queue served apart h.joins, sends]
    exact ⟨sorted, promised⟩
  exact (h.collect order).knows_deliverAll clean origin found brings

/-- Such a node has caught up, and whatever happens later without blocks does not set it back. -/
theorem caughtUp_playAll {order : List Edge} {later : List Event}
    (h : Tidy rules strings w []) (interval : 0 < rules.config.blockInterval)
    (served : ∀ e ∈ w.net.busy, e ∈ order) (silent : ∀ e ∈ later, e.makesBlock = false)
    (apart : a ≠ b) (ha : w.net.nodes[a]? = some na) (hb : w.net.nodes[b]? = some nb)
    (sends : queue w.net.links a b = na.missingFor nb) :
    ∃ nb', (w.net.playAll (.serve order :: later)).nodes[b]? = some nb' ∧ CaughtUp nb na nb' := by
  have silent' : ∀ e ∈ Event.serve order :: later, e.makesBlock = false :=
    List.forall_mem_cons.mpr ⟨rfl, silent⟩
  have unmade : w.net.made (.serve order :: later) = [] := made_eq_nil silent'
  have after : Tidy rules strings (w.playAll (.serve order :: later)) [] :=
    h.playAll clean origin _ interval (by simp [unmade]) (by simp [unmade])
  obtain ⟨nb₁, hb₁, knows⟩ := h.knows_round clean origin served apart (h.honest a na ha) hb sends
  obtain ⟨nb', hb', more'⟩ := Keeps.playAll silent b nb₁ hb₁
  have more : Within nb nb' := by
    obtain ⟨_, found, more⟩ := Keeps.playAll silent' b nb hb
    cases found.symm.trans hb'
    exact more
  have honest : nb'.Honest rules strings := after.honest b nb' (net_playAll ▸ hb')
  refine ⟨nb', hb', ?_⟩
  exact (h.honest b nb hb).caughtUp clean origin (h.honest a na ha) honest more fun id mem =>
    more'.knowsBlock (knows id mem)

theorem synchronized {order : List Edge} {later : List Event}
    (h : Tidy rules strings w []) (interval : 0 < rules.config.blockInterval)
    (able : w.net.linkable? a b = some (na, nb))
    (served : ∀ e ∈ (w.net.play (.link a b)).busy, e ∈ order)
    (silent : ∀ e ∈ later, e.makesBlock = false) :
    Synchronized w.net (w.net.playAll (.link a b :: .serve order :: later)) a b := by
  obtain ⟨ha, hb, apart, -⟩ := linkable_eq_some.mp able
  have linked : Tidy rules strings (w.play (.link a b)) [] := h.link clean origin a b
  have nodes : (w.play (.link a b)).net.nodes = w.net.nodes := by
    simp only [Watched.play, Network.play, able]
  have fed : queue (w.play (.link a b)).net.links a b = na.missingFor nb ∧
      queue (w.play (.link a b)).net.links b a = nb.missingFor na := by
    simp only [Watched.play, Network.play, able]
    exact queue_insert w.net.links apart (na.missingFor nb) (nb.missingFor na)
  have ha₁ := nodes ▸ ha
  have hb₁ := nodes ▸ hb
  obtain ⟨nb', hb', caughtB⟩ :=
    linked.caughtUp_playAll clean origin interval served silent apart ha₁ hb₁ fed.1
  obtain ⟨na', ha', caughtA⟩ :=
    linked.caughtUp_playAll clean origin interval served silent (Ne.symm apart) hb₁ ha₁ fed.2
  exact ⟨na, nb, na', nb', ha, hb, ha', hb', caughtA, caughtB⟩

end Tidy

end Watched

namespace Network

variable [Crypto] {net : Network} {a b : NodeName} {na nb : Node}

/-- Only nodes that can be linked are connected. -/
theorem linkable_of_connect (connected : (net.connect a b).1 = .ok ()) :
    ∃ na nb, net.linkable? a b = some (na, nb) := by
  unfold connect node at connected
  cases ha : net.nodes[a]? with
  | none => simp [ha] at connected
  | some na =>
    cases hb : net.nodes[b]? with
    | none => simp [ha, hb] at connected
    | some nb =>
      refine ⟨na, nb, linkable_eq_some.mpr ⟨ha, hb, ?_⟩⟩
      simp only [ha, hb] at connected
      split at connected
      · cases connected
      next apart =>
        split at connected
        · cases connected
        next free => exact ⟨apart, free⟩

/-- A connection is a link and a round, with the order of service drawn before the link is made, and
possibly more rounds. -/
theorem connect_eq_playAll (able : net.linkable? a b = some (na, nb)) :
    ∃ generator order later,
      let drawn := net.play (.arrange generator net.autoPropagate net.groups)
      (∀ e ∈ (drawn.play (.link a b)).busy, e ∈ order) ∧ (∀ e ∈ later, e.makesBlock = false) ∧
        (net.connect a b).2 = drawn.playAll (.link a b :: .serve order :: later) := by
  let linked := net.play (.link a b)
  let order := (linked.generator.shuffle linked.busy).1
  let generator := (linked.generator.shuffle linked.busy).2
  let drawn := net.play (.arrange generator net.autoPropagate net.groups)
  have able' : drawn.linkable? a b = some (na, nb) := able
  have same : drawn.play (.link a b) = { linked with generator } := by
    simp only [linked, Network.play, able, able']
    rfl
  refine ⟨generator, order, linked.step.2.afterChangeEvents, ?_, ?_, ?_⟩
  · rw [same]
    exact fun e => (linked.generator.shuffle_perm linked.busy).mem_iff.mpr
  · exact forall_mem_afterChangeEvents (fun _ _ _ => rfl) fun _ => rfl
  · rw [connect_of_linkable able, playAll_cons, playAll_cons, same, ← playAll_afterChangeEvents]
    rfl

/-- A connection synchronizes. Operations come down to events, and after any events at all: if a
connection is made, each of the two nodes knows the chain that the other one was on, and is as high
as the higher of the two was. It does not matter what else is queued, in which order the round
serves the links, or what follows it, as long as that makes no block. -/
theorem connect_synchronizes (config : ScenarioConfig) (seed : BitVec 128) :
    (∀ operations, (Network.make config seed).performAll operations =
        (Network.make config seed).playAll ((Network.make config seed).trace operations)) ∧
      ∀ events, 0 < config.chain.blockInterval →
        (∀ b ∈ (Network.make config seed).made events, b.Regular) →
        NoCollision (Watched.hashedIn config seed events) →
        let net := (Network.make config seed).playAll events
        ∀ a b, (net.connect a b).1 = .ok () →
          Synchronized net (net.connect a b).2 a b ∧
            ∀ order later, (∀ e ∈ (net.play (.link a b)).busy, e ∈ order) →
              (∀ e ∈ later, e.makesBlock = false) →
              Synchronized net (net.playAll (.link a b :: .serve order :: later)) a b := by
  refine ⟨fun operations => playAll_trace.symm, ?_⟩
  intro events interval regular clean net a b connected
  obtain ⟨na, nb, able⟩ := linkable_of_connect connected
  have origin : (Watched.rulesOf config).genesisString ∈ Watched.hashedIn config seed events :=
    List.mem_cons_self
  let w := (Watched.start config seed).playAll events
  have same : w.net = net := Watched.net_playAll
  have tidy : Watched.Tidy (Watched.rulesOf config) (Watched.hashedIn config seed events) w [] :=
    Watched.tidy_playAll interval regular clean
  constructor
  · obtain ⟨generator, order, later, served, silent, spelled⟩ := connect_eq_playAll able
    rw [← same] at able served spelled ⊢
    rw [spelled]
    have drawn : Watched.Tidy (Watched.rulesOf config) (Watched.hashedIn config seed events)
        (w.play (.arrange generator w.net.autoPropagate w.net.groups)) [] :=
      ⟨tidy.rules_eq, tidy.honest, tidy.joins, tidy.present, tidy.carried, tidy.feeds⟩
    exact drawn.synchronized clean origin interval able served silent
  · intro order later served silent
    rw [← same] at able served ⊢
    exact tidy.synchronized clean origin interval able served silent

end Network

namespace Network

section sample

attribute [local instance] checksum

/-- Three branches: a node, its peer, which is still to be told of it, and a node without peers
that is higher than both. -/
def sampleApart : List Operation :=
  [.addNode "a", .addNode "b", .addNode "c", .connect "a" "c", .produceBlock "a", .produceBlock "c",
    .produceBlock "b", .produceBlock "b"]

theorem connect_synchronizes_sample :
    let net := (make Watched.sampleNetwork 7).performAll sampleApart
    let order := (net.play (.link "a" "b")).busy.reverse
    net.queued = 2 ∧ (net.nodes["a"]?).map (·.headNum) = some 1 ∧
      (net.nodes["b"]?).map (·.headNum) = some 2 ∧
      Synchronized net (net.connect "a" "b").2 "a" "b" ∧
      Synchronized net (net.playAll [.link "a" "b", .serve order, .unlink fun _ => true])
        "a" "b" := by
  intro net order
  have facts :
      let events := (make Watched.sampleNetwork 7).trace sampleApart
      let distinct := (Watched.hashedIn Watched.sampleNetwork 7 events).eraseDups
      (∀ b ∈ (make Watched.sampleNetwork 7).made events,
          b.header.time.ticks.toNat < UInt64.size - 1 ∧ b.num ≠ 0) ∧
        (∀ s ∈ distinct, s.length < UInt64.size) ∧ (distinct.map Crypto.hash).Nodup ∧
        (net.linkable? "a" "b").isSome = true ∧ net.queued = 2 ∧
        (net.nodes["a"]?).map (·.headNum) = some 1 ∧
        (net.nodes["b"]?).map (·.headNum) = some 2 := by
    decide +kernel
  obtain ⟨regular, short, apart, able, queued, low, high⟩ := facts
  obtain ⟨⟨na, nb⟩, able⟩ := Option.isSome_iff_exists.mp able
  obtain ⟨spelled, synchronizes⟩ := connect_synchronizes Watched.sampleNetwork 7
  have clean := noCollision_of_nodup short apart fun _ => List.mem_eraseDups.mpr
  have connected := synchronizes _ (by decide) regular clean "a" "b"
  rw [← spelled] at connected
  obtain ⟨connects, serves⟩ := connected (by rw [connect_of_linkable able])
  refine ⟨queued, low, high, connects, serves order [.unlink fun _ => true] ?_ ?_⟩
  · exact fun e => List.mem_reverse.mpr
  · exact List.forall_mem_singleton.mpr rfl

end sample

end Network

end ChainLab
