import ChainLab.Proofs.EventKinds
import ChainLab.Proofs.Quiescence
import ChainLab.Proofs.Traffic

/-!
# Partitions are barriers

A set of nodes is cut off if no link leads out of it. If nothing is queued inside, then nothing
that is done outside reaches it: a round hands parcels to nodes outside only, and what these have
to tell is queued on links outside only. So the nodes inside and the links between them stay
exactly as they are, for as many rounds as there are, in whatever order the links are serviced.
-/

namespace ChainLab

open Network

/-- What concerns nodes outside of a set only. -/
def Move.Outside (inside : NodeName → Prop) : Move → Prop
  | .enroll name _ | .ask name _ _ => ¬inside name
  | .link a b => ¬inside a ∧ ¬inside b
  | .unlink dropped => ∀ e : Edge, inside e.lo → inside e.hi → dropped e = false
  | .arrange _ _ _ | .collect _ | .hand => True

/-- What nodes outside of a set are told to do. Rounds are served for all nodes. -/
def Operation.Outside (inside : NodeName → Prop) : Operation → Prop
  | .addNode name | .isolate name | .pushTransaction name _ | .produceBlock name => ¬inside name
  | .connect a b | .disconnect a b => ¬inside a ∧ ¬inside b
  | .step | .propagate | .setAutoPropagate _ => True
  | .createGroup _ _ | .joinGroup _ _ | .leaveGroup _ _ => False

/-- No link joins a node of the set to one outside. -/
def Network.Cut (inside : NodeName → Prop) (net : Network) : Prop :=
  ∀ e ∈ net.links, inside e.lo ↔ inside e.hi

/-- Nodes of the set, and links between them, are what they were. -/
structure Network.Spares (inside : NodeName → Prop) (net net' : Network) : Prop where
  nodes : ∀ name, inside name → net'.nodes[name]? = net.nodes[name]?
  links : ∀ e : Edge, inside e.lo → inside e.hi → net'.links[e]? = net.links[e]?

/-- The set is cut off, and nothing is on its way to a node of it. -/
structure Traffic.Walled (inside : NodeName → Prop) (t : Traffic) : Prop where
  cut : t.net.Cut inside
  silent : ∀ (e : Edge) (link : Link), t.net.links[e]? = some link → inside e.lo → link = .empty
  outward : ∀ p ∈ t.parcels, ¬inside p.receiver

variable {inside : NodeName → Prop}

theorem Link.eq_empty_of_size {link : Link} (h : link.size = 0) : link = .empty := by
  obtain ⟨forward, backward⟩ := link
  obtain ⟨rfl, rfl⟩ : forward = [] ∧ backward = [] := by simpa [size] using h
  rfl

namespace Network

/-- The ends of an edge are the nodes that it is between. -/
theorem not_inside_between {a b : NodeName} (ha : ¬inside a) (hb : ¬inside b) :
    ¬inside (Edge.between a b).lo ∧ ¬inside (Edge.between a b).hi := by
  unfold Edge.between
  split
  · exact ⟨hb, ha⟩
  · exact ⟨ha, hb⟩

namespace Spares

variable {net net' net'' : Network}

theorem refl : Spares inside net net := ⟨fun _ _ => rfl, fun _ _ _ => rfl⟩

theorem trans (h : Spares inside net net') (h' : Spares inside net' net'') :
    Spares inside net net'' where
  nodes name own := (h'.nodes name own).trans (h.nodes name own)
  links e lo hi := (h'.links e lo hi).trans (h.links e lo hi)

end Spares

theorem touches_eq_false {e : Edge} {name : NodeName} (lo : inside e.lo) (hi : inside e.hi)
    (outside : ¬inside name) : e.touches name = false := by
  have first : e.lo ≠ name := by
    rintro rfl
    exact outside lo
  have second : e.hi ≠ name := by
    rintro rfl
    exact outside hi
  simp [Edge.touches, first, second]

/-- What a node tells is queued on its own links only. -/
theorem getElem?_tell {net : Network} {sender : NodeName} {audience : Audience}
    {news : Option Delivery} {e : Edge} (elsewhere : e.touches sender = false) :
    (net.tell sender audience news).links[e]? = net.links[e]? := by
  have nobody : e.peer? sender = none := by
    simp only [Edge.touches, Bool.or_eq_false_iff, decide_eq_false_iff_not] at elsewhere
    simp [Edge.peer?, elsewhere]
  unfold tell
  split
  · simp [announce, Std.ExtTreeMap.getElem?_map, nobody]
  · rfl

variable [Crypto]

theorem spares_ask {net : Network} {name : NodeName} {request : Request} {audience : Audience}
    (outside : ¬inside name) : Spares inside net (net.ask name request audience) where
  nodes x own := by
    have other : name ≠ x := by
      rintro rfl
      exact outside own
    rw [getElem?_ask, if_neg other]
  links e lo hi := by
    unfold ask
    split
    · rfl
    · exact getElem?_tell (touches_eq_false lo hi outside)

theorem spares_addNodeOn {net : Network} {name : NodeName} {chainName : String}
    (outside : ¬inside name) : Spares inside net (net.addNodeOn name chainName).2 where
  nodes x own := by
    have other : name ≠ x := by
      rintro rfl
      exact outside own
    unfold addNodeOn
    split
    · rfl
    · rw [Watched.getElem?_setNode, if_neg other]
  links e _ _ := by rw [links_addNodeOn]

theorem spares_link {net : Network} {a b : NodeName} (outside : ¬inside a ∧ ¬inside b) :
    Spares inside net (net.play (.link a b)) := by
  simp only [play]
  split
  · exact .refl
  · refine ⟨fun _ _ => rfl, fun e lo _ => ?_⟩
    have other : Edge.between a b ≠ e := by
      rintro rfl
      exact (not_inside_between outside.1 outside.2).1 lo
    simp [Std.ExtTreeMap.getElem?_insert, other]

theorem cut_link {net : Network} {a b : NodeName} (cut : net.Cut inside)
    (outside : ¬inside a ∧ ¬inside b) : (net.play (.link a b)).Cut inside := by
  obtain ⟨endA, endB⟩ := not_inside_between outside.1 outside.2
  simp only [play]
  split
  · exact cut
  · intro e he
    rw [Std.ExtTreeMap.mem_insert, Std.compare_eq_iff_eq] at he
    rcases he with rfl | old
    · exact iff_of_false endA endB
    · exact cut e old

theorem spares_unlink {net : Network} {dropped : Edge → Bool}
    (outside : ∀ e : Edge, inside e.lo → inside e.hi → dropped e = false) :
    Spares inside net (net.play (.unlink dropped)) where
  nodes _ _ := rfl
  links e lo hi := by
    simp only [play]
    rw [getElem?_filter_edges, outside e lo hi]
    rfl

end Network

namespace Traffic

variable {t t' : Traffic}

/-- The wall stands as long as the inside is spared, no link breaks through it and no parcel is
sent in. -/
theorem Walled.of_spares (h : Walled inside t) (spares : Spares inside t.net t'.net)
    (cut : t'.net.Cut inside) (outward : ∀ p ∈ t'.parcels, ¬inside p.receiver) :
    Walled inside t' where
  cut := cut
  silent e link found lo := by
    have hi := (cut e (mem_of_getElem? found)).mp lo
    exact h.silent e link ((spares.links e lo hi).symm.trans found) lo
  outward := outward

/-- What is collected does not go inside, where nothing is queued. -/
theorem Walled.collect_outward (h : Walled inside t) {order : List Edge} {p : Parcel}
    (hp : p ∈ (collect t.net.links order).1) : ¬inside p.receiver := by
  obtain ⟨e, link, found, hp⟩ := exists_link_of_mem_collect hp
  intro own
  have lo : inside e.lo := by
    rcases List.mem_append.mp hp with up | down
    · obtain ⟨item, -, rfl⟩ := List.mem_map.mp up
      exact (h.cut e (mem_of_getElem? found)).mpr own
    · obtain ⟨item, -, rfl⟩ := List.mem_map.mp down
      exact own
  rw [h.silent e link found lo] at hp
  cases hp

variable [Crypto]

theorem Walled.ask {net : Network} {parcels : List Parcel} {name : NodeName} {request : Request}
    {audience : Audience} (h : Walled inside ⟨net, parcels⟩) (outside : ¬inside name) :
    Walled inside ⟨net.ask name request audience, parcels⟩ :=
  h.of_spares (spares_ask outside) (fun e he => h.cut e (mem_links_ask.mp he)) h.outward

omit [Crypto] in
/-- Taking what is queued off the links does not concern the inside. -/
theorem Walled.spares_collect (h : Walled inside t) (order : List Edge) :
    Spares inside t.net { t.net with links := (collect t.net.links order).2 } where
  nodes _ _ := rfl
  links e lo _ := by
    rw [getElem?_collect]
    split
    · cases found : t.net.links[e]? with
      | none => rfl
      | some link =>
        rw [h.silent e link found lo]
        rfl
    · rfl

/-- One move outside leaves the inside alone, and the wall stands. -/
theorem Walled.move (h : Walled inside t) {m : Move} (outside : m.Outside inside) :
    Spares inside t.net (t.move m).net ∧ Walled inside (t.move m) := by
  obtain ⟨net, parcels⟩ := t
  cases m with
  | enroll name chainName =>
    have spares : Spares inside net (net.addNodeOn name chainName).2 := spares_addNodeOn outside
    have same := net.links_addNodeOn name chainName
    exact ⟨spares, h.of_spares spares (fun e he => h.cut e (same ▸ he)) h.outward⟩
  | link a b =>
    have spares : Spares inside net (net.play (.link a b)) := spares_link outside
    exact ⟨spares, h.of_spares spares (cut_link h.cut outside) h.outward⟩
  | unlink dropped =>
    have spares : Spares inside net (net.play (.unlink dropped)) := spares_unlink outside
    refine ⟨spares, h.of_spares spares (fun e he => h.cut e (mem_links_unlink.mp he).1) ?_⟩
    exact fun p hp => h.outward p (List.mem_filter.mp hp).1
  | arrange generator autoPropagate groups => exact ⟨⟨fun _ _ => rfl, fun _ _ _ => rfl⟩, { h with }⟩
  | ask name request audience => exact ⟨spares_ask outside, h.ask outside⟩
  | collect order =>
    have spares := h.spares_collect order
    refine ⟨spares, h.of_spares spares (fun e he => h.cut e (mem_collect.mp he)) fun p hp => ?_⟩
    rcases List.mem_append.mp hp with old | new
    · exact h.outward p old
    · exact h.collect_outward new
  | hand =>
    cases parcels with
    | nil => exact ⟨.refl, h⟩
    | cons p rest =>
      obtain ⟨first, others⟩ := List.forall_mem_cons.mp h.outward
      rw [move_hand]
      have popped : Walled inside ⟨net, rest⟩ := ⟨h.cut, h.silent, others⟩
      exact ⟨spares_ask first, popped.ask first⟩

theorem Walled.moveAll (h : Walled inside t) {moves : List Move}
    (outside : ∀ m ∈ moves, m.Outside inside) :
    Spares inside t.net (t.moveAll moves).net ∧ Walled inside (t.moveAll moves) := by
  induction moves generalizing t with
  | nil => exact ⟨.refl, h⟩
  | cons m rest ih =>
    obtain ⟨first, others⟩ := List.forall_mem_cons.mp outside
    obtain ⟨spares, walled⟩ := h.move first
    obtain ⟨later, stands⟩ := ih walled others
    exact ⟨spares.trans later, stands⟩

end Traffic

section

variable [Crypto]

/-- All that an event comes down to concerns nodes outside only. -/
def Event.Outside (inside : NodeName → Prop) (event : Event) : Prop :=
  ∀ net : Network, ∀ m ∈ net.movesOfEvent event, m.Outside inside

theorem Event.outside_arrange (generator : Generator) (on : Bool)
    (groups : Std.ExtTreeMap String (Std.ExtTreeSet NodeName)) :
    Event.Outside inside (.arrange generator on groups) :=
  fun _ => List.forall_mem_singleton.mpr trivial

/-- A round takes parcels off all links, and hands them over wherever they go. -/
theorem Event.outside_serve (order : List Edge) : Event.Outside inside (.serve order) := by
  intro net m hm
  rcases List.mem_cons.mp hm with rfl | hands
  · trivial
  · rw [List.eq_of_mem_replicate hands]
    trivial

namespace Network

variable {net : Network}

theorem outside_eventsOf {operation : Operation} (outside : operation.Outside inside) :
    ∀ e ∈ net.eventsOf operation, Event.Outside inside e := by
  have settled : ∀ net : Network, ∀ e ∈ net.afterChangeEvents, Event.Outside inside e :=
    fun _ => forall_mem_afterChangeEvents Event.outside_arrange Event.outside_serve
  have none : ∀ e ∈ ([] : List Event), Event.Outside inside e := List.forall_mem_nil _
  cases operation with
  | addNode name =>
    exact List.forall_mem_singleton.mpr fun _ => List.forall_mem_singleton.mpr outside
  | connect a b =>
    apply forall_mem_connectEvents Event.outside_arrange Event.outside_serve
    exact fun _ => List.forall_mem_singleton.mpr outside
  | disconnect a b =>
    apply forall_mem_disconnectEvents
    refine fun _ => List.forall_mem_singleton.mpr fun e lo _ => decide_eq_false ?_
    rintro rfl
    exact (not_inside_between outside.1 outside.2).1 lo
  | isolate name =>
    simp only [eventsOf]
    split
    · exact none
    · refine List.forall_mem_singleton.mpr fun _ => List.forall_mem_singleton.mpr fun e lo hi => ?_
      exact touches_eq_false lo hi outside
  | createGroup | joinGroup | leaveGroup => exact outside.elim
  | pushTransaction name trx =>
    refine List.forall_mem_cons.mpr ⟨fun _ => List.forall_mem_singleton.mpr outside, ?_⟩
    split
    · exact none
    · exact settled _
  | produceBlock name =>
    simp only [eventsOf]
    split
    · exact none
    · exact List.forall_mem_cons.mpr ⟨fun _ => List.forall_mem_singleton.mpr outside, settled _⟩
  | step => exact forall_mem_stepEvents Event.outside_arrange Event.outside_serve
  | propagate => exact forall_mem_settleEvents Event.outside_arrange Event.outside_serve
  | setAutoPropagate on => exact List.forall_mem_singleton.mpr (Event.outside_arrange _ _ _)

theorem outside_movesOfEvents {events : List Event}
    (each : ∀ event ∈ events, Event.Outside inside event) :
    ∀ m ∈ net.movesOfEvents events, m.Outside inside := by
  induction events generalizing net with
  | nil => exact List.forall_mem_nil _
  | cons event rest ih =>
    obtain ⟨first, others⟩ := List.forall_mem_cons.mp each
    exact List.forall_mem_append.mpr ⟨first net, ih others⟩

/-- A partition is a barrier: whatever nodes outside of a set are told to do, with rounds in
between, if no link leads out of the set and nothing is queued inside, then every node inside and
every link inside is exactly as before, and still no link leads out. -/
theorem unchanged_behind_cut (net : Network) (inside : NodeName → Prop)
    (cut : ∀ e ∈ net.links, inside e.lo ↔ inside e.hi)
    (silent : ∀ (e : Edge) (link : Link), net.links[e]? = some link → inside e.lo → inside e.hi →
      link.size = 0)
    (operations : List Operation)
    (outside : ∀ operation ∈ operations, operation.Outside inside) :
    let after := net.performAll operations
    (∀ name, inside name → after.nodes[name]? = net.nodes[name]?) ∧
      (∀ e : Edge, inside e.lo → inside e.hi → after.links[e]? = net.links[e]?) ∧
      ∀ e ∈ after.links, inside e.lo ↔ inside e.hi := by
  intro after
  have walled : net.atRest.Walled inside :=
    { cut := cut
      silent := fun e link found lo =>
        Link.eq_empty_of_size
          (silent e link found lo ((cut e (mem_of_getElem? found)).mp lo))
      outward := fun p hp => nomatch hp }
  have moves : ∀ m ∈ net.movesOfEvents (net.trace operations), m.Outside inside :=
    outside_movesOfEvents (forall_trace (fun _ _ => outside_eventsOf) outside)
  have kept := walled.moveAll moves
  rw [Traffic.moveAll_movesOfEvents, playAll_trace] at kept
  exact ⟨kept.1.nodes, kept.1.links, kept.2.cut⟩

end Network

end

namespace Network

section sample

attribute [local instance] checksum

/-- Two pairs of linked nodes. One has exchanged a block, the other has a block under way. -/
def samplePairs : Network :=
  (make Watched.sampleNetwork 7).performAll
    [.addNode "a", .addNode "b", .addNode "c", .addNode "d", .connect "a" "b", .connect "c" "d",
      .produceBlock "a", .propagate, .produceBlock "c"]

/-- What the second pair goes through. -/
def sampleTurmoil : List Operation :=
  [.step, .isolate "d", .produceBlock "c", .produceBlock "c", .setAutoPropagate true,
    .connect "d" "c", .disconnect "c" "d", .produceBlock "d", .propagate]

theorem unchanged_behind_cut_sample :
    let inside := fun name => name = "a" ∨ name = "b"
    let after := samplePairs.performAll sampleTurmoil
    (∀ e ∈ samplePairs.links, inside e.lo ↔ inside e.hi) ∧ samplePairs.queued = 1 ∧
      (∀ operation ∈ sampleTurmoil, operation.Outside inside) ∧
      (after.nodes["d"]?).map (·.headNum) = some 4 ∧
      after.nodes["a"]? = samplePairs.nodes["a"]? ∧
      after.links[Edge.between "a" "b"]? = samplePairs.links[Edge.between "a" "b"]? := by
  intro inside after
  have facts :
      let inside := fun name => name = "a" ∨ name = "b"
      (∀ entry ∈ samplePairs.links.toList, (inside entry.1.lo ↔ inside entry.1.hi) ∧
          (inside entry.1.lo → entry.2.size = 0)) ∧
        samplePairs.queued = 1 ∧
        ((samplePairs.performAll sampleTurmoil).nodes["d"]?).map (·.headNum) = some 4 := by
    decide +kernel
  obtain ⟨listed, queued, height⟩ := facts
  have entry : ∀ (e : Edge) (link : Link), samplePairs.links[e]? = some link →
      (inside e.lo ↔ inside e.hi) ∧ (inside e.lo → link.size = 0) := fun e link found =>
    listed (e, link) (Std.ExtTreeMap.mem_toList_iff_getElem?_eq_some.mpr found)
  have cut : ∀ e ∈ samplePairs.links, inside e.lo ↔ inside e.hi := by
    intro e he
    obtain ⟨link, found⟩ := mem_iff_exists_getElem?.mp he
    exact (entry e link found).1
  have outside : ∀ operation ∈ sampleTurmoil, operation.Outside inside := by
    simp [sampleTurmoil, Operation.Outside, inside]
  obtain ⟨nodes, links, -⟩ := unchanged_behind_cut samplePairs inside cut
    (fun e link found lo _ => (entry e link found).2 lo) sampleTurmoil outside
  refine ⟨cut, queued, outside, height, nodes "a" (.inl rfl), links _ ?_ ?_⟩
  · exact .inl (by decide)
  · exact .inr (by decide)

end sample

end Network

end ChainLab
