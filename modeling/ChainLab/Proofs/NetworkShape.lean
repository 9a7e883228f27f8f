import ChainLab.Proofs.Traffic
import Mathlib.Data.Set.Insert

/-!
# What deliveries leave alone, and the links that a connection makes

Items that are delivered change what nodes hold and what is queued. Who is there, who is
linked to whom and who is in which group stays the same, in whatever order the links are
serviced and for however many rounds. So a connection, which runs a round and may go on until
the network is quiet, makes one link and no other.
-/

namespace ChainLab.Network

/-- The same nodes by name, the same groups, and the links there were with some more. -/
structure Adds (net : Network) (made : Set Edge) (net' : Network) : Prop where
  nodes : ∀ x, x ∈ net'.nodes ↔ x ∈ net.nodes
  links : ∀ e, e ∈ net'.links ↔ e ∈ net.links ∨ e ∈ made
  groups : net'.groups = net.groups

/-- The edges from a node to some others. -/
def spokes (name : NodeName) (others : Set NodeName) : Set Edge :=
  {e | ∃ other ∈ others, other ≠ name ∧ e = Edge.between name other}

/-- The edges between any two of some nodes. -/
def mesh (members : Set NodeName) : Set Edge :=
  {e | ∃ a ∈ members, ∃ b ∈ members, a ≠ b ∧ e = Edge.between a b}

/-- A node in front of others has one more spoke. -/
theorem spokes_cons {name other : NodeName} {rest : List NodeName} (apart : other ≠ name) :
    spokes name {x | x ∈ other :: rest} =
      {Edge.between name other} ∪ spokes name {x | x ∈ rest} := by
  ext e
  simp [spokes, apart]

section

variable {net net' net'' : Network} {made made' : Set Edge} {a b name : NodeName}

theorem isConnected_eq_true : net.isConnected a b = true ↔ Edge.between a b ∈ net.links :=
  Std.ExtTreeMap.contains_iff_mem

namespace Adds

theorem refl : net.Adds ∅ net := ⟨fun _ => Iff.rfl, fun _ => by simp, rfl⟩

theorem trans (h : net.Adds made net') (h' : net'.Adds made' net'') :
    net.Adds (made ∪ made') net'' where
  nodes x := (h'.nodes x).trans (h.nodes x)
  links e := by rw [h'.links, h.links, Set.mem_union, or_assoc]
  groups := h'.groups.trans h.groups

/-- What makes no link can come after what makes some. -/
theorem quiet (h : net.Adds made net') (h' : net'.Adds ∅ net'') : net.Adds made net'' := by
  simpa using h.trans h'

/-- A link that was there already counts as one that was made. -/
theorem of_linked (h : net.Adds made net') {e : Edge} (linked : e ∈ net.links) :
    net.Adds ({e} ∪ made) net' where
  nodes := h.nodes
  links x := by
    rw [h.links, Set.mem_union, Set.mem_singleton_iff]
    constructor
    · rintro (old | new)
      · exact .inl old
      · exact .inr (.inr new)
    · rintro (old | rfl | new)
      · exact .inl old
      · exact .inl linked
      · exact .inr new
  groups := h.groups

end Adds

end

section

variable [Crypto] {net : Network} {a b name : NodeName}

namespace Adds

theorem deliver (net : Network) (parcel : Parcel) : net.Adds ∅ (net.deliver parcel) := by
  rw [deliver_eq_ask]
  refine ⟨fun x => mem_nodes_ask, fun e => ?_, ?_⟩
  · simpa using mem_links_ask
  · unfold ask
    split
    · rfl
    · unfold tell
      split <;> rfl

theorem deliverAll (parcels : List Parcel) (net : Network) :
    net.Adds ∅ (parcels.foldl Network.deliver net) := by
  induction parcels generalizing net with
  | nil => exact refl
  | cons parcel rest ih => exact (deliver net parcel).quiet (ih _)

theorem round (order : List Edge) (net : Network) : net.Adds ∅ (net.round order).2 := by
  have emptied : net.Adds ∅ { net with links := (collect net.links order).2 } :=
    ⟨fun _ => Iff.rfl, fun _ => by simpa using mem_collect, rfl⟩
  exact emptied.quiet (deliverAll _ _)

theorem step (net : Network) : net.Adds ∅ net.step.2 := by
  let drawn := net.generator.shuffle net.busy
  have next : net.Adds ∅ { net with generator := drawn.2 } :=
    ⟨fun _ => Iff.rfl, fun _ => by simp, rfl⟩
  exact next.quiet (round drawn.1 _)

theorem settle (fuel : Nat) (net : Network) : net.Adds ∅ (net.settle fuel).2 := by
  induction fuel generalizing net with
  | zero => exact refl
  | succ fuel ih =>
    simp only [Network.settle]
    split
    · exact step net
    · exact (step net).quiet (ih _)

theorem afterChange (net : Network) : net.Adds ∅ net.afterChange := by
  unfold Network.afterChange
  split
  · exact settle _ net
  · exact refl

end Adds

/-- A connection that can be made makes one link. -/
theorem adds_of_linkable {pair : Node × Node} (able : net.linkable? a b = some pair) :
    net.Adds {Edge.between a b} (net.connect a b).2 := by
  have linked : net.Adds {Edge.between a b} (net.play (.link a b)) := by
    refine ⟨fun x => ?_, fun e => ?_, ?_⟩
    · simp [play, able]
    · simp only [play, able, Std.ExtTreeMap.mem_insert, Std.compare_eq_iff_eq]
      rw [Set.mem_singleton_iff, or_comm, eq_comm]
    · simp [play, able]
  rw [connect_of_linkable able]
  exact (linked.quiet (.step _)).quiet (.afterChange _)

/-- Any two nodes that are not linked yet can be. -/
theorem exists_adds_of_connect (ha : a ∈ net.nodes) (hb : b ∈ net.nodes) (apart : a ≠ b)
    (free : net.isConnected a b = false) :
    ∃ net', net.connect a b = (.ok (), net') ∧ net.Adds {Edge.between a b} net' := by
  obtain ⟨na, foundA⟩ := mem_iff_exists_getElem?.mp ha
  obtain ⟨nb, foundB⟩ := mem_iff_exists_getElem?.mp hb
  have able : net.linkable? a b = some (na, nb) := by
    refine linkable_eq_some.mpr ⟨foundA, foundB, apart, ?_⟩
    intro linked
    exact Bool.false_ne_true (free.symm.trans (isConnected_eq_true.mpr linked))
  have adds := adds_of_linkable able
  rw [connect_of_linkable able] at adds ⊢
  exact ⟨_, rfl, adds⟩

/-- A node can be linked to other nodes one after the other, whoever it is linked to already. -/
theorem exists_adds_of_connectMissing {others : List NodeName} (here : name ∈ net.nodes)
    (there : ∀ other ∈ others, other ∈ net.nodes ∧ other ≠ name) :
    ∃ net', net.connectMissing name others = (.ok (), net') ∧
      net.Adds (spokes name {other | other ∈ others}) net' := by
  induction others generalizing net with
  | nil =>
    refine ⟨net, rfl, ?_⟩
    simpa [spokes] using Adds.refl
  | cons other rest ih =>
    obtain ⟨⟨present, apart⟩, later⟩ := List.forall_mem_cons.mp there
    rw [spokes_cons apart]
    cases linked : net.isConnected name other with
    | true =>
      obtain ⟨net', done, adds⟩ := ih here later
      refine ⟨net', ?_, adds.of_linked (isConnected_eq_true.mp linked)⟩
      rw [connectMissing, linked]
      exact done
    | false =>
      obtain ⟨next, connected, first⟩ :=
        exists_adds_of_connect here present apart.symm linked
      have there' : ∀ x ∈ rest, x ∈ next.nodes ∧ x ≠ name := by
        intro x mem
        exact (later x mem).imp_left (first.nodes x).mpr
      obtain ⟨net', done, adds⟩ := ih ((first.nodes name).mpr here) there'
      refine ⟨net', ?_, first.trans adds⟩
      rw [connectMissing, linked, connected]
      exact done

/-- No move makes a node vanish. -/
theorem mem_nodes_move {t : Traffic} {x : NodeName} (mem : x ∈ t.net.nodes) (m : Move) :
    x ∈ (t.move m).net.nodes := by
  cases m with
  | enroll name chainName => exact mem_nodes_addNodeOn mem
  | link a b =>
    simp only [Traffic.move, play]
    split
    · exact mem
    · exact mem
  | unlink dropped | arrange generator autoPropagate groups | collect order => exact mem
  | ask name request audience => exact mem_nodes_ask.mpr mem
  | hand =>
    obtain ⟨net, parcels⟩ := t
    cases parcels with
    | nil => exact mem
    | cons p rest =>
      rw [Traffic.move_hand]
      exact mem_nodes_ask.mpr mem

/-- Nor does any command. -/
theorem mem_nodes_obey {x : NodeName} (mem : x ∈ net.nodes) (command : Command) :
    x ∈ (net.obey command).nodes := by
  have moved : ∀ (moves : List Move) (t : Traffic), x ∈ t.net.nodes →
      x ∈ (t.moveAll moves).net.nodes := by
    intro moves
    induction moves with
    | nil => exact fun t mem => mem
    | cons m rest ih => exact fun t mem => ih (t.move m) (mem_nodes_move mem m)
  have after := moved (net.movesOf command) net.atRest mem
  rwa [Traffic.moveAll_movesOf] at after

end

end ChainLab.Network
