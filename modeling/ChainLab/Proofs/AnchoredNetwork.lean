import ChainLab.Proofs.ReachedState
import ChainLab.Proofs.Traffic

/-!
# Every node of a network is anchored in its own genesis

Nodes may be on different chains, linked in any way, and handed any blocks. A move asks one node at
most, so whatever holds of a node that is asked things holds of all nodes of a network: as long as
the hash tells chain names, genesis blocks and headers apart, the store of each node is a tree over
the genesis block of the node's own chain.
-/

namespace ChainLab

variable [Crypto] {strings : List (List UInt8)}

/-- Nothing is forgotten. -/
theorem Node.Anchored.within_handle {rules : Rules} {n : Node} (h : n.Anchored rules strings)
    (clean : NoCollision strings) (origin : rules.genesisString ∈ strings) {request : Request}
    (listed : ∀ b ∈ n.considered request, b.header.preimage ∈ strings) :
    Node.Within n (n.handle request) := by
  cases request with
  | push trx => exact (n.within_pushTransaction trx).1
  | produce => exact (h.produce clean origin (listed _ List.mem_cons_self)).2.within
  | receive b => exact (n.receive_eq_handle (.block b)).1 ▸ n.within_receive (.block b)

namespace Network

/-- The blocks that a node puts together or finds consistent when it is asked something. -/
def considered (net : Network) (name : NodeName) (request : Request) : List Block :=
  (net.nodes[name]?).toList.flatMap (·.considered request)

def Anchored (strings : List (List UInt8)) (net : Network) : Prop :=
  ∀ (name : NodeName) (n : Node), net.nodes[name]? = some n →
    n.Anchored n.rules strings ∧ n.rules.genesisString ∈ strings

end Network

/-- The name of the chain that a node was enrolled on, if it was. -/
def chainOf (moves : List Move) (name : NodeName) : Option String :=
  moves.findSome? fun
    | .enroll x chainName => if x = name then some chainName else none
    | _ => none

namespace Traffic

/-- The strings that are hashed in a move to identify chains and blocks: the name and the genesis
block of a chain that a node is enrolled on, and the headers of the blocks that are considered. -/
def hashed (t : Traffic) : Move → List (List UInt8)
  | .enroll name chainName =>
    if name ∈ t.net.nodes then []
    else
      let chainName := chainName.toUTF8.toList
      [chainName, Rules.genesisString ⟨Crypto.hash chainName, t.net.config⟩]
  | .ask name request _ => (t.net.considered name request).map (·.header.preimage)
  | .hand =>
    match t.parcels with
    | [] => []
    | p :: _ => (t.net.considered p.receiver p.item.request).map (·.header.preimage)
  | .link _ _ | .unlink _ | .arrange _ _ _ | .collect _ => []

def hashedIn (t : Traffic) : List Move → List (List UInt8)
  | [] => []
  | m :: rest => t.hashed m ++ (t.move m).hashedIn rest

variable {t : Traffic} {m : Move} {name : NodeName} {n n' : Node}

/-- Where a node that is there after a move comes from. -/
inductive Left (t : Traffic) (m : Move) (name : NodeName) : Node → Prop
  | untouched {n : Node} : t.net.nodes[name]? = some n → Left t m name n
  | asked {n : Node} {request : Request} : t.net.nodes[name]? = some n →
    (∀ b ∈ n.considered request, b.header.preimage ∈ t.hashed m) →
      Left t m name (n.handle request)
  | enrolled {chainName : String} : t.net.nodes[name]? = none → m = .enroll name chainName →
      Left t m name (.make name chainName t.net.config)

theorem left_of_ask {request : Request} {audience : Audience} {x : NodeName}
    (listed : ∀ b ∈ t.net.considered x request, b.header.preimage ∈ t.hashed m)
    (found : (t.net.ask x request audience).nodes[name]? = some n') : Left t m name n' := by
  rw [Network.getElem?_ask] at found
  split at found
  next here =>
    subst here
    obtain ⟨n, before, rfl⟩ := Option.map_eq_some_iff.mp found
    exact .asked before fun b hb => listed b (by simpa [Network.considered, before] using hb)
  next => exact .untouched found

theorem left_move (found : (t.move m).net.nodes[name]? = some n') : Left t m name n' := by
  have spelled : ∀ {blocks : List Block}, ∀ b ∈ blocks,
      b.header.preimage ∈ blocks.map (·.header.preimage) := fun _ => List.mem_map_of_mem
  cases m with
  | enroll x chainName =>
    simp only [move, Network.addNodeOn] at found
    split at found
    · exact .untouched found
    next fresh =>
      rw [Watched.getElem?_setNode] at found
      split at found
      next here =>
        cases found
        subst here
        exact .enrolled (Std.ExtTreeMap.getElem?_eq_none fresh) rfl
      next => exact .untouched found
  | link a b =>
    refine .untouched ?_
    simp only [move, Network.play] at found
    split at found <;> exact found
  | unlink | arrange | collect => exact .untouched found
  | ask x request audience => exact left_of_ask spelled found
  | hand =>
    obtain ⟨net, parcels⟩ := t
    cases parcels with
    | nil => exact .untouched found
    | cons p rest =>
      rw [move_hand] at found
      exact left_of_ask spelled found

/-- Once there, a node stays, and so do the rules it plays by. -/
theorem exists_node_move (found : t.net.nodes[name]? = some n) :
    ∃ n', (t.move m).net.nodes[name]? = some n' ∧ n'.rules = n.rules := by
  have asked : ∀ {net : Network} {x : NodeName} {request : Request} {audience : Audience},
      net.nodes[name]? = some n →
        ∃ n', (net.ask x request audience).nodes[name]? = some n' ∧ n'.rules = n.rules := by
    intro net x request audience found
    rw [Network.getElem?_ask, found]
    split
    · exact ⟨_, rfl, Node.rules_handle n request⟩
    · exact ⟨n, rfl, rfl⟩
  cases m with
  | enroll x chainName =>
    simp only [move, Network.addNodeOn]
    split
    · exact ⟨n, found, rfl⟩
    next fresh =>
      have other : x ≠ name := fun same => fresh (same ▸ Watched.mem_nodes_of_getElem? found)
      exact ⟨n, by rw [Watched.getElem?_setNode, if_neg other, found], rfl⟩
  | link a b =>
    refine ⟨n, ?_, rfl⟩
    simp only [move, Network.play]
    split <;> exact found
  | unlink | arrange | collect => exact ⟨n, found, rfl⟩
  | ask x request audience => exact asked found
  | hand =>
    obtain ⟨net, parcels⟩ := t
    cases parcels with
    | nil => exact ⟨n, found, rfl⟩
    | cons p rest =>
      rw [move_hand]
      exact asked found

/-- Whoever is enrolled is there, if only because it was before. -/
theorem exists_node_enroll (t : Traffic) (name : NodeName) (chainName : String) :
    ∃ n, (t.move (.enroll name chainName)).net.nodes[name]? = some n := by
  simp only [move, Network.addNodeOn]
  split
  next old => exact mem_iff_exists_getElem?.mp old
  next => exact ⟨_, by rw [Watched.getElem?_setNode, if_pos rfl]⟩

theorem mem_hashed_enroll {chainName : String} (fresh : t.net.nodes[name]? = none) :
    chainName.toUTF8.toList ∈ t.hashed (.enroll name chainName) ∧
      Rules.genesisString ⟨Crypto.hash chainName.toUTF8.toList, t.net.config⟩ ∈
        t.hashed (.enroll name chainName) := by
  have absent : name ∉ t.net.nodes := by
    rw [Std.ExtTreeMap.mem_iff_isSome_getElem?, fresh]
    exact Bool.false_ne_true
  simp [hashed, absent]

/-- One move leaves every node anchored. -/
theorem anchored_move (clean : NoCollision strings) (h : t.net.Anchored strings)
    (listed : t.hashed m ⊆ strings) : (t.move m).net.Anchored strings := by
  intro name n' found
  cases left_move found with
  | untouched before => exact h name n' before
  | @asked n request before spelled =>
    obtain ⟨anchored, origin⟩ := h name n before
    rw [Node.rules_handle]
    exact ⟨anchored.handle clean origin request fun b hb => listed (spelled b hb), origin⟩
  | enrolled fresh same =>
    subst same
    exact ⟨.make name _ t.net.config, listed (mem_hashed_enroll fresh).2⟩

/-- No node forgets a block. -/
theorem within_move (clean : NoCollision strings) (h : t.net.Anchored strings)
    (listed : t.hashed m ⊆ strings) (found : t.net.nodes[name]? = some n)
    (found' : (t.move m).net.nodes[name]? = some n') : Node.Within n n' := by
  cases left_move found' with
  | untouched before =>
    cases before.symm.trans found
    exact .refl
  | asked before spelled =>
    cases before.symm.trans found
    obtain ⟨anchored, origin⟩ := h name n found
    exact anchored.within_handle clean origin fun b hb => listed (spelled b hb)
  | enrolled fresh _ => cases fresh.symm.trans found

theorem anchored_moveAll {moves : List Move} (clean : NoCollision strings)
    (h : t.net.Anchored strings) (listed : t.hashedIn moves ⊆ strings) :
    (t.moveAll moves).net.Anchored strings := by
  induction moves generalizing t with
  | nil => exact h
  | cons m rest ih =>
    obtain ⟨first, later⟩ := List.append_subset.mp listed
    exact ih (anchored_move clean h first) later

theorem exists_node_moveAll (moves : List Move) (found : t.net.nodes[name]? = some n) :
    ∃ n', (t.moveAll moves).net.nodes[name]? = some n' ∧ n'.rules = n.rules := by
  induction moves generalizing t n with
  | nil => exact ⟨n, found, rfl⟩
  | cons m rest ih =>
    obtain ⟨n₁, found₁, same⟩ := exists_node_move (m := m) found
    obtain ⟨n', found', same'⟩ := ih found₁
    exact ⟨n', found', same'.trans same⟩

end Traffic

end ChainLab
