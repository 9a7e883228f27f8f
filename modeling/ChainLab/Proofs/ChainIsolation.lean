import ChainLab.Proofs.AnchoredNetwork

/-!
# Chains are isolated

The identifier of a block commits to its header, so to the block it names as its parent, and the
identifier of a genesis block to its chain. Every block that a node knows rests on the genesis block
of the node's chain. So two nodes that know the same block are on the same chain, however they are
linked and whatever they are handed.
-/

namespace ChainLab

section

variable [Crypto] {strings : List (List UInt8)}

/-- The genesis block commits to the chain. -/
theorem Rules.chainId_eq_of_genesisString_eq {r r' : Rules}
    (same : r.genesisString = r'.genesisString) : r.chainId = r'.chainId := by
  have fields := readable_genesis.eq_of_eq
    (a := (r.chainId, Crypto.hash (ChainState.genesisPreimage r.config.genesisAccount),
      r.config.genesisTime))
    (b := (r'.chainId, Crypto.hash (ChainState.genesisPreimage r'.config.genesisAccount),
      r'.config.genesisTime)) trivial trivial same
  exact (Prod.mk.inj fields).1

namespace Node

variable {r r' : Rules} {n n' : Node} {id : BlockId} {b : Block} {bs : List Block}

theorem Anchored.ne_genesisId (h : n.Anchored r strings) (clean : NoCollision strings)
    (h' : n'.Anchored r' strings) (origin' : r'.genesisString ∈ strings)
    (stored : n.blocks[id]? = some b) : id ≠ n'.genesisId := by
  rw [genesisId, h'.genesis_eq, ← h.keyed id b stored]
  exact (h.named id b stored).ne_genesis clean origin'

/-- A block that two nodes know leads both of them to one genesis block. The induction is on the
path down from it in the one node, which the other has to know block by block. -/
theorem Path.chainId_eq (path : n.Path id bs) (h : n.Anchored r strings)
    (clean : NoCollision strings) (origin : r.genesisString ∈ strings)
    (h' : n'.Anchored r' strings) (origin' : r'.genesisString ∈ strings)
    (known : n'.knowsBlock id = true) : r.chainId = r'.chainId := by
  induction path with
  | genesis =>
    rcases knowsBlock_iff.mp known with same | ⟨c, stored⟩
    · rw [genesisId, genesisId, h.genesis_eq, h'.genesis_eq] at same
      have strings := clean.apart _ origin _ origin' (BlockId.mk.inj same)
      exact Rules.chainId_eq_of_genesisString_eq strings
    · exact absurd rfl (h'.ne_genesisId clean h origin stored)
  | @up id b bs _ stored _ ih =>
    rcases knowsBlock_iff.mp known with root | ⟨c, stored'⟩
    · exact absurd root (h.ne_genesisId clean h' origin' stored)
    · have same : b.id = c.id := (h.keyed id b stored).trans (h'.keyed id c stored').symm
      have header := (h.named id b stored).header_eq clean (h'.named id c stored') same
      have below := h'.linked stored'
      rw [Block.previous, ← header] at below
      exact ih below

theorem Anchored.chainId_eq (h : n.Anchored r strings) (clean : NoCollision strings)
    (origin : r.genesisString ∈ strings) (h' : n'.Anchored r' strings)
    (origin' : r'.genesisString ∈ strings) (known : n.knowsBlock id = true)
    (known' : n'.knowsBlock id = true) : r.chainId = r'.chainId := by
  obtain ⟨bs, path⟩ := h.path id known
  exact path.chainId_eq h clean origin h' origin' known'

end Node

namespace Traffic

variable {t : Traffic} {name : NodeName} {n : Node} {moves : List Move}

/-- A node that came in a run is on the chain that it was enrolled on. -/
theorem chainId_of_chainOf (absent : t.net.nodes[name]? = none)
    (found : (t.moveAll moves).net.nodes[name]? = some n) :
    ∃ chainName, chainOf moves name = some chainName ∧
      n.rules.chainId = Crypto.hash chainName.toUTF8.toList ∧
      chainName.toUTF8.toList ∈ t.hashedIn moves := by
  induction moves generalizing t with
  | nil =>
    cases absent.symm.trans found
  | cons m rest ih =>
    cases next : (t.move m).net.nodes[name]? with
    | some n₁ =>
      cases left_move next with
      | untouched before => cases absent.symm.trans before
      | asked before => cases absent.symm.trans before
      | @enrolled chainName _ same =>
        subst same
        obtain ⟨n', found', rules⟩ := exists_node_moveAll rest next
        cases found'.symm.trans found
        refine ⟨chainName, by simp [chainOf], congrArg Rules.chainId rules, ?_⟩
        exact List.mem_append_left _ (mem_hashed_enroll absent).1
    | none =>
      obtain ⟨chainName, first, chainId, listed⟩ := ih next found
      refine ⟨chainName, ?_, chainId, List.mem_append_right _ listed⟩
      rw [← first, chainOf, List.findSome?_cons]
      cases m with
      | enroll x chain =>
        have other : x ≠ name := by
          rintro rfl
          obtain ⟨n₁, there⟩ := exists_node_enroll t x chain
          cases next.symm.trans there
        simp [other, chainOf]
      | link | unlink | arrange | ask | collect | hand => rfl

end Traffic

/-- Whatever is done with a network comes down to moves, and after any moves at all, those in the
middle of a round included: every node is on the chain that it was enrolled on, and no block is
known to two nodes that were enrolled on different chains. -/
theorem knowsBlock_disjoint_of_chainOf_ne (config : ScenarioConfig) (seed : BitVec 128) :
    let net := Network.make config seed
    (∀ commands, net.atRest.moveAll (net.moves commands) = (net.obeyAll commands).atRest) ∧
      ∀ moves, NoCollision (net.atRest.hashedIn moves) →
        let after := (net.atRest.moveAll moves).net
        (∀ (a : NodeName) (na : Node), after.nodes[a]? = some na → ∃ chainName,
          chainOf moves a = some chainName ∧
            na.rules.chainId = Crypto.hash chainName.toUTF8.toList) ∧
        ∀ (a b : NodeName) (na nb : Node), after.nodes[a]? = some na → after.nodes[b]? = some nb →
          chainOf moves a ≠ chainOf moves b →
          ∀ id, ¬(na.knowsBlock id = true ∧ nb.knowsBlock id = true) := by
  intro net
  refine ⟨fun commands => Traffic.moveAll_moves, ?_⟩
  intro moves clean after
  have nobody : ∀ name : NodeName, net.atRest.net.nodes[name]? = none := fun name => by
    simp [net, Network.make]
  have anchored : after.Anchored (net.atRest.hashedIn moves) := by
    refine Traffic.anchored_moveAll clean (fun name n found => ?_) (List.Subset.refl _)
    cases (nobody name).symm.trans found
  have placed : ∀ (a : NodeName) (na : Node), after.nodes[a]? = some na → ∃ chainName,
      chainOf moves a = some chainName ∧ na.rules.chainId = Crypto.hash chainName.toUTF8.toList ∧
        chainName.toUTF8.toList ∈ net.atRest.hashedIn moves :=
    fun a na ha => Traffic.chainId_of_chainOf (nobody a) ha
  refine ⟨fun a na ha => ?_, ?_⟩
  · obtain ⟨chainName, enrolled, chainId, -⟩ := placed a na ha
    exact ⟨chainName, enrolled, chainId⟩
  · rintro a b na nb ha hb apart id ⟨knownA, knownB⟩
    obtain ⟨anchoredA, originA⟩ := anchored a na ha
    obtain ⟨anchoredB, originB⟩ := anchored b nb hb
    obtain ⟨c, enrolledA, chainA, listedA⟩ := placed a na ha
    obtain ⟨d, enrolledB, chainB, listedB⟩ := placed b nb hb
    have same := anchoredA.chainId_eq clean originA anchoredB originB knownA knownB
    rw [chainA, chainB] at same
    have names := toList_toUTF8_inj (clean.apart _ listedA _ listedB same)
    exact apart (by rw [enrolledA, enrolledB, names])

end

section sample

attribute [local instance] checksum

/-- Two linked nodes on different chains, each of which makes a block. The block of the first is
offered to the second over the link and by hand. -/
def sampleStrangers : List Command :=
  [.operate (.addNode "a"), .addNodeOn "x" "other", .operate (.connect "a" "x"),
    .operate (.produceBlock "a"), .reach "x" .produce, .operate .step,
    .reach "x" (.receive (Node.make "a" "lab" sampleConfig).produceBlock.1)]

theorem knowsBlock_disjoint_of_chainOf_ne_sample :
    let net := Network.make Watched.sampleNetwork 7
    ∃ na nx, (net.obeyAll sampleStrangers).nodes["a"]? = some na ∧
      (net.obeyAll sampleStrangers).nodes["x"]? = some nx ∧ na.headNum = 1 ∧ nx.headNum = 1 ∧
      ∀ id, ¬(na.knowsBlock id = true ∧ nx.knowsBlock id = true) := by
  intro net
  have facts :
      let moves := net.moves sampleStrangers
      let distinct := (net.atRest.hashedIn moves).eraseDups
      (∀ s ∈ distinct, s.length < UInt64.size) ∧ (distinct.map Crypto.hash).Nodup ∧
        chainOf moves "a" ≠ chainOf moves "x" ∧
        ((net.obeyAll sampleStrangers).nodes["a"]?).map (·.headNum) = some 1 ∧
        ((net.obeyAll sampleStrangers).nodes["x"]?).map (·.headNum) = some 1 := by
    decide +kernel
  obtain ⟨short, apart, strangers, heightA, heightX⟩ := facts
  obtain ⟨na, ha, numA⟩ := Option.map_eq_some_iff.mp heightA
  obtain ⟨nx, hx, numX⟩ := Option.map_eq_some_iff.mp heightX
  obtain ⟨spelled, isolated⟩ := knowsBlock_disjoint_of_chainOf_ne Watched.sampleNetwork 7
  have clean := noCollision_of_nodup short apart fun _ => List.mem_eraseDups.mpr
  have after : (net.atRest.moveAll (net.moves sampleStrangers)).net =
      net.obeyAll sampleStrangers := by
    rw [spelled, Network.net_atRest]
  obtain ⟨-, disjoint⟩ := isolated _ clean
  refine ⟨na, nx, ha, hx, numA, numX, disjoint "a" "x" na nx ?_ ?_ strangers⟩
  · rw [after]
    exact ha
  · rw [after]
    exact hx

end sample

end ChainLab
