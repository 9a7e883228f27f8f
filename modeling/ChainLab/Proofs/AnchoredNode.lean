import ChainLab.Proofs.PendingState
import ChainLab.Proofs.StorePath

/-!
# The head is a leaf of the store

As long as the hash tells the headers of blocks apart, whatever a node was handed: each
stored block rests on stored blocks down to genesis, the head state is the state after the
stored blocks below the head, and no stored block rests on the head. So a block that the
node makes is new to it, whatever numbers the blocks in the store claim to have.
-/

namespace ChainLab

section

variable [Crypto] {rules : Rules} {strings : List (List UInt8)}

namespace ChainState

variable {s t : ChainState} {b : Block} {bs cs : List Block}

/-- The state after a branch whose blocks are numbered one after the other, as far as
32 bits count. -/
inductive Stacked (rules : Rules) : List Block → ChainState → Prop
  | genesis : Stacked rules [] (ChainState.genesis rules)
  | block {bs : List Block} {s : ChainState} {b : Block} {s' : ChainState} :
    Stacked rules bs s → b.num = s.head.num + 1 → Follows rules s b s' →
      Stacked rules (b :: bs) s'

namespace Stacked

theorem grown (h : Stacked rules bs s) : Grown rules bs s := by
  induction h with
  | genesis => exact .genesis
  | block _ _ last ih => exact ih.block last

theorem head_eq (h : Stacked rules (b :: bs) s) : s.head = b.header := by
  cases h with
  | block _ _ last => exact last.head_eq

theorem size_chain (h : Stacked rules bs s) : s.chain.size = bs.length + 1 := by
  simpa using congrArg List.length h.grown.chain_eq

theorem num_eq (h : Stacked rules bs s) : s.head.num = UInt32.ofNat bs.length := by
  induction h with
  | genesis => rfl
  | block _ next last ih =>
    rw [last.head_eq, ← Block.num, next, ih, List.length_cons, UInt32.ofNat_add]
    rfl

/-- A branch that is replayed on top of another one is stacked on it. -/
theorem replay (h : Stacked rules bs s) (replays : Node.replay rules s cs = .ok t) :
    Stacked rules (cs.reverse ++ bs) t := by
  induction cs generalizing s bs with
  | nil =>
    cases replays
    exact h
  | cons c cs ih =>
    simp only [Node.replay, bind_eq_ok] at replays
    obtain ⟨u, once, later⟩ := replays
    obtain ⟨-, next, -⟩ := applyBlock_eq_ok.mp once
    simpa using ih (h.block next (follows_of_applyBlock once)) later

end Stacked

end ChainState

namespace Node

variable {n n' : Node} {b : Block} {bs : List Block}

/-- The blocks that a request makes the node put together or find consistent. -/
def considered (n : Node) : Request → List Block
  | .push _ => []
  | .produce => [n.produceBlock.1]
  | .receive b => if n.knowsBlock b.id || !b.isConsistent then [] else [b]

def consideredIn (n : Node) : List Request → List Block
  | [] => []
  | request :: rest => n.considered request ++ (n.handle request).consideredIn rest

/-- The strings that are hashed in the life of a node to tell blocks apart by their
identifiers: one for the genesis block and one for the header of each block considered. -/
def headersInLife (name : NodeName) (chainName : String) (config : ChainConfig)
    (requests : List Request) : List (List UInt8) :=
  Rules.genesisString ⟨Crypto.hash chainName.toUTF8.toList, config⟩ ::
    ((make name chainName config).consideredIn requests).map (·.header.preimage)

/-- What is true of the store and the head of a node, whatever it was handed. -/
structure Anchored (rules : Rules) (strings : List (List UInt8)) (n : Node) : Prop where
  rules_eq : n.rules = rules
  genesis_eq : n.genesis = ChainState.genesis rules
  bottom : n.blocks[n.genesisId]? = none
  keyed : n.Keyed
  named : ∀ (id : BlockId) (b : Block), n.blocks[id]? = some b → b.Named strings
  path : ∀ id : BlockId, n.knowsBlock id = true → ∃ bs, n.Path id bs
  leaf : ∀ (id : BlockId) (b : Block), n.blocks[id]? = some b → b.previous ≠ n.headId
  head : ∃ bs, n.Path n.headId bs ∧ ChainState.Stacked rules bs n.headState

/-- A node comes to know a block, and leaves its head where it is, not below that block, or
moves it on to that block. -/
structure Joins (n : Node) (b : Block) (n' : Node) : Prop extends Learned n b n' where
  rules_eq : n'.rules = n.rules
  head : (b.previous ≠ n.headId ∧ n'.headState = n.headState) ∨
    ∃ bs, n.Path b.previous bs ∧ ChainState.Stacked n.rules (b :: bs) n'.headState

namespace Anchored

theorem make (name : NodeName) (chainName : String) (config : ChainConfig) :
    Anchored ⟨Crypto.hash chainName.toUTF8.toList, config⟩ strings
      (make name chainName config) where
  rules_eq := rfl
  genesis_eq := rfl
  bottom := by simp [Node.make]
  keyed id b stored := by simp [Node.make] at stored
  named id b stored := by simp [Node.make] at stored
  path id known := by
    rcases knowsBlock_iff.mp known with rfl | ⟨b, stored⟩
    · exact ⟨[], .genesis⟩
    · simp [Node.make] at stored
  leaf id b stored := by simp [Node.make] at stored
  head := ⟨[], .genesis, .genesis⟩

/-- Only the store and the head matter. -/
theorem congr (h : Anchored rules strings n) (sameRules : n'.rules = n.rules)
    (sameGenesis : n'.genesis = n.genesis) (sameBlocks : n'.blocks = n.blocks)
    (sameHead : n'.headState = n.headState) : Anchored rules strings n' := by
  have within : Within n n' := ⟨sameGenesis, fun id b stored => by rw [sameBlocks, stored]⟩
  have headId : n'.headId = n.headId := congrArg (·.head.id) sameHead
  refine ⟨sameRules.trans h.rules_eq, sameGenesis.trans h.genesis_eq, ?_, ?_, ?_, ?_, ?_, ?_⟩
  · rw [sameBlocks, within.genesisId_eq]
    exact h.bottom
  · rw [Keyed, sameBlocks]
    exact h.keyed
  · rw [sameBlocks]
    exact h.named
  · exact exists_path_congr sameGenesis sameBlocks h.path
  · rw [sameBlocks, headId]
    exact h.leaf
  · obtain ⟨bs, path, stacked⟩ := h.head
    rw [headId, sameHead]
    exact ⟨bs, path.mono within, stacked⟩

theorem head_known (h : Anchored rules strings n) : n.knowsBlock n.headId = true := by
  obtain ⟨bs, path, -⟩ := h.head
  exact path.known

theorem linked (h : Anchored rules strings n) {id : BlockId} (stored : n.blocks[id]? = some b) :
    n.knowsBlock b.previous = true := by
  refine linked_of_path h.path ?_ stored
  rintro rfl
  rw [h.bottom] at stored
  cases stored

/-- A block that joins leaves the head a leaf: the blocks there were do not rest on it, as
it was unknown, and it does not rest on the head unless it is the head now. -/
theorem joins (h : Anchored rules strings n) (joined : Joins n b n') (named : b.Named strings) :
    Anchored rules strings n' where
  rules_eq := joined.rules_eq.trans h.rules_eq
  genesis_eq := joined.genesis_eq.trans h.genesis_eq
  bottom := by
    obtain ⟨apart, -⟩ := knowsBlock_eq_false_iff.mp joined.unknown
    rw [joined.within.genesisId_eq, joined.blocks_eq, getElem?_withBlock, if_neg apart]
    exact h.bottom
  keyed := h.keyed.learned joined.toLearned
  named := joined.forall_stored h.named named
  path := joined.exists_path h.path
  leaf := by
    rcases joined.head with ⟨offHead, same⟩ | ⟨bs, -, stacked⟩
    · rw [headId, same]
      exact joined.forall_stored h.leaf offHead
    · rw [headId, stacked.head_eq]
      refine joined.forall_stored ?_ (joined.ne_of_known joined.linked)
      intro id c stored
      exact joined.ne_of_known (h.linked stored)
  head := by
    rcases joined.head with ⟨-, same⟩ | ⟨bs, path, stacked⟩
    · obtain ⟨bs, path, stacked⟩ := h.head
      rw [headId, same]
      exact ⟨bs, path.mono joined.within, stacked⟩
    · have tip : n'.headId = b.id := by rw [headId, stacked.head_eq, Block.id]
      rw [h.rules_eq] at stacked
      rw [tip]
      exact ⟨b :: bs, joined.path path, stacked⟩

/-- A branch that is replayed up to a new block is numbered throughout. -/
theorem stacked_of_replayTo (h : Anchored rules strings n) (unknown : n.knowsBlock b.id = false)
    (path : n.Path b.previous bs) {s : ChainState}
    (replays : (n.withBlock b).replayTo b.id = .ok s) : ChainState.Stacked rules (b :: bs) s := by
  rw [Node.replayTo_withBlock h.keyed unknown path, h.genesis_eq, h.rules_eq] at replays
  have stacked := ChainState.Stacked.genesis.replay replays
  rwa [List.reverse_reverse, List.append_nil] at stacked

/-- A block from a peer leaves no trace or joins. -/
theorem receive (h : Anchored rules strings n)
    (listed : n.knowsBlock b.id = false → b.isConsistent = true → b.header.preimage ∈ strings) :
    (n.applyBlock b).2 = n ∨ (b.Named strings ∧ Joins n b (n.applyBlock b).2) := by
  have received := received n b
  generalize n.applyBlock b = r at received
  cases received with
  | known | malformed | unlinked | refused | abandoned => exact .inl rfl
  | @extended unknown onHead state applies =>
    obtain ⟨-, next, -, consistent, -⟩ := ChainState.applyBlock_eq_ok.mp applies
    have linked : n.knowsBlock b.previous = true := onHead ▸ h.head_known
    obtain ⟨bs, path, stacked⟩ := h.head
    rw [← h.rules_eq] at stacked
    have higher := stacked.block next (ChainState.follows_of_applyBlock applies)
    exact .inr ⟨⟨consistent, listed unknown consistent⟩, ⟨rfl, rfl, unknown, linked⟩, rfl,
      .inr ⟨bs, onHead ▸ path, higher⟩⟩
  | stored unknown consistent linked offHead =>
    exact .inr ⟨⟨consistent, listed unknown consistent⟩, ⟨rfl, rfl, unknown, linked⟩, rfl,
      .inl ⟨offHead, rfl⟩⟩
  | @switched unknown consistent linked _ _ state replays =>
    obtain ⟨bs, path⟩ := h.path _ linked
    have stacked := h.stacked_of_replayTo unknown path replays
    rw [← h.rules_eq] at stacked
    exact .inr ⟨⟨consistent, listed unknown consistent⟩, ⟨rfl, rfl, unknown, linked⟩, rfl,
      .inr ⟨bs, path, stacked⟩⟩

/-- A block that the node makes joins: it rests on the head, so no stored block is the same. -/
theorem produce (h : Anchored rules strings n) (clean : NoCollision strings)
    (origin : rules.genesisString ∈ strings)
    (listed : n.produceBlock.1.header.preimage ∈ strings) :
    n.produceBlock.1.Named strings ∧ Joins n n.produceBlock.1 n.produceBlock.2 := by
  have follows := follows_produceBlock (n := n)
  have named : n.produceBlock.1.Named strings := ⟨follows.consistent, listed⟩
  have linked : n.knowsBlock n.produceBlock.1.previous = true := follows.link ▸ h.head_known
  have unknown : n.knowsBlock n.produceBlock.1.id = false := by
    refine knowsBlock_eq_false_iff.mpr ⟨?_, Option.eq_none_iff_forall_ne_some.mpr ?_⟩
    · rw [genesisId, h.genesis_eq]
      exact named.ne_genesis clean origin
    -- A stored block of that identifier would have its header, and rest on the head as well.
    · intro c stored
      have header := (h.named _ c stored).header_eq clean named (h.keyed _ c stored)
      refine h.leaf _ c stored ?_
      rw [Block.previous, header]
      exact follows.link
  obtain ⟨bs, path, stacked⟩ := h.head
  rw [← h.rules_eq] at stacked
  exact ⟨named, ⟨rfl, rfl, unknown, linked⟩, rfl,
    .inr ⟨bs, follows.link ▸ path, stacked.block rfl follows⟩⟩

variable (clean : NoCollision strings) (origin : rules.genesisString ∈ strings)

include clean origin

theorem handle (h : Anchored rules strings n) (request : Request)
    (listed : ∀ b ∈ n.considered request, b.header.preimage ∈ strings) :
    Anchored rules strings (n.handle request) := by
  cases request with
  | push trx =>
    simp only [Node.handle, pushTransaction]
    split
    · exact h
    · exact h.congr rfl rfl rfl rfl
  | produce =>
    obtain ⟨named, joined⟩ := h.produce clean origin (listed _ List.mem_cons_self)
    exact h.joins joined named
  | receive b =>
    have spelled : n.knowsBlock b.id = false → b.isConsistent = true →
        b.header.preimage ∈ strings := by
      intro unknown consistent
      exact listed b (by simp [considered, unknown, consistent])
    rcases h.receive spelled with same | ⟨named, joined⟩
    · rw [Node.handle, same]
      exact h
    · exact h.joins joined named

/-- Any run leaves the store a tree and the head a leaf of it. -/
theorem run (h : Anchored rules strings n) (requests : List Request)
    (listed : ∀ b ∈ n.consideredIn requests, b.header.preimage ∈ strings) :
    Anchored rules strings (n.run requests) := by
  induction requests generalizing n with
  | nil => exact h
  | cons request rest ih =>
    obtain ⟨first, later⟩ := List.forall_mem_append.mp listed
    exact ih (h.handle clean origin request first) later

end Anchored

theorem anchored_run {name : NodeName} {chainName : String} {config : ChainConfig}
    {requests : List Request}
    (clean : NoCollision (headersInLife name chainName config requests)) :
    Anchored ⟨Crypto.hash chainName.toUTF8.toList, config⟩
      (headersInLife name chainName config requests)
      ((make name chainName config).run requests) := by
  refine (Anchored.make name chainName config).run clean List.mem_cons_self requests ?_
  intro b mem
  exact List.mem_cons_of_mem _ (List.mem_map_of_mem mem)

/-- Where the head is numbered by how many blocks are below it, the blocks of the current
chain are those that the head state is stacked of. -/
theorem Anchored.chainBlocks_eq (h : Anchored rules strings n) (counted : n.headState.Counted) :
    ∃ bs, n.Path n.headId bs ∧ ChainState.Stacked rules bs n.headState ∧
      n.chainBlocks = bs.reverse := by
  obtain ⟨bs, path, stacked⟩ := h.head
  refine ⟨bs, path, stacked, path.chainBlocks_eq h.keyed ?_ ?_⟩
  · rw [genesisId, h.genesis_eq]
    exact stacked.grown.chain_eq
  · exact Nat.succ.inj (counted.symm.trans stacked.size_chain)

end Node

end

end ChainLab
