import ChainLab.Proofs.AnchoredNode
import ChainLab.Proofs.LongestBranch

/-!
# The store of a node is a tree with the head as a leaf

Peers choose what a block names as its parent, so the walk from a block to genesis follows
pointers that nobody vouches for. A node stores a block only on top of a known one, and
under an identifier that commits to its header. So the walk always comes down to genesis,
and the blocks of the current chain are those it collects from the head.
-/

namespace ChainLab

section

variable [Crypto] {rules : Rules}

namespace ChainState

variable {s : ChainState} {bs : List Block}

namespace Stacked

/-- Blocks that are stacked up are numbered from one on. -/
theorem map_num (h : Stacked rules bs s) (range : bs.length < UInt32.size) :
    bs.reverse.map (·.num.toNat) = List.range' 1 bs.length := by
  induction h with
  | genesis => rfl
  | @block bs s b s' lower next _ ih =>
    have below : bs.length < UInt32.size := Nat.lt_of_succ_lt range
    have num : b.num = UInt32.ofNat (1 + bs.length) := by
      rw [next, lower.num_eq, Nat.add_comm, UInt32.ofNat_add]
      rfl
    have last : b.num.toNat = 1 + bs.length := by
      rw [num, UInt32.toNat_ofNat_of_lt' (Nat.add_comm 1 _ ▸ range)]
    rw [List.reverse_cons, List.map_append, ih below, List.length_cons, List.range'_concat]
    simp [last]

end Stacked

/-- Each block of a branch names the one before it, the first one the genesis block. -/
theorem Grown.links (h : Grown rules bs s) :
    (ChainState.genesis rules).head.id :: bs.reverse.map (·.id) =
      bs.reverse.map (·.previous) ++ [s.head.id] := by
  induction h with
  | genesis => rfl
  | @block bs s b s' _ last ih =>
    rw [List.reverse_cons, List.map_append, List.map_append, ← List.cons_append, ih,
      last.head_eq, List.map_singleton, List.map_singleton, last.link, Block.id]

end ChainState

namespace Node

variable {n : Node} {id : BlockId} {b : Block} {bs : List Block} {s : ChainState}

omit [Crypto] in
theorem Path.genesisId_not_mem (keyed : n.Keyed) (h : n.Path id bs) :
    n.genesisId ∉ bs.map (·.id) := by
  induction h with
  | genesis => simp
  | @up id b bs apart stored _ ih =>
    rw [List.map_cons, List.mem_cons, keyed id b stored]
    exact not_or_intro (Ne.symm apart) ih

/-- The path of a block leads to that block, if it can be replayed. -/
theorem Path.head_of_replay (keyed : n.Keyed) (h : n.Path id bs)
    (replays : replay rules n.genesis bs.reverse = .ok s) : s.head.id = id := by
  cases h with
  | genesis =>
    cases replays
    rfl
  | up _ stored _ =>
    obtain ⟨u, -, applies⟩ := replay_reverse_cons_eq_ok.mp replays
    rw [(ChainState.follows_of_applyBlock applies).head_eq]
    exact keyed _ _ stored

/-- Where a replay of a path stops, it is at a block that is invalid. -/
theorem Path.eq_invalidBlock_of_replay (keyed : n.Keyed) (h : n.Path id bs) {error : ChainError}
    (fails : replay rules n.genesis bs.reverse = .error error) :
    ∃ b ∈ bs, ∃ reason, error = .invalidBlock b.id reason := by
  induction h with
  | genesis => cases fails
  | @up id b bs _ _ below ih =>
    rcases replay_reverse_cons_eq_error.mp fails with before | ⟨u, leads, refuses⟩
    · obtain ⟨c, mem, invalid⟩ := ih before
      exact ⟨c, List.mem_cons_of_mem _ mem, invalid⟩
    -- What is below leads to the block's parent, so its contents must be at fault.
    · have link := (below.head_of_replay keyed leads).symm
      exact ⟨b, List.mem_cons_self, ChainState.eq_invalidBlock_of_applyBlock link refuses⟩

/-- From a block there is a way to genesis that comes back to no block. The walk that
collects it ends, and a replay of it never misses a parent: all that can be wrong is what is
in a block on the way. -/
def Grounded (n : Node) (id : BlockId) : Prop :=
  ∃ bs, n.Path id bs ∧ (n.genesisId :: bs.map (·.id)).Nodup ∧
    (∀ fuel, n.blocks.size < fuel → n.branch fuel id [] = .ok bs.reverse) ∧
    ∀ error, n.replayTo id = .error error → ∃ b ∈ bs, ∃ reason, error = .invalidBlock b.id reason

theorem Path.grounded (keyed : n.Keyed) (h : n.Path id bs) : n.Grounded id := by
  refine ⟨bs, h, List.nodup_cons.mpr ⟨h.genesisId_not_mem keyed, h.nodup keyed⟩, ?_, ?_⟩
  · intro fuel enough
    rw [branch_of_path h (Nat.lt_of_le_of_lt (h.length_le keyed) enough), List.append_nil]
  · intro error fails
    rw [replayTo_of_path keyed h] at fails
    exact h.eq_invalidBlock_of_replay keyed fails

/-- The states that a node tries transactions on: those it keeps, those it comes by when it
replays a branch, and those it has tried transactions on before. -/
inductive Tries (n : Node) : ChainState → Prop
  | head : n.Tries n.headState
  | pending : n.Tries n.pendingState
  | replayed {id : BlockId} {s : ChainState} : n.replayTo id = .ok s → n.Tries s
  | applied {now : Time} {trx : SignedTransaction} {s t : ChainState} :
    n.Tries s → s.applyTransaction n.rules now trx = .ok t → n.Tries t

/-- What the store, the current chain and the states of a node are like. -/
structure WellFormed (n : Node) : Prop where
  keyed : n.Keyed
  consistent : ∀ (id : BlockId) (b : Block), n.blocks[id]? = some b → b.isConsistent = true
  linked : ∀ (id : BlockId) (b : Block), n.blocks[id]? = some b → n.knowsBlock b.previous = true
  leaf : ∀ (id : BlockId) (b : Block), n.blocks[id]? = some b → b.previous ≠ n.headId
  grounded : ∀ id : BlockId, n.knowsBlock id = true → n.Grounded id
  /-- A new block is in the store before it is replayed. -/
  grounded_withBlock : ∀ b : Block, n.knowsBlock b.id = false → n.knowsBlock b.previous = true →
    (n.withBlock b).Grounded b.id
  length : n.chainBlocks.length = n.headNum.toNat
  numbers : n.chainBlocks.map (·.num.toNat) = List.range' 1 n.headNum.toNat
  links : n.genesisId :: n.chainBlocks.map (·.id) = n.chainBlocks.map (·.previous) ++ [n.headId]
  counted : ∀ s, n.Tries s → s.chain.size = s.head.num.toNat + 1
  /-- A reference to a listed block is not above the head. -/
  reference_le : ∀ s, n.Tries s → ∀ num id, s.blockId? num.toNat = some id → num ≤ s.head.num

theorem Topmost.tries (h : n.Topmost) (room : n.HasRoom) (inStep : n.InStep)
    (tries : n.Tries s) : s.Counted := by
  induction tries with
  | head => exact h.head
  | pending => exact h.head.applyTransactions inStep
  | replayed replays => exact (h.replayTo room replays).1
  | applied _ applies ih =>
    obtain ⟨head, chain⟩ := ChainState.head_chain_of_applyTransaction applies
    rw [ChainState.Counted, head, chain]
    exact ih

/-- Whatever a node was asked to do, its store is a tree over the genesis block with the head
as a leaf, and the current chain is the branch of the head, numbered from one on. -/
theorem wellFormed_run {name : NodeName} {chainName : String} {config : ChainConfig}
    {requests : List Request}
    (room : ∀ asked, asked <+: requests → ((make name chainName config).run asked).HasRoom)
    (clean : NoCollision (headersInLife name chainName config requests)) :
    ((make name chainName config).run requests).WellFormed := by
  have anchored := anchored_run clean
  have topmost := (Topmost.make name chainName config).run room
  have inStep : ((make name chainName config).run requests).InStep :=
    InStep.run (n := make name chainName config) rfl requests
  have here := room requests (List.prefix_refl _)
  generalize (make name chainName config).run requests = n at anchored topmost inStep here
  have counted : ∀ s, n.Tries s → s.Counted := fun s => topmost.tries here inStep
  obtain ⟨bs, path, stacked, chain⟩ := anchored.chainBlocks_eq topmost.head
  have height : n.headNum.toNat = bs.length :=
    Nat.succ.inj (topmost.head.symm.trans stacked.size_chain)
  have range : bs.length < UInt32.size := height ▸ Nat.lt_of_succ_lt here
  exact {
    keyed := anchored.keyed
    consistent := fun id b stored => (anchored.named id b stored).consistent
    linked := fun _ _ => anchored.linked
    leaf := anchored.leaf
    grounded := by
      intro id known
      obtain ⟨bs, path⟩ := anchored.path id known
      exact path.grounded anchored.keyed
    grounded_withBlock := by
      intro b unknown linked
      obtain ⟨bs, path⟩ := anchored.path _ linked
      have learned : Learned n b (n.withBlock b) := ⟨rfl, rfl, unknown, linked⟩
      exact (learned.path path).grounded (anchored.keyed.learned learned)
    length := by rw [chain, List.length_reverse, height]
    numbers := by rw [chain, stacked.map_num range, height]
    links := by
      rw [chain, genesisId, anchored.genesis_eq]
      exact stacked.grown.links
    counted := counted
    reference_le := fun s tries _ _ => (counted s tries).num_le }

end Node

end

namespace Node

section sample

attribute [local instance] checksum

/-- A node with two blocks of its own holds a rival's first block and a forged one on top of
it, whose number is a lie. All is well with its store, and the replay of the forged block
stops at that block. -/
theorem wellFormed_run_sample :
    let rival := (make "b" "lab" sampleConfig).produceBlock
    let n := (make "a" "lab" sampleConfig).run
      [.produce, .produce, .receive rival.1, .receive sampleLie]
    n.WellFormed ∧ n.blocks.size = 4 ∧ n.chainBlocks.map (·.num.toNat) = [1, 2] ∧
      n.Grounded sampleLie.id ∧ ∃ error, n.replayTo sampleLie.id = .error error := by
  intro rival n
  have facts :
      let requests := [.produce, .produce, .receive rival.1, .receive sampleLie]
      let life := (headersInLife "a" "lab" sampleConfig requests).eraseDups
      (∀ s ∈ life, s.length < UInt64.size) ∧ (life.map Crypto.hash).Nodup ∧
        (∀ asked ∈ requests.inits, ((make "a" "lab" sampleConfig).run asked).HasRoom) ∧
        n.blocks.size = 4 ∧ n.headNum = 2 ∧ n.knowsBlock sampleLie.id = true ∧
        (n.replayTo sampleLie.id).isOk = false := by
    decide +kernel
  obtain ⟨short, apart, room, size, height, known, fails⟩ := facts
  have wellFormed : n.WellFormed := by
    refine wellFormed_run (fun asked before => room asked ((List.mem_inits _ _).mpr before)) ?_
    exact noCollision_of_nodup short apart fun _ => List.mem_eraseDups.mpr
  refine ⟨wellFormed, size, ?_, wellFormed.grounded _ known, exists_eq_error_iff.mpr fails⟩
  rw [wellFormed.numbers, height]
  rfl

end sample

end Node

end ChainLab
