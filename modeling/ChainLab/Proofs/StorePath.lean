import ChainLab.Proofs.MapSum
import ChainLab.Proofs.NodeRun
import Mathlib.Data.List.Perm.Subperm
import Mathlib.Data.List.Nodup

/-!
# Paths through the store of a node

A known block rests on stored blocks down to genesis, each of which names the next one.
The path of a block is determined by the store, stays the same when the store grows, and
is what the node replays.
-/

namespace ChainLab

theorem filterMap_getElem?_range {α : Type} {l : List α} :
    (List.range l.length).filterMap (fun i => l[i]?) = l := by
  induction l with
  | nil => rfl
  | cons a l ih =>
    rw [List.length_cons, List.range_succ_eq_map, List.filterMap_cons, List.filterMap_map]
    simpa using ih

namespace Node

/-- The stored blocks from a known one down to genesis. -/
inductive Path (n : Node) : BlockId → List Block → Prop
  | genesis : Path n n.genesisId []
  | up {id : BlockId} {b : Block} {bs : List Block} :
    id ≠ n.genesisId → n.blocks[id]? = some b → Path n b.previous bs → Path n id (b :: bs)

/-- One node stores at least what another stores. -/
structure Within (n n' : Node) : Prop where
  genesis_eq : n'.genesis = n.genesis
  stored : ∀ (id : BlockId) (b : Block), n.blocks[id]? = some b → n'.blocks[id]? = some b

/-- What a node knows after it has come to know one more block. -/
structure Learned (n : Node) (b : Block) (n' : Node) : Prop where
  genesis_eq : n'.genesis = n.genesis
  blocks_eq : n'.blocks = (n.withBlock b).blocks
  unknown : n.knowsBlock b.id = false
  linked : n.knowsBlock b.previous = true

/-- Every block is stored under its own identifier. -/
def Keyed (n : Node) : Prop :=
  ∀ (id : BlockId) (b : Block), n.blocks[id]? = some b → b.id = id

variable {n n' : Node} {id : BlockId} {b : Block} {bs cs : List Block}

theorem Within.refl : Within n n := ⟨rfl, fun _ _ h => h⟩

theorem Within.trans {m : Node} (h : Within n n') (h' : Within n' m) : Within n m :=
  ⟨h'.genesis_eq.trans h.genesis_eq, fun id b hb => h'.stored id b (h.stored id b hb)⟩

theorem Within.genesisId_eq (h : Within n n') : n'.genesisId = n.genesisId := by
  rw [genesisId, genesisId, h.genesis_eq]

theorem Within.knowsBlock (h : Within n n') (known : n.knowsBlock id = true) :
    n'.knowsBlock id = true := by
  rw [knowsBlock_iff, genesisId] at *
  rw [h.genesis_eq]
  exact known.imp_right (Exists.imp fun b hb => h.stored id b hb)

theorem knowsBlock_withBlock :
    (n.withBlock b).knowsBlock id = true ↔ n.knowsBlock id = true ∨ id = b.id := by
  have same : (n.withBlock b).genesisId = n.genesisId := rfl
  rw [knowsBlock_iff, knowsBlock_iff, same, getElem?_withBlock]
  by_cases new : b.id = id
  · simp [new]
  · simp [new, Ne.symm new]

theorem Learned.knowsBlock_iff (h : Learned n b n') :
    n'.knowsBlock id = true ↔ n.knowsBlock id = true ∨ id = b.id := by
  rw [← knowsBlock_withBlock]
  simp only [knowsBlock, genesisId, h.genesis_eq, h.blocks_eq]
  rfl

theorem Learned.ne_of_known (h : Learned n b n') (known : n.knowsBlock id = true) : id ≠ b.id := by
  rintro rfl
  rw [h.unknown] at known
  cases known

theorem Within.withBlock (unknown : n.knowsBlock b.id = false) : Within n (n.withBlock b) := by
  refine ⟨rfl, fun id c hc => ?_⟩
  rw [getElem?_withBlock]
  split
  next same =>
    obtain ⟨-, absent⟩ := knowsBlock_eq_false_iff.mp unknown
    rw [same, hc] at absent
    cases absent
  next => exact hc

theorem Learned.within (h : Learned n b n') : Within n n' :=
  ⟨h.genesis_eq, h.blocks_eq ▸ (Within.withBlock h.unknown).stored⟩

theorem Learned.forall_stored (h : Learned n b n') {kind : BlockId → Block → Prop}
    (old : ∀ (id : BlockId) (c : Block), n.blocks[id]? = some c → kind id c) (new : kind b.id b) :
    ∀ (id : BlockId) (c : Block), n'.blocks[id]? = some c → kind id c := by
  rw [h.blocks_eq]
  exact forall_stored_withBlock old new

theorem Keyed.learned (keyed : n.Keyed) (h : Learned n b n') : n'.Keyed :=
  h.forall_stored keyed rfl

theorem Path.mono (h : n.Path id bs) (within : Within n n') : n'.Path id bs := by
  have root := within.genesisId_eq
  induction h with
  | genesis =>
    rw [← root]
    exact .genesis
  | up apart stored _ ih =>
    rw [← root] at apart
    exact .up apart (within.stored _ _ stored) ih

theorem Path.known (h : n.Path id bs) : n.knowsBlock id = true := by
  cases h with
  | genesis => exact knowsBlock_iff.mpr (.inl rfl)
  | up _ stored _ => exact knowsBlock_iff.mpr (.inr ⟨_, stored⟩)

theorem Path.stored (h : n.Path id bs) :
    ∀ b : Block, b ∈ bs → ∃ id : BlockId, n.blocks[id]? = some b := by
  induction h with
  | genesis => exact fun b hb => nomatch hb
  | up _ stored _ ih => exact List.forall_mem_cons.mpr ⟨⟨_, stored⟩, ih⟩

/-- The store leaves no choice of a path. -/
theorem Path.unique (h : n.Path id bs) (h' : n.Path id cs) : bs = cs := by
  induction h generalizing cs with
  | genesis =>
    cases h' with
    | genesis => rfl
    | up apart => exact absurd rfl apart
  | up apart stored _ ih =>
    cases h' with
    | genesis => exact absurd rfl apart
    | up _ stored' below =>
      obtain rfl := Option.some.inj (stored.symm.trans stored')
      rw [ih below]

/-- A block that was learned ends the path of its parent. -/
theorem Learned.path (h : Learned n b n') (below : n.Path b.previous bs) :
    n'.Path b.id (b :: bs) := by
  have apart : b.id ≠ n'.genesisId := by
    rw [h.within.genesisId_eq]
    exact (knowsBlock_eq_false_iff.mp h.unknown).1
  refine .up apart ?_ (below.mono h.within)
  rw [h.blocks_eq, getElem?_withBlock, if_pos rfl]

/-- Where a path leads to every known block, the parent of a stored block is known. -/
theorem linked_of_path (paths : ∀ id : BlockId, n.knowsBlock id = true → ∃ bs, n.Path id bs)
    (apart : id ≠ n.genesisId) (stored : n.blocks[id]? = some b) :
    n.knowsBlock b.previous = true := by
  obtain ⟨bs, path⟩ := paths id (knowsBlock_iff.mpr (.inr ⟨b, stored⟩))
  cases path with
  | genesis => exact absurd rfl apart
  | up _ stored' below =>
    obtain rfl := Option.some.inj (stored.symm.trans stored')
    exact below.known

/-- Paths depend on the store only. -/
theorem exists_path_congr (sameGenesis : n'.genesis = n.genesis) (sameBlocks : n'.blocks = n.blocks)
    (paths : ∀ id : BlockId, n.knowsBlock id = true → ∃ bs, n.Path id bs) :
    ∀ id : BlockId, n'.knowsBlock id = true → ∃ bs, n'.Path id bs := by
  intro id known
  have known' : n.knowsBlock id = true := by
    rwa [knowsBlock, genesisId, sameGenesis, sameBlocks] at known
  obtain ⟨bs, path⟩ := paths id known'
  exact ⟨bs, path.mono ⟨sameGenesis, fun id b stored => by rw [sameBlocks, stored]⟩⟩

/-- Where there are paths to all known blocks, there is one to a block that was learned. -/
theorem Learned.exists_path (h : Learned n b n')
    (paths : ∀ id : BlockId, n.knowsBlock id = true → ∃ bs, n.Path id bs) :
    ∀ id : BlockId, n'.knowsBlock id = true → ∃ bs, n'.Path id bs := by
  intro id known
  rcases h.knowsBlock_iff.mp known with old | rfl
  · obtain ⟨bs, path⟩ := paths id old
    exact ⟨bs, path.mono h.within⟩
  · obtain ⟨bs, path⟩ := paths _ h.linked
    exact ⟨b :: bs, h.path path⟩

theorem Path.from_mem (keyed : n.Keyed) (h : n.Path id bs) (hb : b ∈ bs) :
    ∃ cs, n.Path b.id (b :: cs) ∧ cs.length < bs.length := by
  induction h with
  | genesis => cases hb
  | @up id c cs apart stored below ih =>
    rcases List.mem_cons.mp hb with rfl | later
    · have whole := Path.up apart stored below
      rw [← keyed id _ stored] at whole
      exact ⟨cs, whole, Nat.lt_succ_self _⟩
    · obtain ⟨ds, path, shorter⟩ := ih later
      exact ⟨ds, path, Nat.lt_succ_of_lt shorter⟩

/-- A path never comes back to a block: from there on it would have to be as long as
the whole. -/
theorem Path.nodup (keyed : n.Keyed) (h : n.Path id bs) : (bs.map (·.id)).Nodup := by
  induction h with
  | genesis => exact .nil
  | @up id b bs apart stored below ih =>
    refine List.nodup_cons.mpr ⟨?_, ih⟩
    intro mem
    obtain ⟨c, hc, same⟩ := List.mem_map.mp mem
    obtain ⟨cs, path, shorter⟩ := below.from_mem keyed hc
    have whole := Path.up apart stored below
    have back : c.id = id := same.trans (keyed id b stored)
    rw [back] at path
    have lengths := congrArg List.length (path.unique whole)
    simp only [List.length_cons] at lengths
    omega

/-- A path has no more blocks than the store. -/
theorem Path.length_le (keyed : n.Keyed) (h : n.Path id bs) : bs.length ≤ n.blocks.size := by
  have within : bs.map (·.id) ⊆ n.blocks.keys := by
    intro id hid
    obtain ⟨b, hb, rfl⟩ := List.mem_map.mp hid
    obtain ⟨id, stored⟩ := h.stored b hb
    rw [Std.ExtTreeMap.mem_keys, keyed id b stored]
    exact mem_iff_exists_getElem?.mpr ⟨b, stored⟩
  simpa using (List.subperm_of_subset (h.nodup keyed) within).length_le

/-- With enough fuel the walk to genesis collects the path. -/
theorem branch_of_path (h : n.Path id bs) {fuel : Nat} (enough : bs.length < fuel)
    (above : List Block) : n.branch fuel id above = .ok (bs.reverse ++ above) := by
  induction h generalizing fuel above with
  | genesis =>
    cases fuel with
    | zero => cases enough
    | succ fuel => simp [branch]
  | @up id b bs apart stored _ ih =>
    cases fuel with
    | zero => cases enough
    | succ fuel =>
      have left : bs.length < fuel := by simpa using enough
      simp [branch, apart, stored, ih left]

/-- If the head state lists the blocks on the path of the head, and counts them, then the
blocks of the current chain are those on the path. -/
theorem Path.chainBlocks_eq (h : n.Path n.headId bs) (keyed : n.Keyed)
    (listed : n.headState.chain.toList = n.genesisId :: bs.reverse.map (·.id))
    (count : n.headNum.toNat = bs.length) : n.chainBlocks = bs.reverse := by
  have byNumber : ∀ i, n.blockAt? (1 + i) = bs.reverse[i]? := by
    intro i
    have named : n.headState.blockId? (1 + i) = (bs.reverse[i]?).map (·.id) := by
      rw [ChainState.blockId?, ← Array.getElem?_toList, listed, Nat.add_comm,
        List.getElem?_cons_succ, List.getElem?_map]
    rw [blockAt?, named]
    cases found : bs.reverse[i]? with
    | none => rfl
    | some b =>
      obtain ⟨id, stored⟩ := h.stored b (List.mem_reverse.mp (List.mem_of_getElem? found))
      simpa [keyed id b stored] using stored
  rw [chainBlocks, numbers, count, ← List.length_reverse, List.range'_eq_map_range,
    List.filterMap_map]
  exact (congrArg (List.filterMap · _) (funext byNumber)).trans filterMap_getElem?_range

variable [Crypto]

theorem replay_append {rules : Rules} {s : ChainState} {xs ys : List Block} :
    replay rules s (xs ++ ys) = (do replay rules (← replay rules s xs) ys) := by
  induction xs generalizing s with
  | nil => rfl
  | cons x xs ih =>
    simp only [List.cons_append, replay, bind_assoc]
    exact bind_congr fun t => ih

/-- The last block of a branch is applied to what the others lead to. -/
theorem replay_reverse_cons_eq_ok {rules : Rules} {s t : ChainState} :
    replay rules s (b :: bs).reverse = .ok t ↔
      ∃ u, replay rules s bs.reverse = .ok u ∧ u.applyBlock rules b = .ok t := by
  rw [List.reverse_cons, replay_append]
  simp [replay]

theorem replay_reverse_cons_eq_error {rules : Rules} {s : ChainState} {error : ChainError} :
    replay rules s (b :: bs).reverse = .error error ↔
      replay rules s bs.reverse = .error error ∨
        ∃ u, replay rules s bs.reverse = .ok u ∧ u.applyBlock rules b = .error error := by
  rw [List.reverse_cons, replay_append, bind_eq_error]
  simp [replay, bind_eq_error]

/-- What a node replays is the path of the block asked for. -/
theorem replayTo_of_path (keyed : n.Keyed) (h : n.Path id bs) :
    n.replayTo id = replay n.rules n.genesis bs.reverse := by
  have enough : bs.length < n.blocks.size + 1 := Nat.lt_succ_of_le (h.length_le keyed)
  rw [replayTo, branch_of_path h enough, List.append_nil]
  rfl

/-- With a block stored on top of a known one, the path of the block is what was the path
of its parent and the block itself. -/
theorem replayTo_withBlock (keyed : n.Keyed) (unknown : n.knowsBlock b.id = false)
    (path : n.Path b.previous bs) :
    (n.withBlock b).replayTo b.id = replay n.rules n.genesis (b :: bs).reverse := by
  have learned : Learned n b (n.withBlock b) := ⟨rfl, rfl, unknown, path.known⟩
  exact replayTo_of_path (keyed.learned learned) (learned.path path)

end Node

end ChainLab
