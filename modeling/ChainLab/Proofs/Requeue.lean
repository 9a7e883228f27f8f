import ChainLab.Proofs.ForkStore

/-!
# A fork switch requeues what it abandons

When a node switches to another branch it looks for the first number at which the two chains
part, and queues the transactions of its old blocks from there on in front of those that were
pending. A block determines everything below it, so two chains that have a block in common
have it under the same number and are the same below. Hence the blocks from the fork on are
exactly the old ones that are not on the new chain. The whole queue is then tried again on
the new head.
-/

namespace ChainLab

/-- What drops a part in front drops all that fulfils the condition, if nothing fulfils it
after something that does not. -/
theorem dropWhile_eq_filter {α : Type} {p : α → Bool} {l : List α}
    (closed : l.Pairwise fun a b => p b = true → p a = true) :
    l.dropWhile p = l.filter fun a => !p a := by
  induction l with
  | nil => rfl
  | cons a l ih =>
    obtain ⟨first, rest⟩ := List.pairwise_cons.mp closed
    cases holds : p a with
    | true =>
      rw [List.dropWhile_cons_of_pos holds, ih rest]
      simp [holds]
    | false =>
      have none_after : ∀ b ∈ a :: l, (!p b) = true := by
        intro b mem
        rcases List.mem_cons.mp mem with rfl | later
        · simp [holds]
        · by_contra fulfils
          simp [first b later (by simpa using fulfils)] at holds
      rw [List.dropWhile_cons_of_neg (by simp [holds]), List.filter_eq_self.mpr none_after]

namespace ChainState

section

variable [Crypto] {rules : Rules} {now : Time} {s t : ChainState}
  {queue kept refused : List SignedTransaction}

/-- The transactions of a queue are tried in order: each that applies on top of those kept
before it is kept, each that fails there is refused. -/
inductive Tried (rules : Rules) (now : Time) :
    ChainState → (queue kept refused : List SignedTransaction) → ChainState → Prop
  | done {s : ChainState} : Tried rules now s [] [] [] s
  | keep {s t u : ChainState} {trx : SignedTransaction} {rest kept refused : List SignedTransaction}
      (applies : s.applyTransaction rules now trx = .ok t) :
      Tried rules now t rest kept refused u →
        Tried rules now s (trx :: rest) (trx :: kept) refused u
  | refuse {s u : ChainState} {trx : SignedTransaction} {rest kept refused : List SignedTransaction}
      {error : ChainError} (fails : s.applyTransaction rules now trx = .error error) :
      Tried rules now s rest kept refused u →
        Tried rules now s (trx :: rest) kept (trx :: refused) u

/-- There is one way to try a queue, and it is the one that is computed. -/
theorem tried_iff :
    Tried rules now s queue kept refused t ↔
      s.takeValid rules now queue = (t, kept) ∧ s.rejected rules now queue = refused := by
  constructor
  · intro h
    induction h with
    | done => exact ⟨rfl, rfl⟩
    | keep applies _ ih =>
      rw [takeValid_cons_of_ok applies, rejected_cons_of_ok applies, ih.1, ih.2]
      exact ⟨rfl, rfl⟩
    | refuse fails _ ih =>
      rw [takeValid_cons_of_error fails, rejected_cons_of_error fails, ih.1, ih.2]
      exact ⟨rfl, rfl⟩
  · rintro ⟨taken, rfl⟩
    induction queue generalizing s kept with
    | nil =>
      cases taken
      exact .done
    | cons trx rest ih =>
      cases result : s.applyTransaction rules now trx with
      | error error =>
        rw [takeValid_cons_of_error result] at taken
        rw [rejected_cons_of_error result]
        exact .refuse result (ih taken)
      | ok next =>
        rw [takeValid_cons_of_ok result] at taken
        rw [rejected_cons_of_ok result]
        cases taken
        exact .keep result (ih rfl)

/-- Each transaction of the queue is kept or refused. -/
theorem Tried.mem_or_mem {trx : SignedTransaction} (h : Tried rules now s queue kept refused t)
    (mem : trx ∈ queue) : trx ∈ kept ∨ trx ∈ refused := by
  induction h with
  | done => cases mem
  | keep _ _ ih =>
    rcases List.mem_cons.mp mem with rfl | later
    · exact .inl List.mem_cons_self
    · exact (ih later).imp_left (List.mem_cons_of_mem _)
  | refuse _ _ ih =>
    rcases List.mem_cons.mp mem with rfl | later
    · exact .inr List.mem_cons_self
    · exact (ih later).imp_right (List.mem_cons_of_mem _)

end

end ChainState

namespace Node

variable {n n' : Node} {id other : BlockId} {b c : Block} {bs cs : List Block} {s t : ChainState}
  {num num' : Nat}

/-- A state lists the blocks on the path of its head, from genesis on. -/
structure Lists (n : Node) (s : ChainState) (bs : List Block) : Prop where
  path : n.Path s.head.id bs
  chain : s.chain.toList = n.genesisId :: bs.reverse.map (·.id)

/-- What is listed up to a number is the path of the block with that number. -/
theorem Path.listed (keyed : n.Keyed) (h : n.Path id bs)
    (at_num : (n.genesisId :: bs.reverse.map (·.id))[num]? = some other) :
    ∃ cs, n.Path other cs ∧ cs.length = num ∧
      (n.genesisId :: bs.reverse.map (·.id)).take (num + 1) =
        n.genesisId :: cs.reverse.map (·.id) := by
  induction h with
  | genesis =>
    cases num with
    | zero =>
      cases at_num
      exact ⟨[], .genesis, rfl, rfl⟩
    | succ num => cases at_num
  | @up id b bs apart stored below ih =>
    have longer : n.genesisId :: (b :: bs).reverse.map (·.id) =
        (n.genesisId :: bs.reverse.map (·.id)) ++ [b.id] := by simp
    have size : (n.genesisId :: bs.reverse.map (·.id)).length = bs.length + 1 := by simp
    rw [longer] at at_num ⊢
    -- Below the top the two listings are the same, and at the top it is the whole path.
    rcases Nat.lt_or_ge num (bs.length + 1) with lower | top
    · rw [List.getElem?_append_left (by omega)] at at_num
      rw [List.take_append_of_le_length (by omega)]
      exact ih at_num
    · rw [List.getElem?_append_right (by omega), size] at at_num
      obtain ⟨at_top, rfl⟩ : num = bs.length + 1 ∧ b.id = other := by
        have within := (List.getElem?_eq_some_iff.mp at_num).1
        simp only [List.length_singleton] at within
        have last : num = bs.length + 1 := by omega
        subst last
        exact ⟨rfl, by simpa using at_num⟩
      subst at_top
      refine ⟨b :: bs, ?_, rfl, ?_⟩
      · rw [keyed id b stored]
        exact .up apart stored below
      · rw [List.take_of_length_le (by simp), longer]

/-- Two chains that have a block in common have it under one number, and are the same up to
that number. -/
theorem Lists.take_eq (keyed : n.Keyed) (hs : n.Lists s bs) (ht : n.Lists t cs)
    (at_s : s.blockId? num = some id) (at_t : t.blockId? num' = some id) :
    num = num' ∧ s.chain.toList.take (num + 1) = t.chain.toList.take (num + 1) := by
  rw [ChainState.blockId?, ← Array.getElem?_toList, hs.chain] at at_s
  rw [ChainState.blockId?, ← Array.getElem?_toList, ht.chain] at at_t
  obtain ⟨ds, path, length, listed⟩ := hs.path.listed keyed at_s
  obtain ⟨ds', path', length', listed'⟩ := ht.path.listed keyed at_t
  obtain rfl := path.unique path'
  obtain rfl := length.symm.trans length'
  exact ⟨rfl, by rw [hs.chain, ht.chain, listed, listed']⟩

/-- Below a block that two chains have in common they list the same blocks. -/
theorem Lists.blockId?_eq_of_le (keyed : n.Keyed) (hs : n.Lists s bs) (ht : n.Lists t cs)
    (at_s : s.blockId? num = some id) (at_t : t.blockId? num = some id) (le : num' ≤ num) :
    s.blockId? num' = t.blockId? num' := by
  obtain ⟨-, same⟩ := hs.take_eq keyed ht at_s at_t
  have entry := congrArg (·[num']?) same
  simp only [List.getElem?_take, Nat.lt_succ_of_le le, if_true, Array.getElem?_toList] at entry
  exact entry

/-- A chain has another one's block of some number under that number if it has it at all. -/
theorem Lists.blockId?_eq_iff (keyed : n.Keyed) (hs : n.Lists s bs) (ht : n.Lists t cs)
    (at_t : t.blockId? num = some id) :
    s.blockId? num = t.blockId? num ↔ id ∈ s.chain.toList := by
  rw [at_t, List.mem_iff_getElem?]
  constructor
  · intro at_s
    exact ⟨num, by rw [Array.getElem?_toList]; exact at_s⟩
  · rintro ⟨num', at_s⟩
    rw [Array.getElem?_toList] at at_s
    obtain ⟨rfl, -⟩ := hs.take_eq keyed ht at_s at_t
    exact at_s

/-- The current chain lists a block for every number up to the head. -/
theorem exists_blockId?_of_mem_numbers (counted : n.headState.Counted) (mem : num ∈ n.numbers) :
    ∃ id, n.headState.blockId? num = some id := by
  have small : num < n.headState.chain.size := by
    obtain ⟨-, low⟩ := List.mem_range'_1.mp mem
    rw [counted, Nat.add_comm]
    exact low
  exact ⟨_, Array.getElem?_eq_getElem small⟩

/-- What a node finds abandoned when it compares the two chains number by number are the
transactions of those blocks of the old chain that the new chain does not list. -/
theorem orphanedTransactions_eq (keyed : n.Keyed) (counted : n.headState.Counted)
    (old : n.Lists n.headState bs) (new : n.Lists s cs) :
    n.orphanedTransactions s =
      (n.chainBlocks.filter fun c => c.id ∉ s.chain.toList).flatMap (·.transactions) := by
  have closed : n.numbers.Pairwise fun i j =>
      decide (s.blockId? j = n.headState.blockId? j) = true →
        decide (s.blockId? i = n.headState.blockId? i) = true := by
    refine List.Pairwise.imp_of_mem ?_ List.pairwise_lt_range'
    intro i j _ mem below shared
    obtain ⟨id, listed⟩ := exists_blockId?_of_mem_numbers counted mem
    have listed' := (of_decide_eq_true shared).trans listed
    exact decide_eq_true (new.blockId?_eq_of_le keyed old listed' listed (Nat.le_of_lt below))
  rw [orphanedTransactions, chainBlocks, dropWhile_eq_filter closed, List.filterMap_filter,
    List.filter_filterMap]
  congr 1
  refine List.filterMap_congr fun num mem => ?_
  obtain ⟨id, listed⟩ := exists_blockId?_of_mem_numbers counted mem
  cases found : n.blockAt? num with
  | none => simp
  | some c =>
    have named : c.id = id := by
      rw [blockAt?, listed] at found
      exact keyed id c found
    have shared_iff := new.blockId?_eq_iff keyed old listed
    rw [← named] at shared_iff
    by_cases onNew : c.id ∈ s.chain.toList <;> simp [shared_iff, onNew, Option.filter]

theorem Lists.mono (h : n.Lists s bs) (within : Within n n') : n'.Lists s bs where
  path := h.path.mono within
  chain := by rw [within.genesisId_eq, h.chain]

theorem Lists.chainBlocks_eq (h : n.Lists n.headState bs) (keyed : n.Keyed)
    (counted : n.headState.Counted) : n.chainBlocks = bs.reverse := by
  refine h.path.chainBlocks_eq keyed h.chain ?_
  have size : n.headState.chain.size = bs.length + 1 := by
    simpa using congrArg List.length h.chain
  exact Nat.succ.inj (counted.symm.trans size)

/-- A block on a path is stored under its identifier. -/
theorem Path.stored_id (keyed : n.Keyed) (h : n.Path id bs) (mem : b ∈ bs) :
    n.blocks[b.id]? = some b := by
  obtain ⟨id', stored⟩ := h.stored b mem
  rw [keyed id' b stored]
  exact stored

/-- Paths that have an identifier in common have the block in common. -/
theorem Path.mem_of_id_mem (keyed : n.Keyed) (old : n.Path id bs) (new : n.Path other cs)
    (mem : b ∈ bs) (common : b.id ∈ cs.map (·.id)) : b ∈ cs := by
  obtain ⟨c, onNew, same⟩ := List.mem_map.mp common
  have stored := new.stored_id keyed onNew
  rw [same, old.stored_id keyed mem] at stored
  cases stored
  exact onNew

/-- A node has come from one branch to another of what is now its store. -/
structure Moved (n n' : Node) (bs cs : List Block) : Prop where
  keyed : n'.Keyed
  old : n'.Lists n.headState bs
  new : n'.Lists n'.headState cs
  before : n.chainBlocks = bs.reverse
  after : n'.chainBlocks = cs.reverse

/-- A block of the old chain is listed by the new one only as one of its blocks. -/
theorem Moved.mem_chain_iff (h : Moved n n' bs cs) (mem : c ∈ n.chainBlocks) :
    c.id ∈ n'.headState.chain.toList ↔ c.id ∈ n'.chainBlocks.map (·.id) := by
  rw [h.before, List.mem_reverse] at mem
  have apart : c.id ≠ n'.genesisId := by
    intro same
    exact h.old.path.genesisId_not_mem h.keyed (same ▸ List.mem_map_of_mem mem)
  rw [h.new.chain, h.after, List.mem_cons, or_iff_right apart]

/-- It is the same block then. -/
theorem Moved.mem_of_id_mem (h : Moved n n' bs cs) (mem : c ∈ n.chainBlocks)
    (common : c.id ∈ n'.chainBlocks.map (·.id)) : c ∈ n'.chainBlocks := by
  rw [h.before, List.mem_reverse] at mem
  rw [h.after, List.map_reverse, List.mem_reverse] at common
  rw [h.after, List.mem_reverse]
  exact h.old.path.mem_of_id_mem h.keyed h.new.path mem common

section

variable [Crypto] {rules : Rules} {strings : List (List UInt8)}

/-- A switch to another branch was to one that replays up to the new block. -/
theorem applyBlock_eq_switchedFork (h : n.applyBlock b = (.ok .switchedFork, n')) :
    ∃ s, n.knowsBlock b.id = false ∧ n.knowsBlock b.previous = true ∧
      (n.withBlock b).replayTo b.id = .ok s ∧
      n' = { n.withBlock b with
        headState := s
        pending := (n.withBlock b).orphanedTransactions s ++ n.pending }.rebuildPending := by
  have received := received n b
  rw [h] at received
  cases received with
  | switched unknown _ linked _ _ replays => exact ⟨_, unknown, linked, replays, rfl⟩

theorem Anchored.lists (h : Anchored rules strings n) : ∃ bs, n.Lists n.headState bs := by
  obtain ⟨bs, path, stacked⟩ := h.head
  refine ⟨bs, path, ?_⟩
  rw [genesisId, h.genesis_eq]
  exact stacked.grown.chain_eq

/-- A branch that is replayed up to a new block is listed by the state it leads to, which
counts its blocks. -/
theorem Anchored.lists_replayed (h : Anchored rules strings n) (topmost : n.Topmost)
    (room : n.HasRoom) (unknown : n.knowsBlock b.id = false)
    (linked : n.knowsBlock b.previous = true)
    (replays : (n.withBlock b).replayTo b.id = .ok s) :
    s.Counted ∧ ∃ bs, (n.withBlock b).Lists s bs := by
  obtain ⟨bs, path⟩ := h.path _ linked
  have stacked := h.stacked_of_replayTo unknown path replays
  have learned : Learned n b (n.withBlock b) := ⟨rfl, rfl, unknown, linked⟩
  rw [replayTo_withBlock h.keyed unknown path] at replays
  obtain ⟨u, leads, applies⟩ := replay_reverse_cons_eq_ok.mp replays
  rw [← replayTo_of_path h.keyed path] at leads
  refine ⟨?_, b :: bs, ?_, ?_⟩
  -- The blocks below the new one were known, so they lead no higher than the old head.
  · obtain ⟨below, low⟩ := topmost.replayTo room leads
    have fits : u.head.num.toNat + 1 < UInt32.size :=
      Nat.lt_of_le_of_lt (Nat.succ_le_succ (UInt32.le_iff_toNat_le.mp low)) room
    exact below.applyBlock fits applies
  · rw [stacked.head_eq]
    exact learned.path path
  · have same : (n.withBlock b).genesisId = (ChainState.genesis rules).head.id :=
      congrArg (·.head.id) h.genesis_eq
    rw [same]
    exact stacked.grown.chain_eq

/-- The queue after a switch, as the transactions of the old blocks that the new chain does
not list and of the old queue. -/
theorem Anchored.moved (h : Anchored rules strings n) (topmost : n.Topmost) (room : n.HasRoom)
    (switched : n.applyBlock b = (.ok .switchedFork, n')) :
    (∃ bs cs, Moved n n' bs cs) ∧
      ∃ refused, ChainState.Tried n'.rules n'.headTime n'.headState
        ((n.chainBlocks.filter fun c => c.id ∉ n'.headState.chain.toList).flatMap
          (·.transactions) ++ n.pending) n'.pending refused n'.pendingState := by
  obtain ⟨s, unknown, linked, replays, rfl⟩ := applyBlock_eq_switchedFork switched
  obtain ⟨counted, cs, new⟩ := h.lists_replayed topmost room unknown linked replays
  obtain ⟨bs, below⟩ := h.lists
  have keyed : (n.withBlock b).Keyed := h.keyed.learned ⟨rfl, rfl, unknown, linked⟩
  have old := below.mono (Within.withBlock unknown)
  have before := below.chainBlocks_eq h.keyed topmost.head
  constructor
  · have within : ∀ kept, Within (n.withBlock b) { n.withBlock b with
        headState := s, pending := kept }.rebuildPending :=
      fun _ => ⟨rfl, fun _ _ stored => stored⟩
    exact ⟨bs, cs, keyed, old.mono (within _), new.mono (within _), before,
      (new.mono (within _)).chainBlocks_eq keyed counted⟩
  · have same : (n.withBlock b).chainBlocks = n.chainBlocks :=
      (old.chainBlocks_eq keyed topmost.head).trans before.symm
    have orphaned := orphanedTransactions_eq keyed topmost.head old new
    rw [same] at orphaned
    rw [orphaned]
    exact ⟨_, ChainState.tried_iff.mpr ⟨rfl, rfl⟩⟩

/-- If a node switches to another branch, its queue is made of the transactions of those old
blocks that are not on the new chain, in the order of the chain, and of the transactions that
were pending. They are tried in this order on the new head state at the time of the new head,
and those that are kept are pending now. So each transaction that was on the chain or pending
is on the new chain, is pending, or was refused at its turn. -/
theorem switchedFork_requeues {name : NodeName} {chainName : String} {config : ChainConfig}
    {requests : List Request}
    (room : ∀ asked, asked <+: requests → ((make name chainName config).run asked).HasRoom)
    (clean : NoCollision (headersInLife name chainName config requests))
    (switched :
      ((make name chainName config).run requests).applyBlock b = (.ok .switchedFork, n')) :
    let n := (make name chainName config).run requests
    let abandoned := n.chainBlocks.filter fun c => c.id ∉ n'.chainBlocks.map (·.id)
    let queue := abandoned.flatMap (·.transactions) ++ n.pending
    ∃ refused,
      ChainState.Tried n'.rules n'.headTime n'.headState queue n'.pending refused n'.pendingState ∧
      ∀ trx, trx ∈ n.chainBlocks.flatMap (·.transactions) ∨ trx ∈ n.pending →
        trx ∈ n'.chainBlocks.flatMap (·.transactions) ∨ trx ∈ n'.pending ∨ trx ∈ refused := by
  have topmost := (Topmost.make name chainName config).run room
  have here := room requests (List.prefix_refl _)
  obtain ⟨⟨bs, cs, moved⟩, refused, tried⟩ := (anchored_run clean).moved topmost here switched
  intro n abandoned queue
  have abandons : abandoned =
      n.chainBlocks.filter fun c => c.id ∉ n'.headState.chain.toList := by
    refine List.filter_congr fun c mem => ?_
    exact decide_eq_decide.mpr (not_congr (moved.mem_chain_iff mem).symm)
  rw [← abandons] at tried
  refine ⟨refused, tried, ?_⟩
  rintro trx (included | waiting)
  · obtain ⟨c, mem, within⟩ := List.mem_flatMap.mp included
    by_cases onNew : c.id ∈ n'.chainBlocks.map (·.id)
    · exact .inl (List.mem_flatMap.mpr ⟨c, moved.mem_of_id_mem mem onNew, within⟩)
    · have left : c ∈ abandoned := List.mem_filter.mpr ⟨mem, decide_eq_true onNew⟩
      have queued : trx ∈ queue :=
        List.mem_append_left _ (List.mem_flatMap.mpr ⟨c, left, within⟩)
      exact .inr (tried.mem_or_mem queued)
  · exact .inr (tried.mem_or_mem (List.mem_append_right _ waiting))

end

section sample

attribute [local instance] checksum

/-- A rival that takes the first block of a node over, and has one of its transactions. -/
def sampleRival : Node :=
  (make "b" "lab" sampleConfig).run
    [.receive (make "a" "lab" sampleConfig).produceBlock.1, .push sampleLate]

/-- A node makes two blocks, the second one with two transactions, holds a third one, and is
handed the second block of the rival. -/
def sampleParting : List Request :=
  [.produce, .push sampleLate, .push (sampleDeed ⟨100⟩ (.lock "init0" "init0" ⟨7⟩)), .produce,
    .push sampleUnlock, .receive sampleRival.produceBlock.1]

/-- The third block of the rival wins the node over. Of its own blocks it abandons the second
one only. One of the transactions in it is on the new chain as well and is refused, the other
one is pending again, in front of the one that was pending. -/
theorem switchedFork_requeues_sample :
    let n := (make "a" "lab" sampleConfig).run sampleParting
    ∃ n', n.applyBlock sampleRival.produceBlock.2.produceBlock.1 = (.ok .switchedFork, n') ∧
      let abandoned := n.chainBlocks.filter fun c => c.id ∉ n'.chainBlocks.map (·.id)
      let queue := abandoned.flatMap (·.transactions) ++ n.pending
      n.chainBlocks.length = 2 ∧ abandoned.length = 1 ∧ queue.length = 3 ∧
        n'.pending.map (·.digest) = (queue.drop 1).map (·.digest) ∧
        ∃ refused, ChainState.Tried n'.rules n'.headTime n'.headState queue n'.pending refused
          n'.pendingState := by
  intro n
  have facts :
      let n' := (n.applyBlock sampleRival.produceBlock.2.produceBlock.1).2
      let life := (headersInLife "a" "lab" sampleConfig sampleParting).eraseDups
      let abandoned := n.chainBlocks.filter fun c => c.id ∉ n'.chainBlocks.map (·.id)
      let queue := abandoned.flatMap (·.transactions) ++ n.pending
      (∀ s ∈ life, s.length < UInt64.size) ∧ (life.map Crypto.hash).Nodup ∧
        (∀ asked ∈ sampleParting.inits, ((make "a" "lab" sampleConfig).run asked).HasRoom) ∧
        (n.applyBlock sampleRival.produceBlock.2.produceBlock.1).1.toOption =
          some .switchedFork ∧
        n.chainBlocks.length = 2 ∧ abandoned.length = 1 ∧ queue.length = 3 ∧
        n'.pending.map (·.digest) = (queue.drop 1).map (·.digest) := by
    decide +kernel
  obtain ⟨short, apart, room, moves, two, one, three, pending⟩ := facts
  have switched := eq_ok_of_toOption moves
  obtain ⟨refused, tried, -⟩ := switchedFork_requeues
    (fun asked before => room asked ((List.mem_inits _ _).mpr before))
    (noCollision_of_nodup short apart fun _ => List.mem_eraseDups.mpr) switched
  exact ⟨_, switched, two, one, three, pending, refused, tried⟩

end sample

end Node

end ChainLab
