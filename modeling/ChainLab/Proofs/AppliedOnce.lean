import ChainLab.Proofs.AnchoredNode
import ChainLab.Proofs.QueueAgreement

/-!
# No transaction is applied twice

A state carries the digests of what was applied on the way to it, and refuses a transaction
whose digest it carries. A block or a queue that goes through adds its own digests to those
of the branch below. So along every branch, and in the queue on top of the head, each
digest stands once, and a node knows exactly those.
-/

namespace ChainLab

section

variable [Crypto] {rules : Rules} {now : Time} {trx : SignedTransaction}
  {trxs : List SignedTransaction}

/-- The digests of the transactions in blocks that are listed from the first to the last. -/
def digestsOf (bs : List Block) : List Digest := bs.flatMap fun b => b.transactions.map (·.digest)

namespace ChainState

variable {s t : ChainState} {digests : List Digest} {b : Block} {bs cs : List Block}

/-- A state has applied the listed digests and no others, each of them once. -/
structure Records (s : ChainState) (digests : List Digest) : Prop where
  nodup : digests.Nodup
  hasApplied_iff : ∀ {digest : Digest}, s.hasApplied digest = true ↔ digest ∈ digests

namespace Records

theorem genesis : (ChainState.genesis rules).Records [] where
  nodup := .nil
  hasApplied_iff := by simp [hasApplied, ChainState.genesis]

theorem applyTransaction (h : s.Records digests)
    (applies : s.applyTransaction rules now trx = .ok t) :
    t.Records (digests ++ [trx.digest]) where
  nodup := by
    obtain ⟨fresh, -⟩ := applyTransaction_eq_ok.mp applies
    refine List.nodup_append_comm.mp (List.nodup_cons.mpr ⟨?_, h.nodup⟩)
    intro listed
    rw [h.hasApplied_iff.mpr listed] at fresh
    cases fresh
  hasApplied_iff := by
    intro digest
    rw [hasApplied_of_applyTransaction applies, h.hasApplied_iff, List.mem_append,
      List.mem_singleton, or_comm, @eq_comm _ trx.digest]

/-- Transactions that go through one after the other are recorded in that order. -/
theorem applyTransactions (h : s.Records digests)
    (applies : s.applyTransactions rules now trxs = .ok t) :
    t.Records (digests ++ trxs.map (·.digest)) := by
  induction trxs generalizing s digests with
  | nil =>
    cases applies
    simpa using h
  | cons trx rest ih =>
    obtain ⟨u, once, later⟩ := applyTransactions_cons_eq_ok.mp applies
    simpa using ih (h.applyTransaction once) later

theorem follows (h : s.Records digests) (last : Follows rules s b t) :
    t.Records (digests ++ b.transactions.map (·.digest)) := by
  obtain ⟨u, run, rfl⟩ := last.executes
  have recorded := h.applyTransactions run
  exact ⟨recorded.nodup, recorded.hasApplied_iff⟩

end Records

/-- The state after a branch records what is in the blocks of the branch. -/
theorem Grown.records (h : Grown rules bs s) : s.Records (digestsOf bs.reverse) := by
  induction h with
  | genesis => exact .genesis
  | @block bs s b s' _ last ih => simpa [digestsOf] using ih.follows last

namespace Stacked

/-- What was put on a branch was put on the state after its lower part first. -/
theorem exists_follows (h : Stacked rules (cs ++ b :: bs) s) :
    ∃ t u, Stacked rules bs t ∧ Follows rules t b u := by
  induction cs generalizing s with
  | nil =>
    cases h with
    | block below _ last => exact ⟨_, _, below, last⟩
  | cons c cs ih =>
    cases h with
    | block below => exact ih below

/-- A transaction in a block of a branch was alive when the block was made, and is bound to
one of the last blocks that are below it. -/
theorem admits {below above : List Block} (h : Stacked rules (below ++ b :: above).reverse s)
    (range : s.chain.size ≤ UInt32.size) (mem : trx ∈ b.transactions) :
    b.header.time ≤ trx.transaction.expiration ∧
      (∃ id, ((ChainState.genesis rules).head.id :: below.map (·.id))[
          trx.transaction.refBlockNum.toNat]? = some id ∧
        id.refTag = trx.transaction.refBlockTag) ∧
      below.length ≤
        trx.transaction.refBlockNum.toNat + rules.config.referenceBlockWindow.toNat := by
  have size := h.size_chain
  have order : (below ++ b :: above).reverse = above.reverse ++ b :: below.reverse := by simp
  rw [order] at h size
  obtain ⟨t, u, lower, last⟩ := h.exists_follows
  -- The reference was checked on the state below the block, which lists the blocks below it.
  obtain ⟨v, run, -⟩ := last.executes
  obtain ⟨alive, bound⟩ := admitted_of_applyTransactions run trx mem
  have height : t.head.num.toNat = below.length := by
    rw [List.length_append, List.length_cons] at size
    rw [lower.num_eq, UInt32.toNat_ofNat_of_lt' (by omega), List.length_reverse]
  have counted : t.Counted := by rw [Counted, lower.size_chain, height, List.length_reverse]
  obtain ⟨-, recent⟩ := counted.reference_le bound
  obtain ⟨⟨id, listed, tag⟩, -⟩ := checkReference_eq_ok.mp bound
  rw [blockId?, ← Array.getElem?_toList, lower.grown.chain_eq, List.reverse_reverse] at listed
  exact ⟨alive, ⟨id, listed, tag⟩, height ▸ recent⟩

end Stacked

end ChainState

namespace Node

/-- Whatever a node was asked to do, on a chain that 32 bits can number no digest stands
twice in the blocks of the current chain and the queue. The head state has applied those in
the blocks, the node knows those and the ones in the queue. And each transaction in a block
of the chain was alive at the time of the block and is bound to a block further down, at
most the window below the block's parent. -/
theorem transactions_applied_once {name : NodeName} {chainName : String} {config : ChainConfig}
    {requests : List Request}
    (range : ((make name chainName config).run requests).headState.chain.size ≤ UInt32.size)
    (clean : NoCollision (headersInLife name chainName config requests)) :
    let n := (make name chainName config).run requests
    (digestsOf n.chainBlocks ++ n.pending.map (·.digest)).Nodup ∧
      (∀ digest, n.headState.hasApplied digest = true ↔ digest ∈ digestsOf n.chainBlocks) ∧
      (∀ digest, n.knowsTransaction digest = true ↔
        digest ∈ digestsOf n.chainBlocks ∨ digest ∈ n.pending.map (·.digest)) ∧
      ∀ below b above, n.chainBlocks = below ++ b :: above → ∀ trx ∈ b.transactions,
        b.header.time ≤ trx.transaction.expiration ∧
        (∃ id, (n.genesisId :: below.map (·.id))[trx.transaction.refBlockNum.toNat]? = some id ∧
          id.refTag = trx.transaction.refBlockTag) ∧
        below.length ≤
          trx.transaction.refBlockNum.toNat + config.referenceBlockWindow.toNat := by
  intro n
  have anchored := anchored_run clean
  have numbered : n.headState.Numbered :=
    numbered_run ChainState.numbered_genesis ChainState.numbered_genesis requests
  have inStep : n.InStep := InStep.run (n := make name chainName config) rfl requests
  obtain ⟨cs, -, lower⟩ := anchored.head
  have nonempty : 0 < n.headState.chain.size := lower.size_chain ▸ Nat.succ_pos _
  obtain ⟨bs, -, stacked, chain⟩ := anchored.chainBlocks_eq (numbered.counted range nonempty)
  have recorded := stacked.grown.records
  rw [← chain] at recorded
  have queued := recorded.applyTransactions inStep
  refine ⟨queued.nodup, fun _ => recorded.hasApplied_iff, ?_, ?_⟩
  · intro digest
    rw [knowsTransaction, queued.hasApplied_iff, List.mem_append]
  · intro below b above split trx mem
    have origin : n.genesisId =
        (ChainState.genesis ⟨Crypto.hash chainName.toUTF8.toList, config⟩).head.id := by
      rw [genesisId, anchored.genesis_eq]
    rw [← bs.reverse_reverse, ← chain, split] at stacked
    rw [origin]
    exact stacked.admits range mem

end Node

end

namespace Node

section sample

attribute [local instance] checksum

/-- The transactions that waited through a switch of branches go into a block; one of them
is handed in again, and a new one. -/
def sampleReturn : List Request :=
  sampleRequeue ++ [.produce, .push sampleLate, .push (sampleDeed ⟨100⟩ (.unlock "init0" ⟨4⟩))]

/-- Both transactions are in the third block and a third one waits. The copy of the first
was turned away, and none of the three digests stands twice. The first is bound to the
genesis block, two blocks below the parent of the block that it is in. -/
theorem transactions_applied_once_sample :
    let n := (make "a" "lab" sampleConfig).run sampleReturn
    (digestsOf n.chainBlocks).length = 2 ∧ n.pending.length = 1 ∧
      (digestsOf n.chainBlocks ++ n.pending.map (·.digest)).Nodup ∧
      n.headState.hasApplied sampleLate.digest = true ∧
      ∃ below b, n.chainBlocks = below ++ [b] ∧ below.length = 2 ∧
        ∃ trx ∈ b.transactions, trx.digest = sampleLate.digest ∧
          b.header.time ≤ trx.transaction.expiration ∧
          2 ≤ trx.transaction.refBlockNum.toNat + sampleConfig.referenceBlockWindow.toNat := by
  intro n
  have facts :
      let life := (headersInLife "a" "lab" sampleConfig sampleReturn).eraseDups
      (∀ s ∈ life, s.length < UInt64.size) ∧ (life.map Crypto.hash).Nodup ∧
        n.headState.chain.size ≤ UInt32.size ∧ (digestsOf n.chainBlocks).length = 2 ∧
        n.pending.length = 1 ∧ (n.chainBlocks.take 2).length = 2 ∧
        (n.chainBlocks.drop 2).length = 1 ∧
        sampleLate.digest ∈ digestsOf (n.chainBlocks.drop 2) := by
    decide +kernel
  obtain ⟨short, apart, range, included, waiting, two, one, again⟩ := facts
  have clean : NoCollision (headersInLife "a" "lab" sampleConfig sampleReturn) :=
    noCollision_of_nodup short apart fun _ => List.mem_eraseDups.mpr
  obtain ⟨once, applied, -, admitted⟩ := transactions_applied_once range clean
  obtain ⟨b, last⟩ := List.length_eq_one_iff.mp one
  have split : n.chainBlocks = n.chainBlocks.take 2 ++ [b] := by
    rw [← last, List.take_append_drop]
  have whole : sampleLate.digest ∈ digestsOf n.chainBlocks := by
    rw [← List.take_append_drop 2 n.chainBlocks, digestsOf, List.flatMap_append]
    exact List.mem_append_right _ again
  rw [last, digestsOf, List.flatMap_singleton] at again
  obtain ⟨trx, mem, same⟩ := List.mem_map.mp again
  obtain ⟨alive, -, recent⟩ := admitted _ b [] split trx mem
  rw [two] at recent
  exact ⟨included, waiting, once, (applied _).mpr whole, _, b, split, two, trx, mem, same, alive,
    recent⟩

end sample

end Node

end ChainLab
