import ChainLab.Proofs.AnchoredNode
import ChainLab.Proofs.Refusals

/-!
# How long a draft can wait

A draft is bound to the head of its node, and says until when it is alive. Later the node
may have been handed anything, and may have switched branches back and forth. As long as the
block that was the head is on the current chain, the chain lists its identifier under its
number, so it is still found, and it is not numbered above the head. Then the two things
that can have happened to the draft are that its time is over, or that the head is more than
the window above the block.
-/

namespace ChainLab

namespace ChainError

/-- Whether it says that a transaction comes too late, or that what it is bound to is not on
the chain. -/
def aboutAge : ChainError → Bool
  | expired .. | staleReferenceBlock .. | unknownReferenceBlock .. => true
  | _ => false

theorem aboutAge_of_ofMessage {error : ChainError} (h : error.ofMessage = true) :
    error.aboutAge = false := by
  cases error with
  | expired | staleReferenceBlock | unknownReferenceBlock => cases h
  | _ => rfl

end ChainError

namespace ChainState

section

variable {s : ChainState} {rules : Rules} {t : Transaction} {header : BlockHeader} {k : Nat}
  {id : BlockId}

theorem blockId?_advance :
    (s.advance header).blockId? k = if k = s.chain.size then some header.id else s.blockId? k :=
  Array.getElem?_push

/-- What the chain lists stays where it is when a block is put on it. -/
theorem blockId?_advance_of_some (listed : s.blockId? k = some id) :
    (s.advance header).blockId? k = some id := by
  have below : k < s.chain.size := (Array.getElem?_eq_some_iff.mp listed).1
  rw [blockId?_advance, if_neg (Nat.ne_of_lt below)]
  exact listed

/-- A reference to a block of the chain fails only for the distance to the head. -/
theorem checkReference_eq_error_of_listed (listed : s.blockId? t.refBlockNum.toNat = some id)
    (tag : id.refTag = t.refBlockTag) {error : ChainError} :
    checkReference rules s t = .error error ↔
      rules.config.referenceBlockWindow < s.head.num - t.refBlockNum ∧
        .staleReferenceBlock t.refBlockNum s.head.num rules.config.referenceBlockWindow =
          error := by
  simp [checkReference, bind_eq_error, ensure_eq_error, listed, tag]

end

variable [Crypto] {s : ChainState} {rules : Rules} {now : Time} {trx : SignedTransaction}
  {error : ChainError} {id : BlockId}

/-- What a new transaction is asked, in this order: whether it is alive, what it is bound to,
who signed it, and what is in it. -/
theorem applyTransaction_eq_error_of_fresh (fresh : s.hasApplied trx.digest = false) :
    s.applyTransaction rules now trx = .error error ↔
      (trx.transaction.expiration < now ∧ .expired trx.transaction.expiration now = error) ∨
      (now ≤ trx.transaction.expiration ∧
        (checkReference rules s trx.transaction = .error error ∨
          (checkReference rules s trx.transaction = .ok () ∧
            ((∃ key, trx.verifiedKeys rules.chainId = .error key ∧
                .invalidSignature key = error) ∨
              ∃ keys, trx.verifiedKeys rules.chainId = .ok keys ∧
                s.applyMessages rules now keys trx.transaction.messages = .error error)))) := by
  have late : ¬ now ≤ trx.transaction.expiration ↔ trx.transaction.expiration < now :=
    UInt64.not_le
  cases signed : trx.verifiedKeys rules.chainId with
  | error key =>
    simp [applyTransaction, bind_eq_error, ensure_eq_error, fresh, signed, late]
  | ok keys =>
    simp [applyTransaction, bind_eq_error, ensure_eq_error, fresh, signed, late]

/-- A new transaction that is bound to a listed block is refused for its age exactly if its
time is over or else the head is too far above that block. -/
theorem refused_for_age_iff (fresh : s.hasApplied trx.digest = false)
    (listed : s.blockId? trx.transaction.refBlockNum.toNat = some id)
    (tag : id.refTag = trx.transaction.refBlockTag) (about : error.aboutAge = true) :
    s.applyTransaction rules now trx = .error error ↔
      (trx.transaction.expiration < now ∧ .expired trx.transaction.expiration now = error) ∨
      (¬ trx.transaction.expiration < now ∧
        rules.config.referenceBlockWindow < s.head.num - trx.transaction.refBlockNum ∧
        .staleReferenceBlock trx.transaction.refBlockNum s.head.num
          rules.config.referenceBlockWindow = error) := by
  have order : ¬ trx.transaction.expiration < now ↔ now ≤ trx.transaction.expiration :=
    UInt64.not_lt
  rw [applyTransaction_eq_error_of_fresh fresh, checkReference_eq_error_of_listed listed tag, order]
  constructor
  · rintro (late | ⟨alive, stale | ⟨-, ⟨key, -, rfl⟩ | ⟨keys, -, refused⟩⟩⟩)
    · exact .inl late
    · exact .inr ⟨alive, stale⟩
    · cases about
    · have other := ChainError.aboutAge_of_ofMessage (failsOnly_applyMessages error refused)
      cases about.symm.trans other
  · rintro (late | ⟨alive, stale⟩)
    · exact .inl late
    · exact .inr ⟨alive, .inl stale⟩

/-- A branch that is numbered throughout lists each of its blocks at its number. -/
theorem Stacked.exists_of_blockId? {bs : List Block} (h : Stacked rules bs s) :
    ∀ k id, 0 < k → s.blockId? k = some id → ∃ b ∈ bs, b.id = id ∧ b.num = UInt32.ofNat k := by
  induction h with
  | genesis =>
    intro k id above listed
    have below : k < 1 := (Array.getElem?_eq_some_iff.mp listed).1
    omega
  | @block bs s b s' lower next last ih =>
    intro k id above listed
    rw [blockId?, last.chain_eq, Array.getElem?_push] at listed
    split at listed
    next top =>
      refine ⟨b, List.mem_cons_self, Option.some.inj listed, ?_⟩
      rw [next, lower.num_eq, top, lower.size_chain, UInt32.ofNat_add]
      rfl
    next =>
      obtain ⟨c, mem, own, num⟩ := ih k id above listed
      exact ⟨c, List.mem_cons_of_mem _ mem, own, num⟩

end ChainState

namespace Node

/-- A header is that of the genesis block or of a block of the current chain. -/
def OnChain (n : Node) (header : BlockHeader) : Prop :=
  header = n.genesis.head ∨ ∃ b ∈ n.chainBlocks, b.header = header

instance (n : Node) (header : BlockHeader) : Decidable (n.OnChain header) :=
  inferInstanceAs (Decidable (_ ∨ _))

/-- Every identifier that the chain lists above the genesis block is that of a stored block,
and the number of that block leads to it, as far as 32 bits count. -/
def Listed (n : Node) : Prop :=
  ∀ k id, 0 < k → n.headState.blockId? k = some id →
    ∃ (b : Block) (j : Nat), n.blocks[id]? = some b ∧ n.headState.blockId? j = some id ∧
      b.num = UInt32.ofNat j

section

variable {n n' : Node} {b : Block} {header : BlockHeader}

/-- A block that no one knew is not one that the chain lists. -/
theorem Listed.withBlock (h : n.Listed) (unknown : n.knowsBlock b.id = false) :
    (n.withBlock b).Listed := by
  intro k id above listed
  obtain ⟨c, j, stored, place, num⟩ := h k id above listed
  exact ⟨c, j, (Within.withBlock unknown).stored id c stored, place, num⟩

/-- A block that is put on the head takes the next place, and may take over an identifier. -/
theorem Listed.advance (h : n.Listed) (numbered : n.headState.Numbered)
    (blocks : n'.blocks = (n.withBlock b).blocks)
    (chain : n'.headState.chain = (n.headState.advance b.header).chain)
    (next : b.num = n.headState.head.num + 1) : n'.Listed := by
  have places : ∀ k, n'.headState.blockId? k =
      if k = n.headState.chain.size then some b.id else n.headState.blockId? k := by
    intro k
    rw [ChainState.blockId?, chain]
    exact ChainState.blockId?_advance
  intro k id above listed
  by_cases own : b.id = id
  · refine ⟨b, n.headState.chain.size, ?_, ?_, next.trans numbered⟩
    · rw [blocks, getElem?_withBlock, if_pos own]
    · rw [places, if_pos rfl, own]
  · have old : n.headState.blockId? k = some id := by
      rw [places] at listed
      split at listed
      · exact absurd (Option.some.inj listed) own
      · exact listed
    obtain ⟨c, j, stored, place, num⟩ := h k id above old
    refine ⟨c, j, ?_, ?_, num⟩
    · rw [blocks, getElem?_withBlock, if_neg own]
      exact stored
    · rw [ChainState.blockId?, chain]
      exact ChainState.blockId?_advance_of_some place

end

section

variable [Crypto] {rules : Rules} {n n' : Node} {b : Block} {bs : List Block}
  {header : BlockHeader}

/-- A branch of stored blocks that is numbered throughout leads to a chain that lists them. -/
theorem listed_of_stacked (keyed : n.Keyed) (stacked : ChainState.Stacked rules bs n.headState)
    (stored : ∀ b ∈ bs, ∃ id : BlockId, n.blocks[id]? = some b) : n.Listed := by
  intro k id above listed
  obtain ⟨b, mem, rfl, num⟩ := stacked.exists_of_blockId? k id above listed
  obtain ⟨key, found⟩ := stored b mem
  refine ⟨b, k, ?_, listed, num⟩
  rw [keyed key b found]
  exact found

/-- What ties the current chain to the store, whatever the node was handed. -/
structure Indexed (rules : Rules) (n : Node) : Prop where
  rules_eq : n.rules = rules
  genesis_eq : n.genesis = ChainState.genesis rules
  keyed : n.Keyed
  numbered : n.headState.Numbered
  bottom : n.headState.blockId? 0 = some n.genesisId
  listed : n.Listed

namespace Indexed

theorem make (name : NodeName) (chainName : String) (config : ChainConfig) :
    Indexed ⟨Crypto.hash chainName.toUTF8.toList, config⟩ (make name chainName config) where
  rules_eq := rfl
  genesis_eq := rfl
  keyed id b stored := by simp [Node.make] at stored
  numbered := ChainState.numbered_genesis
  bottom := rfl
  listed := by
    intro k id above listed
    have below : k < 1 := (Array.getElem?_eq_some_iff.mp listed).1
    omega

/-- A block that is put on the head is listed under the next number. -/
theorem advance (h : Indexed rules n) (sameRules : n'.rules = n.rules)
    (sameGenesis : n'.genesis = n.genesis) (blocks : n'.blocks = (n.withBlock b).blocks)
    (chain : n'.headState.chain = (n.headState.advance b.header).chain)
    (numbered : n'.headState.Numbered) (next : b.num = n.headState.head.num + 1) :
    Indexed rules n' where
  rules_eq := sameRules.trans h.rules_eq
  genesis_eq := sameGenesis.trans h.genesis_eq
  keyed := by
    rw [Keyed, blocks]
    exact forall_stored_withBlock h.keyed rfl
  numbered := numbered
  bottom := by
    rw [ChainState.blockId?, chain, genesisId, sameGenesis]
    exact ChainState.blockId?_advance_of_some h.bottom
  listed := h.listed.advance h.numbered blocks chain next

/-- A branch that the node switches to is made of stored blocks, and was found to be numbered
throughout when it was replayed. -/
theorem switch (h : Indexed rules n) {state : ChainState}
    (replays : (n.withBlock b).replayTo b.id = .ok state) (numbered : state.Numbered)
    (waiting : List SignedTransaction) :
    Indexed rules
      { n.withBlock b with headState := state, pending := waiting }.rebuildPending := by
  simp only [replayTo, bind_eq_ok] at replays
  obtain ⟨bs, collected, leads⟩ := replays
  have keyed : (n.withBlock b).Keyed := forall_stored_withBlock h.keyed rfl
  have stacked : ChainState.Stacked rules bs.reverse state := by
    have start : (n.withBlock b).genesis = ChainState.genesis rules := h.genesis_eq
    have played : (n.withBlock b).rules = rules := h.rules_eq
    rw [start, played] at leads
    simpa using ChainState.Stacked.genesis.replay leads
  have stored : ∀ c ∈ bs.reverse, ∃ id : BlockId, (n.withBlock b).blocks[id]? = some c := by
    intro c mem
    rcases mem_store_of_branch collected c (List.mem_reverse.mp mem) with none | found
    · cases none
    · exact found
  have bottom : state.blockId? 0 = some n.genesisId := by
    rw [ChainState.blockId?, ← Array.getElem?_toList, stacked.grown.chain_eq, genesisId,
      h.genesis_eq]
    rfl
  exact {
    rules_eq := h.rules_eq
    genesis_eq := h.genesis_eq
    keyed := keyed
    numbered := numbered
    bottom := bottom
    listed := listed_of_stacked keyed stacked stored }

/-- Every request leaves the chain and the store tied. -/
theorem handle (h : Indexed rules n) (request : Request) : Indexed rules (n.handle request) := by
  have start : n.genesis.Numbered := h.genesis_eq ▸ ChainState.numbered_genesis
  have numbered := numbered_handle start h.numbered request
  cases request with
  | push trx =>
    simp only [Node.handle, pushTransaction]
    split
    · exact h
    · exact ⟨h.rules_eq, h.genesis_eq, h.keyed, h.numbered, h.bottom, h.listed⟩
  | produce =>
    exact h.advance rfl rfl rfl follows_produceBlock.chain_eq numbered rfl
  | receive b =>
    simp only [Node.handle] at numbered ⊢
    have received := received n b
    generalize n.applyBlock b = r at received numbered
    cases received with
    | known | malformed | unlinked | refused | abandoned => exact h
    | extended _ _ applies =>
      obtain ⟨-, next, -⟩ := ChainState.applyBlock_eq_ok.mp applies
      have chain := (ChainState.follows_of_applyBlock applies).chain_eq
      exact h.advance rfl rfl rfl chain numbered next
    | stored unknown =>
      exact ⟨h.rules_eq, h.genesis_eq, forall_stored_withBlock h.keyed rfl, h.numbered, h.bottom,
        h.listed.withBlock unknown⟩
    | switched _ _ _ _ _ replays => exact h.switch replays numbered _

theorem run (h : Indexed rules n) (requests : List Request) : Indexed rules (n.run requests) := by
  induction requests generalizing n with
  | nil => exact h
  | cons request rest ih => exact ih (h.handle request)

/-- On a chain that 32 bits can number, a block of the current chain is found under its
number. -/
theorem blockId?_of_onChain (h : Indexed rules n) (range : n.headState.chain.size ≤ UInt32.size)
    {header : BlockHeader} (onChain : n.OnChain header) :
    n.headState.blockId? header.num.toNat = some header.id := by
  rcases onChain with rfl | ⟨b, mem, rfl⟩
  · have zero : n.genesis.head.num = 0 := by
      rw [h.genesis_eq]
      rfl
    rw [zero]
    exact h.bottom
  · obtain ⟨k, counted, placed⟩ := List.mem_filterMap.mp mem
    obtain ⟨id, listed, stored⟩ := Option.bind_eq_some_iff.mp placed
    have above : 0 < k := (List.mem_range'_1.mp counted).1
    obtain ⟨c, j, stored', place, num⟩ := h.listed k id above listed
    obtain rfl := Option.some.inj (stored.symm.trans stored')
    have below : j < n.headState.chain.size := (Array.getElem?_eq_some_iff.mp place).1
    have number : b.header.num.toNat = j := by
      rw [← Block.num, num, UInt32.toNat_ofNat_of_lt' (Nat.lt_of_lt_of_le below range)]
    rw [number, place, ← h.keyed id b stored]
    rfl

/-- Where the queue is tried, a block of the current chain is found under its number as well,
and it is not numbered above the head. -/
theorem reference_of_onChain (h : Indexed rules n) (inStep : n.InStep)
    (range : n.headState.chain.size ≤ UInt32.size) {header : BlockHeader}
    (onChain : n.OnChain header) :
    n.pendingState.blockId? header.num.toNat = some header.id ∧
      n.pendingState.head.num = n.headNum ∧ header.num ≤ n.headNum := by
  obtain ⟨head, chain⟩ := ChainState.head_chain_of_applyTransactions inStep
  have found := h.blockId?_of_onChain range onChain
  refine ⟨?_, congrArg (·.num) head, ?_⟩
  · rw [ChainState.blockId?, chain]
    exact found
  · have held : header.num.toNat < n.headState.chain.size :=
      (Array.getElem?_eq_some_iff.mp found).1
    exact (h.numbered.counted range (Nat.zero_lt_of_lt held)).num_le found

end Indexed

theorem pushTransaction_eq_error {trx : SignedTransaction} {error : ChainError} :
    (n.pushTransaction trx).1 = .error error ↔
      n.pendingState.applyTransaction n.rules n.headTime trx = .error error := by
  unfold pushTransaction
  cases n.pendingState.applyTransaction n.rules n.headTime trx <;> simp

/-- A draft is made at the head of a node, with any lifetime. Later the node may have been
asked anything. If it still has the block that was the head on its chain, which 32 bits can
number, and has not applied the draft, the draft is refused as expired exactly if its time is
before that of the head, and otherwise as bound to a stale block exactly if the head is more
than the window above the block. If neither is the case, it is not refused for its age, nor for
what it is bound to. -/
theorem draft_outdated_iff (name : NodeName) (chainName : String) (config : ChainConfig)
    (requests later : List Request) (lifetime : UInt64) (messages : List Message)
    (signatures : List (PublicKey × Signature)) :
    let n := (Node.make name chainName config).run requests
    let n' := n.run later
    let trx : SignedTransaction := ⟨n.draft lifetime messages, signatures⟩
    let answer := (n'.pushTransaction trx).1
    let late := n.headTime.after lifetime < n'.headTime
    let far := config.referenceBlockWindow.toNat < n'.headNum.toNat - n.headNum.toNat
    n'.headState.chain.size ≤ UInt32.size → n'.OnChain n.headState.head →
      n'.knowsTransaction trx.digest = false →
      n.headNum ≤ n'.headNum ∧
      (answer = .error (.expired (n.headTime.after lifetime) n'.headTime) ↔ late) ∧
      (answer = .error
          (.staleReferenceBlock n.headNum n'.headNum config.referenceBlockWindow) ↔
        ¬ late ∧ far) ∧
      (¬ late → ¬ far → ∀ error, answer = .error error → error.aboutAge = false) := by
  intro n n' trx answer late far range onChain fresh
  have indexed : Indexed ⟨Crypto.hash chainName.toUTF8.toList, config⟩ n' :=
    ((Indexed.make name chainName config).run requests).run later
  have inStep : n'.InStep := by
    have start : (Node.make name chainName config).InStep := rfl
    exact (start.run requests).run later
  obtain ⟨listed, height, (below : n.headNum ≤ n'.headNum)⟩ :=
    indexed.reference_of_onChain inStep range onChain
  have distance : config.referenceBlockWindow < n'.headNum - n.headNum ↔ far := by
    rw [UInt32.lt_iff_toNat_lt, UInt32.toNat_sub_of_le _ _ below]
  have outdated : ∀ error, error.aboutAge = true → (answer = .error error ↔
      (late ∧ .expired (n.headTime.after lifetime) n'.headTime = error) ∨
      (¬ late ∧ far ∧ .staleReferenceBlock n.headNum n'.headNum config.referenceBlockWindow =
        error)) := by
    intro error about
    have refused : n'.pendingState.applyTransaction n'.rules n'.headTime trx = .error error ↔ _ :=
      ChainState.refused_for_age_iff fresh listed rfl about
    rw [height, indexed.rules_eq] at refused
    rw [← distance, pushTransaction_eq_error, indexed.rules_eq]
    exact refused
  refine ⟨below, ?_, ?_, ?_⟩
  · rw [outdated _ rfl]
    simp
  · rw [outdated _ rfl]
    simp
  · intro alive near error fails
    by_contra about
    rcases (outdated error (by simpa using about)).mp fails with ⟨isLate, -⟩ | ⟨-, isFar, -⟩
    · exact alive isLate
    · exact near isFar

end

end Node

namespace Node

section sample

attribute [local instance] checksum

/-- A draft that may be one block below the head, and is alive for the time of two blocks, is
taken after one block, too far below the head after two, and expired after three. -/
theorem draft_outdated_iff_sample :
    let config := { sampleConfig with referenceBlockWindow := 1 }
    let n := (make "a" "lab" config).run [.produce]
    let trx : SignedTransaction := ⟨n.draft 6 [], []⟩
    let answerAfter (blocks : Nat) :=
      ((n.run (List.replicate blocks .produce)).pushTransaction trx).1
    answerAfter 1 = .ok trx.digest ∧
      answerAfter 2 = .error (.staleReferenceBlock 1 3 1) ∧
      answerAfter 3 = .error (.expired ⟨9⟩ ⟨12⟩) := by
  intro config n trx answerAfter
  let later (blocks : Nat) : Node := n.run (List.replicate blocks .produce)
  have facts : ∀ blocks ∈ [2, 3], (later blocks).headState.chain.size ≤ UInt32.size ∧
      (later blocks).OnChain n.headState.head ∧
      (later blocks).knowsTransaction trx.digest = false := by
    decide +kernel
  have outdated (blocks : Nat) (mem : blocks ∈ [2, 3]) :=
    let ⟨range, onChain, fresh⟩ := facts blocks mem
    draft_outdated_iff "a" "lab" config [.produce] (List.replicate blocks .produce) 6 [] []
      range onChain fresh
  refine ⟨by decide +kernel, ?_, ?_⟩
  · obtain ⟨-, -, stale, -⟩ := outdated 2 (by decide)
    have heights : n.headNum = 1 ∧ (n.run (List.replicate 2 .produce)).headNum = 3 := by
      decide +kernel
    have isStale := stale.mpr (by decide +kernel)
    rwa [heights.1, heights.2] at isStale
  · obtain ⟨-, late, -⟩ := outdated 3 (by decide)
    have times : n.headTime.after 6 = ⟨9⟩ ∧
        (n.run (List.replicate 3 .produce)).headTime = ⟨12⟩ := by
      decide +kernel
    have isLate := late.mpr (by decide +kernel)
    rwa [times.1, times.2] at isLate

end sample

end Node

end ChainLab
