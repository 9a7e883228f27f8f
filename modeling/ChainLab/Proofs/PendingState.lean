import ChainLab.Proofs.QueueAgreement

/-!
# The pending state is the head state with the queue on top

A node keeps its head state, its queue and its pending state apart and changes them one
by one: a push adds to the queue, a block that the node makes empties it, a new head makes
the node try the queue again. Whatever it was asked to do, applying the queue to the head
state goes through and ends in the pending state. So whatever is pending is alive at head
time and bound to a recent block of the current chain.
-/

namespace ChainLab

section

variable [Crypto] {rules : Rules} {now : Time} {s s' : ChainState} {trx : SignedTransaction}
  {trxs : List SignedTransaction}

namespace ChainState

theorem head_chain_of_applyTransaction (applies : s.applyTransaction rules now trx = .ok s') :
    s'.head = s.head ∧ s'.chain = s.chain := by
  have alone : s.applyTransactions rules now [trx] = .ok s' :=
    applyTransactions_cons_eq_ok.mpr ⟨s', applies, rfl⟩
  exact head_chain_of_applyTransactions alone

/-- What a transaction is bound to is the chain that all of them are applied to: the ones
before it move neither the head nor the clock. -/
theorem admitted_of_applyTransactions (applies : s.applyTransactions rules now trxs = .ok s') :
    ∀ trx ∈ trxs, now ≤ trx.transaction.expiration ∧
      checkReference rules s trx.transaction = .ok () := by
  induction trxs generalizing s with
  | nil =>
    intro trx mem
    cases mem
  | cons first rest ih =>
    obtain ⟨t, once, later⟩ := applyTransactions_cons_eq_ok.mp applies
    intro trx mem
    rcases List.mem_cons.mp mem with rfl | other
    · obtain ⟨-, alive, bound, -⟩ := applyTransaction_eq_ok.mp once
      exact ⟨alive, bound⟩
    · obtain ⟨alive, bound⟩ := ih later trx other
      obtain ⟨head, chain⟩ := head_chain_of_applyTransaction once
      refine ⟨alive, ?_⟩
      rw [checkReference_eq_ok, blockId?, head, chain] at bound
      exact checkReference_eq_ok.mpr bound

/-- The number of the head counts the blocks of the chain, as far as 32 bits count. -/
def Numbered (s : ChainState) : Prop := s.head.num + 1 = UInt32.ofNat s.chain.size

theorem numbered_genesis : (genesis rules).Numbered := rfl

omit [Crypto] in
theorem Numbered.advance (h : s.Numbered) {header : BlockHeader}
    (next : header.num = s.head.num + 1) : (s.advance header).Numbered := by
  have count : (s.advance header).chain.size = s.chain.size + 1 := Array.size_push _
  rw [Numbered, count, UInt32.ofNat_add, ← h]
  exact congrArg (· + 1) next

theorem Numbered.applyTransactions (h : s.Numbered)
    (applies : s.applyTransactions rules now trxs = .ok s') : s'.Numbered := by
  obtain ⟨head, chain⟩ := head_chain_of_applyTransactions applies
  rw [Numbered, head, chain]
  exact h

theorem Numbered.applyBlock (h : s.Numbered) {b : Block}
    (applies : s.applyBlock rules b = .ok s') : s'.Numbered := by
  obtain ⟨-, next, -, -, t, run, rfl⟩ := applyBlock_eq_ok.mp applies
  obtain ⟨head, -⟩ := head_chain_of_applyTransactions run
  rw [← head] at next
  exact (h.applyTransactions run).advance next

theorem Numbered.replay (h : s.Numbered) {bs : List Block}
    (replays : Node.replay rules s bs = .ok s') : s'.Numbered := by
  induction bs generalizing s with
  | nil =>
    cases replays
    exact h
  | cons b bs ih =>
    simp only [Node.replay, bind_eq_ok] at replays
    obtain ⟨t, once, later⟩ := replays
    exact ih (h.applyBlock once) later

/-- The number of the head counts the blocks of the chain above the genesis block. -/
def Counted (s : ChainState) : Prop := s.chain.size = s.head.num.toNat + 1

omit [Crypto] in
/-- On a chain that 32 bits can number the count is exact. -/
theorem Numbered.counted (h : s.Numbered) (range : s.chain.size ≤ UInt32.size)
    (nonempty : 0 < s.chain.size) : s.Counted := by
  have wrapped := congrArg UInt32.toNat h
  have small := s.head.num.toNat_lt
  rw [UInt32.toNat_add, UInt32.toNat_ofNat'] at wrapped
  simp only [UInt32.size] at range
  have one : (1 : UInt32).toNat = 1 := rfl
  rw [Counted]
  omega

omit [Crypto] in
/-- No block of the chain is numbered above the head. -/
theorem Counted.num_le (h : s.Counted) {num : UInt32} {id : BlockId}
    (listed : s.blockId? num.toNat = some id) : num ≤ s.head.num := by
  have below : num.toNat < s.chain.size := (Array.getElem?_eq_some_iff.mp listed).1
  rw [Counted] at h
  rw [UInt32.le_iff_toNat_le]
  omega

omit [Crypto] in
/-- A reference that passes is to one of the last blocks below the head. -/
theorem Counted.reference_le (h : s.Counted) {t : Transaction}
    (bound : checkReference rules s t = .ok ()) :
    t.refBlockNum.toNat ≤ s.head.num.toNat ∧
      s.head.num.toNat ≤
        t.refBlockNum.toNat + rules.config.referenceBlockWindow.toNat := by
  obtain ⟨⟨id, listed, -⟩, recent⟩ := checkReference_eq_ok.mp bound
  have order := h.num_le listed
  have age := UInt32.le_iff_toNat_le.mp recent
  rw [UInt32.toNat_sub_of_le _ _ order] at age
  have below := UInt32.le_iff_toNat_le.mp order
  constructor <;> omega

omit [Crypto] in
theorem Numbered.reference_le (h : s.Numbered) (range : s.chain.size ≤ UInt32.size)
    {t : Transaction} (bound : checkReference rules s t = .ok ()) :
    t.refBlockNum.toNat ≤ s.head.num.toNat ∧
      s.head.num.toNat ≤
        t.refBlockNum.toNat + rules.config.referenceBlockWindow.toNat := by
  obtain ⟨⟨id, listed, -⟩, -⟩ := checkReference_eq_ok.mp bound
  have below : t.refBlockNum.toNat < s.chain.size := (Array.getElem?_eq_some_iff.mp listed).1
  exact (h.counted range (Nat.zero_lt_of_lt below)).reference_le bound

end ChainState

namespace Node

variable {n : Node}

/-- Head state, queue and pending state are in step: the queue leads from the one to the
other. -/
def InStep (n : Node) : Prop :=
  n.headState.applyTransactions n.rules n.headTime n.pending = .ok n.pendingState

/-- Whatever the queue was, what is left of it after trying it again is in step. -/
theorem inStep_rebuildPending (n : Node) : n.rebuildPending.InStep :=
  ChainState.applyTransactions_takeValid n.pending

theorem InStep.pushTransaction (h : n.InStep) (trx : SignedTransaction) :
    (n.pushTransaction trx).2.InStep := by
  unfold Node.pushTransaction
  cases result : n.pendingState.applyTransaction n.rules n.headTime trx with
  | error error => exact h
  | ok next =>
    apply ChainState.applyTransactions_append.mpr
    refine ⟨n.pendingState, h, ?_⟩
    exact ChainState.applyTransactions_cons_eq_ok.mpr ⟨next, result, rfl⟩

theorem InStep.applyBlock (h : n.InStep) (b : Block) : (n.applyBlock b).2.InStep := by
  have received := received n b
  generalize n.applyBlock b = r at received
  cases received with
  | known | malformed | unlinked | refused | stored | abandoned => exact h
  | extended | switched => exact inStep_rebuildPending _

/-- Every request leaves the three in step. -/
theorem InStep.handle (h : n.InStep) (request : Request) : (n.handle request).InStep := by
  cases request with
  | push trx => exact h.pushTransaction trx
  | produce => rfl
  | receive b => exact h.applyBlock b

theorem InStep.run (h : n.InStep) (requests : List Request) : (n.run requests).InStep := by
  induction requests generalizing n with
  | nil => exact h
  | cons request rest ih => exact ih (h.handle request)

theorem genesis_handle (n : Node) (request : Request) :
    (n.handle request).genesis = n.genesis := by
  cases request with
  | push trx =>
    simp only [handle, Node.pushTransaction]
    split <;> rfl
  | produce => rfl
  | receive b =>
    simp only [handle]
    have received := received n b
    generalize n.applyBlock b = r at received
    cases received <;> rfl

/-- A new head is numbered by the block that was put on it, the last of a replayed branch
if the node switched to that branch. -/
theorem numbered_handle (start : n.genesis.Numbered) (h : n.headState.Numbered)
    (request : Request) : (n.handle request).headState.Numbered := by
  cases request with
  | push trx =>
    simp only [handle, Node.pushTransaction]
    split <;> exact h
  | produce =>
    let time := n.headTime.after n.rules.config.blockInterval
    have taken : n.headState.applyTransactions n.rules time
        (n.headState.takeValid n.rules time n.pending).2 = .ok _ :=
      ChainState.applyTransactions_takeValid n.pending
    obtain ⟨head, -⟩ := ChainState.head_chain_of_applyTransactions taken
    apply (h.applyTransactions taken).advance
    rw [head]
    rfl
  | receive b =>
    simp only [handle]
    have received := received n b
    generalize n.applyBlock b = r at received
    cases received with
    | known | malformed | unlinked | refused | stored | abandoned => exact h
    | extended _ _ applies => exact h.applyBlock applies
    | switched _ _ _ _ _ replays =>
      simp only [replayTo, bind_eq_ok] at replays
      obtain ⟨bs, -, leads⟩ := replays
      exact start.replay leads

theorem numbered_run (start : n.genesis.Numbered) (h : n.headState.Numbered)
    (requests : List Request) : (n.run requests).headState.Numbered := by
  induction requests generalizing n with
  | nil => exact h
  | cons request rest ih =>
    refine ih ?_ (numbered_handle start h request)
    rw [genesis_handle]
    exact start

/-- Whatever a node was asked to do, applying the queue in order to the head state at head
time goes through and ends in the pending state. So every pending transaction is alive at
head time, and its reference is to a block of the current chain no further below the head
than the window allows. The head counts as many blocks above it as there are, on a chain
that 32 bits can number. -/
theorem pendingState_eq_queue_applied (name : NodeName) (chainName : String)
    (config : ChainConfig) (requests : List Request) :
    let n := (make name chainName config).run requests
    n.headState.applyTransactions ⟨Crypto.hash chainName.toUTF8.toList, config⟩ n.headTime
        n.pending = .ok n.pendingState ∧
      ∀ trx ∈ n.pending,
        n.headTime ≤ trx.transaction.expiration ∧
        (∃ id, n.headState.blockId? trx.transaction.refBlockNum.toNat = some id ∧
          id.refTag = trx.transaction.refBlockTag) ∧
        n.headNum - trx.transaction.refBlockNum ≤ config.referenceBlockWindow ∧
        (n.headState.chain.size ≤ UInt32.size →
          trx.transaction.refBlockNum.toNat ≤ n.headNum.toNat ∧
          n.headNum.toNat ≤
            trx.transaction.refBlockNum.toNat + config.referenceBlockWindow.toNat) := by
  intro n
  have start : (make name chainName config).InStep := rfl
  have inStep : n.InStep := start.run requests
  have numbered : n.headState.Numbered :=
    numbered_run ChainState.numbered_genesis ChainState.numbered_genesis requests
  have rules : n.rules = ⟨Crypto.hash chainName.toUTF8.toList, config⟩ :=
    (built_run name chainName config requests).rules_eq
  rw [InStep, rules] at inStep
  refine ⟨inStep, ?_⟩
  intro trx waiting
  obtain ⟨alive, bound⟩ := ChainState.admitted_of_applyTransactions inStep trx waiting
  obtain ⟨listed, recent⟩ := ChainState.checkReference_eq_ok.mp bound
  refine ⟨alive, listed, recent, ?_⟩
  intro range
  exact numbered.reference_le range bound

end Node

end

namespace Node

section sample

attribute [local instance] checksum

/-- A node makes a block of its queue, is won over by a longer branch of a rival without
that block, and is handed one more transaction. -/
def sampleRequeue : List Request :=
  let rival := (make "b" "lab" sampleConfig).produceBlock
  [.push sampleLate, .produce, .receive rival.1, .receive rival.2.produceBlock.1,
    .push (sampleDeed ⟨100⟩ (.unlock "init0" ⟨5⟩))]

/-- The transaction of the abandoned block is pending again, in front of the new one. It is
alive and bound to the genesis block, two blocks below the head. -/
theorem pendingState_eq_queue_applied_sample :
    let n := (make "a" "lab" sampleConfig).run sampleRequeue
    n.headNum = 2 ∧ n.pending.length = 2 ∧
      n.headState.applyTransactions n.rules n.headTime n.pending = .ok n.pendingState ∧
      ∃ trx ∈ n.pending, trx.digest = sampleLate.digest ∧
        n.headTime ≤ trx.transaction.expiration ∧
        2 ≤ trx.transaction.refBlockNum.toNat + sampleConfig.referenceBlockWindow.toNat := by
  intro n
  have facts : n.headNum = 2 ∧ n.pending.length = 2 ∧
      n.headState.chain.size ≤ UInt32.size ∧ sampleLate.digest ∈ n.pending.map (·.digest) := by
    decide +kernel
  obtain ⟨height, waiting, range, again⟩ := facts
  obtain ⟨trx, mem, same⟩ := List.mem_map.mp again
  obtain ⟨applies, admitted⟩ :=
    pendingState_eq_queue_applied "a" "lab" sampleConfig sampleRequeue
  obtain ⟨alive, -, -, within⟩ := admitted trx mem
  obtain ⟨-, below⟩ := within range
  have rules : n.rules = ⟨Crypto.hash "lab".toUTF8.toList, sampleConfig⟩ :=
    (built_run "a" "lab" sampleConfig sampleRequeue).rules_eq
  have two : n.headNum.toNat = 2 := congrArg UInt32.toNat height
  refine ⟨height, waiting, ?_, trx, mem, same, alive, ?_⟩
  · rw [rules]
    exact applies
  · rw [← two]
    exact below

end sample

end Node

end ChainLab
