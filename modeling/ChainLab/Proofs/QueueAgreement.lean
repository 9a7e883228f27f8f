import ChainLab.Proofs.ActionEffects
import ChainLab.Proofs.NodeRun
import ChainLab.Proofs.ReplicaAgreement

/-!
# The queues of the maker and the receiver of a block

The maker of a block tries its pending transactions in order, each on what the earlier ones
left, and drops those that fail. A receiver with the same queue comes to the same state,
but tries the whole queue again on top of the block: a transaction that failed for the maker
may apply after a later one. So the queues agree exactly if none of the dropped transactions
applies to the new head.
-/

namespace ChainLab

section

variable [Crypto] {rules : Rules} {now now' : Time} {s t u : ChainState}
  {trx : SignedTransaction} {trxs : List SignedTransaction}

namespace ChainState

/-- The transactions that fail when they are tried in order, each on top of those that
applied before. -/
def rejected (rules : Rules) (now : Time) :
    ChainState → List SignedTransaction → List SignedTransaction
  | _, [] => []
  | s, trx :: rest =>
    match s.applyTransaction rules now trx with
    | .error _ => trx :: rejected rules now s rest
    | .ok next => rejected rules now next rest

theorem takeValid_cons_of_error {error : ChainError}
    (fails : s.applyTransaction rules now trx = .error error) :
    s.takeValid rules now (trx :: trxs) = s.takeValid rules now trxs := by
  rw [takeValid, fails]

theorem takeValid_cons_of_ok (applies : s.applyTransaction rules now trx = .ok t) :
    s.takeValid rules now (trx :: trxs) =
      ((t.takeValid rules now trxs).1, trx :: (t.takeValid rules now trxs).2) := by
  rw [takeValid, applies]

theorem rejected_cons_of_error {error : ChainError}
    (fails : s.applyTransaction rules now trx = .error error) :
    s.rejected rules now (trx :: trxs) = trx :: s.rejected rules now trxs := by
  rw [rejected, fails]

theorem rejected_cons_of_ok (applies : s.applyTransaction rules now trx = .ok t) :
    s.rejected rules now (trx :: trxs) = t.rejected rules now trxs := by
  rw [rejected, applies]

/-- Every transaction is either kept or rejected. -/
theorem takeValid_append_rejected_perm :
    ((s.takeValid rules now trxs).2 ++ s.rejected rules now trxs).Perm trxs := by
  induction trxs generalizing s with
  | nil => exact List.Perm.refl _
  | cons trx rest ih =>
    cases result : s.applyTransaction rules now trx with
    | error error =>
      rw [takeValid_cons_of_error result, rejected_cons_of_error result]
      have moved : ((s.takeValid rules now rest).2 ++ trx :: s.rejected rules now rest).Perm
          (trx :: ((s.takeValid rules now rest).2 ++ s.rejected rules now rest)) :=
        List.perm_middle
      exact moved.trans (ih.cons trx)
    | ok t =>
      rw [takeValid_cons_of_ok result, rejected_cons_of_ok result]
      exact ih.cons trx

/-- Nothing is kept if and only if every transaction fails on the state there is. -/
theorem takeValid_eq_nil_iff :
    (s.takeValid rules now trxs).2 = [] ↔
      ∀ trx ∈ trxs, ∃ error, s.applyTransaction rules now trx = .error error := by
  induction trxs with
  | nil => simp [takeValid]
  | cons trx rest ih =>
    cases result : s.applyTransaction rules now trx with
    | error error =>
      rw [takeValid_cons_of_error result, ih, List.forall_mem_cons]
      constructor
      · intro others
        exact ⟨⟨error, result⟩, others⟩
      · intro all
        exact all.2
    | ok t =>
      rw [takeValid_cons_of_ok result]
      constructor
      · intro empty
        cases empty
      · intro all
        obtain ⟨error, fails⟩ := all trx List.mem_cons_self
        cases result.symm.trans fails

theorem hasApplied_of_applyTransaction (applies : s.applyTransaction rules now trx = .ok t)
    {digest : Digest} :
    t.hasApplied digest = true ↔ trx.digest = digest ∨ s.hasApplied digest = true := by
  obtain ⟨-, -, -, _, -, u, run, rfl⟩ := applyTransaction_eq_ok.mp applies
  have same := (sameChain_applyMessages run).applied
  simp [hasApplied, same, Std.ExtTreeSet.contains_insert]

theorem hasApplied_of_applyTransactions (applies : s.applyTransactions rules now trxs = .ok t)
    {digest : Digest} :
    t.hasApplied digest = true ↔
      (∃ trx ∈ trxs, trx.digest = digest) ∨ s.hasApplied digest = true := by
  induction trxs generalizing s with
  | nil =>
    cases applies
    simp
  | cons trx rest ih =>
    obtain ⟨u, first, later⟩ := applyTransactions_cons_eq_ok.mp applies
    rw [ih later, hasApplied_of_applyTransaction first, List.exists_mem_cons_iff, or_assoc,
      or_left_comm]

theorem applyTransaction_of_hasApplied (rules : Rules) (now : Time)
    (known : s.hasApplied trx.digest = true) :
    ∃ error, s.applyTransaction rules now trx = .error error := by
  cases result : s.applyTransaction rules now trx with
  | error error => exact ⟨error, rfl⟩
  | ok t =>
    obtain ⟨fresh, -⟩ := applyTransaction_eq_ok.mp result
    rw [known] at fresh
    cases fresh

/-- Where the kept transactions have been applied already, trying them again changes
nothing: only the rejected ones matter. -/
theorem takeValid_rejected
    (applied : ∀ trx ∈ (s.takeValid rules now trxs).2, u.hasApplied trx.digest = true) :
    u.takeValid rules now' trxs = u.takeValid rules now' (s.rejected rules now trxs) := by
  induction trxs generalizing s u with
  | nil => rfl
  | cons trx rest ih =>
    cases result : s.applyTransaction rules now trx with
    | error error =>
      rw [takeValid_cons_of_error result] at applied
      rw [rejected_cons_of_error result]
      cases again : u.applyTransaction rules now' trx with
      | error error' =>
        rw [takeValid_cons_of_error again, takeValid_cons_of_error again]
        exact ih applied
      | ok v =>
        have applied' : ∀ old ∈ (s.takeValid rules now rest).2,
            v.hasApplied old.digest = true := by
          intro old kept
          exact (hasApplied_of_applyTransaction again).mpr (.inr (applied old kept))
        rw [takeValid_cons_of_ok again, takeValid_cons_of_ok again, ih applied']
    | ok t =>
      rw [takeValid_cons_of_ok result] at applied
      obtain ⟨first, others⟩ := List.forall_mem_cons.mp applied
      obtain ⟨error, fails⟩ := applyTransaction_of_hasApplied rules now' first
      rw [rejected_cons_of_ok result, takeValid_cons_of_error fails]
      exact ih others

end ChainState

namespace Node

variable {n x y y' : Node} {b : Block}

/-- The pending transactions that are left out of the block a node makes. -/
def dropped (n : Node) : List SignedTransaction :=
  n.headState.rejected n.rules (n.headTime.after n.rules.config.blockInterval) n.pending

/-- The transactions in the block have been applied to the state that the block leads to. -/
theorem hasApplied_of_mem_produceBlock (included : trx ∈ n.produceBlock.1.transactions) :
    n.produceBlock.2.headState.hasApplied trx.digest = true := by
  obtain ⟨t, applies, same⟩ := (follows_produceBlock (n := n)).executes
  rw [same]
  exact (ChainState.hasApplied_of_applyTransactions applies).mpr (.inl ⟨trx, included, rfl⟩)

/-- The name of a node does not matter to what it makes of a transaction. -/
theorem handle_push_rename {name : NodeName} :
    { n with name := name }.handle (.push trx) = { n.handle (.push trx) with name := name } := by
  simp only [handle, pushTransaction, headTime]
  cases n.pendingState.applyTransaction n.rules n.headState.head.time trx with
  | error error => rfl
  | ok next => rfl

theorem run_push_rename {name : NodeName} :
    { n with name := name }.run (trxs.map .push) =
      { n.run (trxs.map .push) with name := name } := by
  induction trxs generalizing n with
  | nil => rfl
  | cons trx rest ih =>
    rw [List.map_cons, run, List.foldl_cons, handle_push_rename]
    exact ih

/-- A new head that is not on another branch was put on the head there was. -/
theorem applyBlock_eq_newHead (h : y.applyBlock b = (.ok .newHead, y')) :
    ∃ state, y.headState.applyBlock y.rules b = .ok state ∧
      y' = { y.withBlock b with headState := state }.rebuildPending := by
  have received := received y b
  rw [h] at received
  cases received with
  | extended _ _ applies => exact ⟨_, applies, rfl⟩

/-- The maker of a block and a receiver who had the same head state and the same queue have
the same head state again. The maker's queue is empty, the receiver's holds those of the
dropped transactions that apply, tried again in order on the new head. So the queues are the
same exactly if none of the dropped transactions applies. -/
theorem pending_eq_iff_dropped_fail (sameRules : y.rules = x.rules)
    (sameHead : y.headState = x.headState) (samePending : y.pending = x.pending)
    (accepted : y.applyBlock x.produceBlock.1 = (.ok .newHead, y')) :
    y'.headState = x.produceBlock.2.headState ∧
      (x.produceBlock.1.transactions ++ x.dropped).Perm x.pending ∧
      x.produceBlock.2.pending = [] ∧
      y'.pending = (y'.headState.takeValid x.rules y'.headTime x.dropped).2 ∧
      (y'.pending = x.produceBlock.2.pending ↔
        ∀ trx ∈ x.dropped, ∃ error,
          y'.headState.applyTransaction x.rules y'.headTime trx = .error error) := by
  obtain ⟨state, applies, rfl⟩ := applyBlock_eq_newHead accepted
  rw [sameRules, sameHead] at applies
  have agree : state = x.produceBlock.2.headState :=
    (ChainState.follows_of_applyBlock applies).eq_of_same follows_produceBlock
  subst agree
  have retried : x.produceBlock.2.headState.takeValid x.rules x.produceBlock.2.headTime x.pending =
      x.produceBlock.2.headState.takeValid x.rules x.produceBlock.2.headTime x.dropped :=
    ChainState.takeValid_rejected fun trx included => hasApplied_of_mem_produceBlock included
  have queue : { y.withBlock x.produceBlock.1 with
        headState := x.produceBlock.2.headState }.rebuildPending.pending =
      (x.produceBlock.2.headState.takeValid x.rules x.produceBlock.2.headTime x.dropped).2 := by
    rw [← retried, ← sameRules, ← samePending]
    rfl
  refine ⟨rfl, ChainState.takeValid_append_rejected_perm, rfl, queue, ?_⟩
  rw [queue]
  exact ChainState.takeValid_eq_nil_iff

end Node

end

namespace Node

theorem eq_ok_of_toOption {ε α β : Type} {r : Except ε α × β} {a : α}
    (h : r.1.toOption = some a) : r = (.ok a, r.2) := by
  obtain ⟨first, second⟩ := r
  cases first with
  | error error => cases h
  | ok a' =>
    cases h
    rfl

section sample

attribute [local instance] checksum

/-- A transaction of the genesis account on the genesis block. -/
def sampleDeed (expiration : Time) (action : Action) : SignedTransaction :=
  ⟨⟨expiration, 0, (make "a" "lab" sampleConfig).headId.refTag,
      [action.toMessage "eos" ((∅ : LevelSet).insert (Level.active "init0"))]⟩,
    [(sampleConfig.genesisAccount.publicKey, ⟨Bytes.zero 64⟩)]⟩

/-- Stake is locked by a transaction that expires before the next block. -/
def sampleEarly : SignedTransaction := sampleDeed ⟨1⟩ (.lock "init0" "init0" ⟨5⟩)

def sampleUnlock : SignedTransaction := sampleDeed ⟨100⟩ (.unlock "init0" ⟨5⟩)

/-- Stake is locked again, with time to spare. -/
def sampleLate : SignedTransaction := sampleDeed ⟨100⟩ (.lock "init0" "init0" ⟨6⟩)

/-- What has expired for the maker of a block has expired for the receiver. -/
theorem pending_eq_iff_dropped_fail_sample :
    let x := (make "a" "lab" sampleConfig).run ([sampleEarly, sampleLate].map .push)
    let y := (make "b" "lab" sampleConfig).run ([sampleEarly, sampleLate].map .push)
    ∃ y', y.applyBlock x.produceBlock.1 = (.ok .newHead, y') ∧
      x.pending.length = 2 ∧ x.dropped.length = 1 ∧
      y'.headState = x.produceBlock.2.headState ∧ y'.pending = x.produceBlock.2.pending := by
  intro x y
  have renamed : y = { x with name := "b" } := run_push_rename (n := make "a" "lab" sampleConfig)
  have facts :
      let received := y.applyBlock x.produceBlock.1
      received.1.toOption = some .newHead ∧ x.pending.length = 2 ∧ x.dropped.length = 1 ∧
        ∀ trx ∈ x.dropped, (received.2.headState.applyTransaction x.rules received.2.headTime
          trx).isOk = false := by
    decide +kernel
  obtain ⟨taken, waiting, left, fail⟩ := facts
  have accepted := eq_ok_of_toOption taken
  obtain ⟨agree, -, -, -, same⟩ :=
    pending_eq_iff_dropped_fail (by rw [renamed]) (by rw [renamed]) (by rw [renamed]) accepted
  refine ⟨_, accepted, waiting, left, agree, same.mpr ?_⟩
  intro trx mem
  exact exists_eq_error_iff.mpr (fail trx mem)

/-- The maker of a block drops a withdrawal that its stake does not cover when it comes to
it. For the receiver the stake locked by a later transaction covers it. -/
theorem pending_ne_of_covered_later :
    let waiting := [sampleEarly, sampleUnlock, sampleLate].map Request.push
    let x := (make "a" "lab" sampleConfig).run waiting
    let y := (make "b" "lab" sampleConfig).run waiting
    0 < sampleConfig.blockInterval ∧
      NoCollision (hashedInLife "a" "lab" sampleConfig (waiting ++ [.produce]) ++
        hashedInLife "b" "lab" sampleConfig (waiting ++ [.receive x.produceBlock.1]) ++
        x.pending.flatMap fun trx => [trx.transaction.preimage,
          Transaction.signingPreimage x.rules.chainId trx.digest]) ∧
      x.produceBlock.1.header.time.ticks.toNat < UInt64.size - 1 ∧
      y.rules = x.rules ∧ y.headState = x.headState ∧ y.pending = x.pending ∧
      ∃ y', y.applyBlock x.produceBlock.1 = (.ok .newHead, y') ∧
        y'.headState = x.produceBlock.2.headState ∧ y'.pending ≠ x.produceBlock.2.pending := by
  intro waiting x y
  have renamed : y = { x with name := "b" } := run_push_rename (n := make "a" "lab" sampleConfig)
  have facts :
      let life := hashedInLife "a" "lab" sampleConfig (waiting ++ [.produce]) ++
        hashedInLife "b" "lab" sampleConfig (waiting ++ [.receive x.produceBlock.1])
      let signed := x.pending.flatMap fun trx => [trx.transaction.preimage,
        Transaction.signingPreimage x.rules.chainId trx.digest]
      let distinct := (life ++ signed).eraseDups
      let received := y.applyBlock x.produceBlock.1
      (∀ s ∈ distinct, s.length < UInt64.size) ∧ (distinct.map Crypto.hash).Nodup ∧
        x.produceBlock.1.header.time.ticks.toNat < UInt64.size - 1 ∧
        received.1.toOption = some .newHead ∧
        received.2.headState = x.produceBlock.2.headState ∧
        received.2.pending.map (·.digest) ≠ x.produceBlock.2.pending.map (·.digest) := by
    decide +kernel
  obtain ⟨short, apart, early, taken, agree, differ⟩ := facts
  refine ⟨by decide, ?_, early, by rw [renamed], by rw [renamed], by rw [renamed], _,
    eq_ok_of_toOption taken, agree, ?_⟩
  · exact noCollision_of_nodup short apart fun _ => List.mem_eraseDups.mpr
  · intro same
    exact differ (congrArg (List.map (·.digest)) same)

end sample

end Node

end ChainLab
