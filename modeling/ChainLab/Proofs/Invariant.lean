import ChainLab.Proofs.PendingState

/-!
# Invariants of chain states

Chain states change by actions only: what surrounds them enters a digest or moves the head.
So a property that every action keeps, and that asks neither for the digests nor for the
head, holds of every state of a chain and of both states of every node, if it holds of the
genesis state.
-/

namespace ChainLab

variable [Crypto] {rules : Rules} {kept : ChainState → Prop}

namespace ChainState

/-- A property that every action keeps and that is about neither the digests of the applied
transactions nor the head. -/
structure Invariant (rules : Rules) (kept : ChainState → Prop) : Prop where
  execute {s s' : ChainState} {now : Time} {m : Message} {action : Action} :
    kept s → s.execute rules now m action = .ok s' → kept s'
  applied {s : ChainState} (digests : Std.ExtTreeSet Digest) :
    kept s → kept { s with applied := digests }
  advance {s : ChainState} (header : BlockHeader) : kept s → kept (s.advance header)

/-- What can be done to a state: a transaction or a block is applied, or a block is made
of the transactions of a queue that go through. -/
inductive Change where
  | transaction (now : Time) (trx : SignedTransaction)
  | block (b : Block)
  | production (maker : NodeName) (time : Time) (queue : List SignedTransaction)

/-- The state after a change; what is refused changes nothing. -/
def change (rules : Rules) (s : ChainState) : Change → ChainState
  | .transaction now trx =>
    match s.applyTransaction rules now trx with
    | .ok t => t
    | .error _ => s
  | .block b =>
    match s.applyBlock rules b with
    | .ok t => t
    | .error _ => s
  | .production maker time queue =>
    let (t, included) := s.takeValid rules time queue
    t.advance (Block.make s.head time maker included).header

def run (rules : Rules) (s : ChainState) (changes : List Change) : ChainState :=
  changes.foldl (change rules) s

namespace Invariant

variable {now : Time} {keys : KeySet} {s s' : ChainState}

theorem applyMessage (invariant : Invariant rules kept) {m : Message} (h : kept s)
    (applies : s.applyMessage rules now keys m = .ok s') : kept s' := by
  rcases dispatch_eq_ok.mp (applyMessage_eq_ok.mp applies).2 with ⟨-, -, rfl⟩ | ⟨action, -, done⟩
  · exact h
  · exact invariant.execute h done

theorem applyMessages (invariant : Invariant rules kept) {messages : List Message} (h : kept s)
    (applies : s.applyMessages rules now keys messages = .ok s') : kept s' := by
  induction messages generalizing s with
  | nil =>
    cases applies
    exact h
  | cons m rest ih =>
    simp only [ChainState.applyMessages, bind_eq_ok] at applies
    obtain ⟨t, once, later⟩ := applies
    exact ih (invariant.applyMessage h once) later

theorem applyTransactions (invariant : Invariant rules kept) {trxs : List SignedTransaction}
    (h : kept s) (applies : s.applyTransactions rules now trxs = .ok s') : kept s' := by
  induction trxs generalizing s with
  | nil =>
    cases applies
    exact h
  | cons trx rest ih =>
    obtain ⟨t, once, later⟩ := applyTransactions_cons_eq_ok.mp applies
    refine ih ?_ later
    obtain ⟨-, -, -, _, -, u, run, rfl⟩ := applyTransaction_eq_ok.mp once
    exact invariant.applied _ (invariant.applyMessages h run)

theorem applyTransaction (invariant : Invariant rules kept) {trx : SignedTransaction}
    (h : kept s) (applies : s.applyTransaction rules now trx = .ok s') : kept s' := by
  have alone : s.applyTransactions rules now [trx] = .ok s' :=
    applyTransactions_cons_eq_ok.mpr ⟨s', applies, rfl⟩
  exact invariant.applyTransactions h alone

theorem takeValid (invariant : Invariant rules kept) (h : kept s)
    (trxs : List SignedTransaction) : kept (s.takeValid rules now trxs).1 :=
  invariant.applyTransactions h (applyTransactions_takeValid trxs)

theorem follows (invariant : Invariant rules kept) {b : Block} (h : kept s)
    (next : Follows rules s b s') : kept s' := by
  obtain ⟨t, run, rfl⟩ := next.executes
  exact invariant.advance _ (invariant.applyTransactions h run)

/-- A branch that starts from genesis leads to a state with the property. -/
theorem grown (invariant : Invariant rules kept) (start : kept (genesis rules))
    {bs : List Block} (branch : Grown rules bs s) : kept s := by
  induction branch with
  | genesis => exact start
  | block _ last ih => exact invariant.follows ih last

theorem change (invariant : Invariant rules kept) (h : kept s) (c : Change) :
    kept (s.change rules c) := by
  cases c with
  | transaction now trx =>
    simp only [ChainState.change]
    split
    next t applies => exact invariant.applyTransaction h applies
    next => exact h
  | block b =>
    simp only [ChainState.change]
    split
    next t applies => exact invariant.follows h (follows_of_applyBlock applies)
    next => exact h
  | production maker time queue => exact invariant.advance _ (invariant.takeValid h queue)

/-- Whatever is done to a state with the property leads to states with the property. -/
theorem run (invariant : Invariant rules kept) (h : kept s) (changes : List Change) :
    kept (s.run rules changes) := by
  induction changes generalizing s with
  | nil => exact h
  | cons c rest ih => exact ih (invariant.change h c)

end Invariant

end ChainState

/-- The head state of a node has grown from genesis, and its queue leads on to the pending
state, so both have every property that actions keep. -/
theorem Node.invariant_run {name : NodeName} {chainName : String} {config : ChainConfig}
    (invariant :
      ChainState.Invariant ⟨Crypto.hash chainName.toUTF8.toList, config⟩ kept)
    (start : kept (ChainState.genesis ⟨Crypto.hash chainName.toUTF8.toList, config⟩))
    (requests : List Request) :
    kept ((make name chainName config).run requests).headState ∧
      kept ((make name chainName config).run requests).pendingState := by
  have built := (built_make name chainName config (·.hashed ⊆ [])).run requests
  obtain ⟨bs, grown, -⟩ := built.grown
  have inStep : (make name chainName config).InStep := rfl
  have leads := inStep.run requests
  rw [InStep, built.rules_eq] at leads
  have head := invariant.grown start grown
  exact ⟨head, invariant.applyTransactions head leads⟩

end ChainLab
