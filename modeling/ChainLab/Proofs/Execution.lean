import ChainLab.Chain.Execution

/-!
# What a successful execution has done

Execution refuses with an error or yields a state. For every function the lemma
here says when it yields a state and which one, so that later proofs take a run
apart without opening the functions again. Those that other functions are made of
also have a lemma on when they refuse, and with which error.
-/

namespace ChainLab

variable {ε α β : Type}

@[simp] theorem bind_eq_ok {x : Except ε α} {f : α → Except ε β} {b : β} :
    x >>= f = .ok b ↔ ∃ a, x = .ok a ∧ f a = .ok b := by
  cases x with
  | error e =>
    constructor
    · intro h
      cases h
    · rintro ⟨a, h, -⟩
      cases h
  | ok a =>
    constructor
    · intro h
      exact ⟨a, rfl, h⟩
    · rintro ⟨a', h, hf⟩
      cases h
      exact hf

theorem bind_eq_error {x : Except ε α} {f : α → Except ε β} {e : ε} :
    x >>= f = .error e ↔ x = .error e ∨ ∃ a, x = .ok a ∧ f a = .error e := by
  cases x with
  | error e' =>
    constructor
    · intro h
      cases h
      exact .inl rfl
    · rintro (h | ⟨a, h, -⟩)
      · cases h
        rfl
      · cases h
  | ok a =>
    constructor
    · intro h
      exact .inr ⟨a, rfl, h⟩
    · rintro (h | ⟨a', h, hf⟩)
      · cases h
      · cases h
        exact hf

@[simp] theorem map_eq_ok {f : α → β} {x : Except ε α} {b : β} :
    f <$> x = .ok b ↔ ∃ a, x = .ok a ∧ f a = b := by
  cases x with
  | error e =>
    constructor
    · intro h
      cases h
    · rintro ⟨a, h, -⟩
      cases h
  | ok a =>
    constructor
    · intro h
      cases h
      exact ⟨a, rfl, rfl⟩
    · rintro ⟨a', h, rfl⟩
      cases h
      rfl

@[simp] theorem map_eq_error {f : α → β} {x : Except ε α} {e : ε} :
    f <$> x = .error e ↔ x = .error e := by
  cases x with
  | error e' =>
    constructor <;> intro h <;> cases h <;> rfl
  | ok a =>
    constructor <;> intro h <;> cases h

@[simp] theorem pure_eq_ok {a b : α} : (pure a : Except ε α) = .ok b ↔ a = b := by
  constructor
  · intro h
    cases h
    rfl
  · rintro rfl
    rfl

@[simp] theorem pure_ne_error {a : α} {e : ε} : (pure a : Except ε α) ≠ .error e := by
  intro h
  cases h

theorem exists_eq_ok_iff {x : Except ε α} : (∃ a, x = .ok a) ↔ x.isOk = true := by
  cases x with
  | error e =>
    constructor
    · rintro ⟨a, h⟩
      cases h
    · intro h
      cases h
  | ok a => exact ⟨fun _ => rfl, fun _ => ⟨a, rfl⟩⟩

theorem exists_eq_error_iff {x : Except ε α} : (∃ e, x = .error e) ↔ x.isOk = false := by
  cases x with
  | error e => exact ⟨fun _ => rfl, fun _ => ⟨e, rfl⟩⟩
  | ok a =>
    constructor
    · rintro ⟨e, h⟩
      cases h
    · intro h
      cases h

@[simp] theorem exists_unit {p : Unit → Prop} : (∃ u, p u) ↔ p () :=
  ⟨fun ⟨(), h⟩ => h, fun h => ⟨(), h⟩⟩

@[simp] theorem throw_ne_ok {e : ε} {b : α} : (throw e : Except ε α) ≠ .ok b := by
  intro h
  cases h

@[simp] theorem throw_eq_error {error e : ε} :
    (throw error : Except ε α) = .error e ↔ error = e := by
  constructor
  · intro h
    cases h
    rfl
  · rintro rfl
    rfl

@[simp] theorem mapError_eq_ok {δ : Type} {f : ε → δ} {x : Except ε α} {a : α} :
    x.mapError f = .ok a ↔ x = .ok a := by
  cases x with
  | error e =>
    constructor
    · intro h
      cases h
    · intro h
      cases h
  | ok b =>
    constructor
    · intro h
      cases h
      rfl
    · intro h
      cases h
      rfl

namespace ChainState

@[simp] theorem ensure_eq_ok {condition : Bool} {error : ChainError} {u : Unit} :
    ensure condition error = .ok u ↔ condition = true := by
  cases condition <;> simp [ensure]

theorem ensure_eq_error {condition : Bool} {error e : ChainError} :
    ensure condition error = .error e ↔ condition = false ∧ error = e := by
  cases condition <;> simp [ensure]

@[simp] theorem orError_eq_ok {error : ChainError} {o : Option α} {a : α} :
    orError error o = .ok a ↔ o = some a := by
  cases o <;> simp [orError]

@[simp] theorem orError_eq_error {error e : ChainError} {o : Option α} :
    orError error o = .error e ↔ o = none ∧ error = e := by
  cases o <;> simp [orError]

@[simp] theorem requireAccount_eq_ok {s : ChainState} {name : AccountName} {a : Account} :
    s.requireAccount name = .ok a ↔ s.account? name = some a := by
  unfold requireAccount
  cases s.account? name <;> simp

@[simp] theorem requireAccount_eq_error {s : ChainState} {name : AccountName} {e : ChainError} :
    s.requireAccount name = .error e ↔ s.account? name = none ∧ .unknownAccount name = e := by
  unfold requireAccount
  cases s.account? name <;> simp

/-- Changing an account changes that account and nothing else. -/
theorem updateAccount_eq_ok {s s' : ChainState} {name : AccountName}
    {change : Account → Except ChainError Account} :
    s.updateAccount name change = .ok s' ↔
      ∃ a a', s.account? name = some a ∧ change a = .ok a' ∧ s' = s.setAccount name a' := by
  simp only [updateAccount, bind_eq_ok, requireAccount_eq_ok, pure_eq_ok]
  constructor
  · rintro ⟨a, ha, a', ha', rfl⟩
    exact ⟨a, a', ha, ha', rfl⟩
  · rintro ⟨a, a', ha, ha', rfl⟩
    exact ⟨a, ha, a', ha', rfl⟩

theorem updateAccount_eq_error {s : ChainState} {name : AccountName} {e : ChainError}
    {change : Account → Except ChainError Account} :
    s.updateAccount name change = .error e ↔
      (s.account? name = none ∧ .unknownAccount name = e) ∨
        ∃ a, s.account? name = some a ∧ change a = .error e := by
  simp [updateAccount, bind_eq_error]

variable [Crypto] {rules : Rules} {now : Time} {keys : KeySet} {s s' : ChainState}

theorem applyMessage_eq_ok {m : Message} :
    s.applyMessage rules now keys m = .ok s' ↔
      checkAuthorization rules keys m s = .ok () ∧ s.dispatch rules now m = .ok s' := by
  simp [applyMessage]

omit [Crypto] in
/-- A reference is good if the chain has a block of that number and tag, and the head is
not numbered too far above it. -/
theorem checkReference_eq_ok {t : Transaction} :
    checkReference rules s t = .ok () ↔
      (∃ id, s.blockId? t.refBlockNum.toNat = some id ∧ id.refTag = t.refBlockTag) ∧
      s.head.num - t.refBlockNum ≤ rules.config.referenceBlockWindow := by
  simp only [checkReference, bind_eq_ok, ensure_eq_ok, exists_unit, Option.any_eq_true,
    decide_eq_true_eq]

/-- Messages run in sequence, so a run splits at every message. -/
theorem applyMessages_append {before after : List Message} :
    applyMessages rules now keys s (before ++ after) = .ok s' ↔
      ∃ t, applyMessages rules now keys s before = .ok t ∧
        applyMessages rules now keys t after = .ok s' := by
  induction before generalizing s with
  | nil => simp [applyMessages]
  | cons m before ih =>
    simp only [List.cons_append, applyMessages, bind_eq_ok, ih]
    constructor
    · rintro ⟨u, hu, t, ht, h⟩
      exact ⟨t, ⟨u, hu, ht⟩, h⟩
    · rintro ⟨t, ⟨u, hu, ht⟩, h⟩
      exact ⟨u, hu, t, ht, h⟩

/-- A run goes through each of its messages, in the state that the earlier ones led to. -/
theorem exists_applyMessage {before after : List Message} {m : Message}
    (run : s.applyMessages rules now keys (before ++ m :: after) = .ok s') :
    ∃ t t', s.applyMessages rules now keys before = .ok t ∧
      t.applyMessage rules now keys m = .ok t' := by
  obtain ⟨t, first, later⟩ := applyMessages_append.mp run
  simp only [applyMessages, bind_eq_ok] at later
  obtain ⟨t', step, -⟩ := later
  exact ⟨t, t', first, step⟩

/-- A transaction is accepted if it is new, alive, bound to a recent block of the
chain, rightly signed, and all of its messages go through. -/
theorem applyTransaction_eq_ok {trx : SignedTransaction} :
    s.applyTransaction rules now trx = .ok s' ↔
      s.hasApplied trx.digest = false ∧ now ≤ trx.transaction.expiration ∧
      checkReference rules s trx.transaction = .ok () ∧
      ∃ keys, trx.verifiedKeys rules.chainId = .ok keys ∧
      ∃ t, s.applyMessages rules now keys trx.transaction.messages = .ok t ∧
        s' = { t with applied := t.applied.insert trx.digest } := by
  cases h : trx.verifiedKeys rules.chainId with
  | error key => simp [applyTransaction, h]
  | ok keys => simp [applyTransaction, h, @eq_comm _ s']

/-- Transactions of a block run in sequence as well. -/
theorem applyTransactions_cons_eq_ok {trx : SignedTransaction} {rest : List SignedTransaction} :
    s.applyTransactions rules now (trx :: rest) = .ok s' ↔
      ∃ t, s.applyTransaction rules now trx = .ok t ∧
        t.applyTransactions rules now rest = .ok s' := by
  simp [applyTransactions]

/-- Of a list of transactions in two parts the second starts where the first ends. -/
theorem applyTransactions_append {before after : List SignedTransaction} :
    s.applyTransactions rules now (before ++ after) = .ok s' ↔
      ∃ t, s.applyTransactions rules now before = .ok t ∧
        t.applyTransactions rules now after = .ok s' := by
  induction before generalizing s with
  | nil => simp [applyTransactions]
  | cons trx before ih =>
    simp only [List.cons_append, applyTransactions, bind_eq_ok, ih]
    constructor
    · rintro ⟨u, hu, t, ht, h⟩
      exact ⟨t, ⟨u, hu, ht⟩, h⟩
    · rintro ⟨t, ⟨u, hu, ht⟩, h⟩
      exact ⟨u, hu, t, ht, h⟩

/-- A block is accepted if it names the head, is numbered and dated after it, spells
its contents, and all of its transactions go through. -/
theorem applyBlock_eq_ok {b : Block} :
    s.applyBlock rules b = .ok s' ↔
      b.previous = s.head.id ∧ b.num = s.head.num + 1 ∧ s.head.time < b.header.time ∧
      b.isConsistent = true ∧
      ∃ t, s.applyTransactions rules b.header.time b.transactions = .ok t ∧
        s' = t.advance b.header := by
  simp [applyBlock, Block.previous, Block.num, and_assoc, @eq_comm _ s']

/-- On top of the head that it names, a block is refused only for what is in it. -/
theorem eq_invalidBlock_of_applyBlock {b : Block} (link : b.previous = s.head.id)
    {error : ChainError} (fails : s.applyBlock rules b = .error error) :
    ∃ reason, error = .invalidBlock b.id reason := by
  simp only [applyBlock, bind_eq_error, ensure_eq_error, exists_unit] at fails
  rcases fails with ⟨apart, -⟩ | ⟨-, ⟨-, same⟩ | ⟨-, refused | ⟨t, -, done⟩⟩⟩
  · exact absurd link (of_decide_eq_false apart)
  · exact ⟨_, same.symm⟩
  · cases run : s.applyTransactions rules b.header.time b.transactions with
    | error reason =>
      rw [run] at refused
      cases refused
      exact ⟨reason, rfl⟩
    | ok t =>
      rw [run] at refused
      cases refused
  · cases done

/-- The transactions kept, and only they, lead to the state that is reached. -/
theorem applyTransactions_takeValid (trxs : List SignedTransaction) :
    s.applyTransactions rules now (s.takeValid rules now trxs).2 =
      .ok (s.takeValid rules now trxs).1 := by
  induction trxs generalizing s with
  | nil => rfl
  | cons trx rest ih =>
    unfold takeValid
    cases h : s.applyTransaction rules now trx with
    | error error => exact ih
    | ok t => exact applyTransactions_cons_eq_ok.mpr ⟨t, h, ih⟩

end ChainState

end ChainLab
