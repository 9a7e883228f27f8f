import ChainLab.Proofs.ReachedState
import ChainLab.Proofs.Refusals
import ChainLab.Proofs.Supply

/-!
# Amounts never overflow

The supply is an amount, and nobody owns more than there is. A payment is taken from one account
before it reaches another, so while it is on its way all accounts together own that much less, and
there is room for it wherever it goes. What an account adds up within itself it owns already. The
votes for a producer are stake of different accounts.
-/

namespace ChainLab

namespace Amount

/-- Amounts added up one after the other, as long as every sum is in range. -/
def addAll? (sum : Amount) : List Amount → Option Amount
  | [] => some sum
  | a :: rest => (sum.add? a).bind fun next => next.addAll? rest

variable {a b sum : Amount}

theorem add?_ne_none (fits : a.units.toNat + b.units.toNat < UInt64.size) : a.add? b ≠ none := by
  simp [add?, fits]

theorem exists_addAll? {amounts : List Amount}
    (fits : sum.units.toNat + (amounts.map (·.units.toNat)).sum < UInt64.size) :
    ∃ all, sum.addAll? amounts = some all ∧
      all.units.toNat = sum.units.toNat + (amounts.map (·.units.toNat)).sum := by
  induction amounts generalizing sum with
  | nil => exact ⟨sum, rfl, rfl⟩
  | cons a rest ih =>
    simp only [List.map_cons, List.sum_cons] at fits ⊢
    obtain ⟨next, added⟩ := Option.ne_none_iff_exists'.mp
      (add?_ne_none (a := sum) (b := a) (by omega))
    have value := toNat_of_add? added
    have rest_fits : next.units.toNat + (rest.map (·.units.toNat)).sum < UInt64.size := by omega
    obtain ⟨all, done, value'⟩ := ih rest_fits
    refine ⟨all, ?_, by omega⟩
    rw [addAll?, added, Option.bind_some, done]

end Amount

namespace ChainState

variable {s s' t : ChainState} {name recipient : AccountName} {a : Account} {amount : Amount}
  {now : Time} {rules : Rules} {keys : KeySet} {m : Message}

theorem funds_le_supply (found : s.account? name = some a) : a.funds ≤ s.supply := by
  rw [supply_of_account found]
  exact Nat.le_add_right _ _

section actions

/-- While a payment is on its way, the supply has room for it wherever it goes. -/
theorem room_of_debit (bounded : s.supply < UInt64.size) (paid : s.debit name amount = .ok t)
    (found : t.account? recipient = some a) : a.funds + amount.units.toNat < UInt64.size := by
  have missing := supply_debit paid
  have owned := funds_le_supply found
  omega

theorem credit_ne_overflow {held : Amount} {credited : Amount → Account}
    (fits : held.units.toNat + amount.units.toNat < UInt64.size) :
    (do
      let sum ← orError .overflow (held.add? amount)
      return credited sum) ≠ .error ChainError.overflow := by
  simp only [bind_pure_comp, ne_eq, map_eq_error, orError_eq_error, and_true]
  exact Amount.add?_ne_none fits

/-- A debit and a credit of the same amount are in range if the credit is, as long as the supply has
room for it. -/
theorem debit_credit_ne_overflow {credit : Account → Except ChainError Account}
    (bounded : s.supply < UInt64.size)
    (inRange : ∀ a : Account, a.funds + amount.units.toNat < UInt64.size →
      credit a ≠ .error .overflow) :
    (do
      let _ ← s.requireAccount recipient
      let t ← s.debit name amount
      t.updateAccount recipient credit) ≠ .error .overflow := by
  intro h
  simp only [bind_eq_error, requireAccount_eq_error, reduceCtorEq, and_false,
    requireAccount_eq_ok, failsOnly_debit.ne_overflow, updateAccount_eq_error, false_or,
    exists_and_right] at h
  obtain ⟨-, t, paid, a, found, full⟩ := h
  exact inRange a (room_of_debit bounded paid found) full

theorem transfer_ne_overflow (bounded : s.supply < UInt64.size) :
    s.transfer name recipient amount ≠ .error .overflow := by
  apply debit_credit_ne_overflow bounded
  intro a room
  apply credit_ne_overflow
  simp only [Account.funds] at room
  omega

theorem lock_ne_overflow (bounded : s.supply < UInt64.size) :
    s.lock name recipient amount ≠ .error .overflow := by
  apply debit_credit_ne_overflow bounded
  intro a room
  apply credit_ne_overflow
  simp only [Account.funds] at room
  omega

theorem unlock_ne_overflow (bounded : s.supply < UInt64.size) :
    s.unlock now name amount ≠ .error .overflow := by
  intro h
  simp only [unlock, bind_pure_comp, updateAccount_eq_error, reduceCtorEq, and_false, bind_eq_error,
    orError_eq_error, and_true, orError_eq_ok, map_eq_error, exists_false, or_false, false_or] at h
  obtain ⟨a, found, full⟩ := h
  have owned := funds_le_supply found
  refine Amount.add?_ne_none ?_ full
  simp only [Account.funds] at owned
  omega

theorem claim_ne_overflow (bounded : s.supply < UInt64.size) :
    claim rules s now name amount ≠ .error .overflow := by
  intro h
  simp only [claim, bind_pure_comp, updateAccount_eq_error, reduceCtorEq, and_false, bind_eq_error,
    orError_eq_error, orError_eq_ok, ensure_eq_error, ensure_eq_ok, map_eq_error, and_true,
    exists_const, false_or, exists_and_right] at h
  obtain ⟨a, found, ⟨unstaking, less⟩, -, full⟩ := h
  have owned := funds_le_supply found
  have part := Amount.toNat_of_sub? less
  refine Amount.add?_ne_none ?_ full
  simp only [Account.funds] at owned
  omega

variable [Crypto]

/-- Only payments and what an account adds up within itself can be out of range, and they are not
as long as the supply is in range. -/
theorem execute_ne_overflow {action : Action} (bounded : s.supply < UInt64.size) :
    s.execute rules now m action ≠ .error .overflow := by
  cases sums : action.addsUp with
  | false => exact (failsOnly_execute_of_not_addsUp sums).ne_overflow
  | true =>
    cases action <;>
      simp only [execute, Action.kind, ActionKind.managesAuthority, Bool.not_true, Bool.not_false,
        Bool.false_eq_true, if_false, if_true, ne_eq, bind_eq_error,
        failsOnly_requireActor.ne_overflow, false_or, not_exists, not_and]
    case transfer => exact fun _ _ => transfer_ne_overflow bounded
    case lock => exact fun _ _ => lock_ne_overflow bounded
    case unlock => exact fun _ _ => unlock_ne_overflow bounded
    case claim => exact fun _ _ => claim_ne_overflow bounded
    all_goals cases sums

end actions

section

variable [Crypto]

theorem dispatch_ne_overflow (bounded : s.supply < UInt64.size) :
    s.dispatch rules now m ≠ .error .overflow := by
  unfold dispatch
  split <;> simp [bind_eq_error, execute_ne_overflow bounded]

/-- What a message leaves behind is again in range for the next one. -/
theorem applyMessages_ne_overflow {messages : List Message} (bounded : s.supply < UInt64.size) :
    s.applyMessages rules now keys messages ≠ .error .overflow := by
  induction messages generalizing s with
  | nil => simp [applyMessages]
  | cons m rest ih =>
    simp only [applyMessages, applyMessage, ne_eq, bind_eq_error, checkAuthorization,
      failsOnly_checkLevels.ne_overflow, dispatch_ne_overflow bounded, and_false, exists_false,
      false_or, not_exists, not_and]
    intro t done
    have once : s.applyMessages rules now keys [m] = .ok t := by
      simpa [applyMessages, applyMessage, checkAuthorization] using done
    refine ih ?_
    rw [(invariant_supply s.supply).applyMessages rfl once]
    exact bounded

theorem applyTransaction_ne_overflow {trx : SignedTransaction} (bounded : s.supply < UInt64.size) :
    s.applyTransaction rules now trx ≠ .error .overflow := by
  cases signed : trx.verifiedKeys rules.chainId with
  | error key =>
    simp [applyTransaction, signed, bind_eq_error, ensure_eq_error, checkReference]
  | ok keys =>
    simp [applyTransaction, signed, bind_eq_error, ensure_eq_error, checkReference,
      applyMessages_ne_overflow bounded]

end

/-- The stake of each account that approves a producer. -/
def ballots (s : ChainState) (producer : AccountName) : List Amount :=
  (s.accounts.toList.filter fun (_, a) => a.approvedProducers.contains producer).map
    fun (_, a) => a.staked

theorem sum_ballots {producer : AccountName} :
    ((s.ballots producer).map (·.units.toNat)).sum = s.producerVotes producer :=
  congrArg List.sum List.map_map

theorem producerVotes_le_supply (producer : AccountName) : s.producerVotes producer ≤ s.supply := by
  have staked : ∀ entry ∈ s.accounts.toList, entry.2.staked.units.toNat ≤ entry.2.funds := by
    rintro ⟨name, a⟩ -
    simp only [Account.funds]
    omega
  calc s.producerVotes producer
    _ ≤ (s.accounts.toList.map fun entry => entry.2.staked.units.toNat).sum :=
      (List.filter_sublist.map _).sum_le_sum fun _ _ => Nat.zero_le _
    _ ≤ s.supply := List.sum_le_sum staked

/-- Nothing that is added up is out of range: no transaction is refused for an overflow, and the
votes for a producer, added up account by account, are an amount that is no larger than what the
genesis account started with. -/
structure WithinSupply [Crypto] (rules : Rules) (s : ChainState) : Prop where
  transaction : ∀ now trx, s.applyTransaction rules now trx ≠ .error .overflow
  votes : ∀ producer, ∃ votes, Amount.zero.addAll? (s.ballots producer) = some votes ∧
    votes.units.toNat = s.producerVotes producer ∧
    votes.units ≤ rules.config.genesisAccount.balance.units

theorem Reached.withinSupply [Crypto] (reached : Reached rules s) : s.WithinSupply rules := by
  let opening := rules.config.genesisAccount.balance.units
  have supply : s.supply = opening.toNat := reached.keeps (invariant_supply _) supply_genesis
  have bounded : s.supply < UInt64.size := supply ▸ opening.toNat_lt
  refine ⟨fun now trx => applyTransaction_ne_overflow bounded, fun producer => ?_⟩
  have votes := s.producerVotes_le_supply producer
  have fits : Amount.zero.units.toNat + ((s.ballots producer).map (·.units.toNat)).sum <
      UInt64.size := by
    rw [sum_ballots, Amount.zero, UInt64.toNat_zero]
    omega
  obtain ⟨all, added, value⟩ := Amount.exists_addAll? fits
  rw [sum_ballots] at value
  simp only [Amount.zero, UInt64.toNat_zero, Nat.zero_add] at value
  refine ⟨all, added, value, UInt64.le_iff_toNat_le.mpr ?_⟩
  rw [value, ← supply]
  exact votes

end ChainState

namespace Node

variable [Crypto]

/-- Token arithmetic cannot overflow: neither in the states that a run of a chain can reach, nor in
the head state and the pending state of a node at any time, is a transaction refused for an
overflow, and the votes for each producer add up to an amount within the genesis balance. -/
theorem withinSupply_run (rules : Rules) (changes : List ChainState.Change) (name : NodeName)
    (chainName : String) (config : ChainConfig) (requests : List Request) :
    ((ChainState.genesis rules).run rules changes).WithinSupply rules ∧
      let rules : Rules := ⟨Crypto.hash chainName.toUTF8.toList, config⟩
      let n := (make name chainName config).run requests
      n.headState.WithinSupply rules ∧ n.pendingState.WithinSupply rules := by
  constructor
  · exact ChainState.Reached.withinSupply ⟨changes, rfl⟩
  · intro rules n
    obtain ⟨head, pending⟩ := reached_run name chainName config requests
    exact ⟨head.withinSupply, pending.withinSupply⟩

end Node

end ChainLab
