import ChainLab.Proofs.Invariant
import ChainLab.Proofs.MapSum

/-!
# The supply never changes

Five of the native actions move funds, between accounts or between what an account
holds liquid, staked and on its way back from stake. None of them makes or destroys
any, so whatever happens to a chain, all accounts together own what the genesis
account started with.
-/

namespace ChainLab

/-- What an account owns: liquid, staked, and on its way back from stake. -/
def Account.funds (a : Account) : Nat :=
  a.balance.units.toNat + a.staked.units.toNat + a.unstaking.units.toNat

namespace Account

variable {a : Account} {amount balance staked : Amount}

theorem funds_of_balance (sum : a.balance.add? amount = some balance) :
    { a with balance }.funds = a.funds + amount.units.toNat := by
  have gained := Amount.toNat_of_add? sum
  simp only [funds]
  omega

theorem funds_of_staked (sum : a.staked.add? amount = some staked) :
    { a with staked }.funds = a.funds + amount.units.toNat := by
  have gained := Amount.toNat_of_add? sum
  simp only [funds]
  omega

end Account

namespace ChainState

/-- What all accounts own together. -/
def supply (s : ChainState) : Nat := (s.accounts.toList.map fun (_, a) => a.funds).sum

/-- What all accounts but one own together. -/
def supplyBut (s : ChainState) (name : AccountName) : Nat :=
  ((s.accounts.erase name).toList.map fun (_, a) => a.funds).sum

variable {s s' t : ChainState} {name : AccountName} {a a' : Account}

theorem supply_of_account (h : s.account? name = some a) :
    s.supply = a.funds + s.supplyBut name :=
  sum_of_getElem? h

theorem supply_of_no_account (h : s.account? name = none) : s.supply = s.supplyBut name :=
  sum_of_getElem?_eq_none h

theorem supply_setAccount : (s.setAccount name a).supply = a.funds + s.supplyBut name :=
  sum_insert

/-- Funds that stay within an account are not missed. -/
theorem supply_setAccount_of_funds_eq (found : s.account? name = some a)
    (same : a'.funds = a.funds) : (s.setAccount name a').supply = s.supply := by
  rw [supply_setAccount, supply_of_account found, same]

theorem supply_debit {amount : Amount} (h : s.debit name amount = .ok t) :
    t.supply + amount.units.toNat = s.supply := by
  obtain ⟨a, balance, found, less, rfl⟩ := debit_eq_ok.mp h
  have paid := Amount.toNat_of_sub? less
  rw [supply_setAccount, supply_of_account found]
  simp only [Account.funds]
  omega

/-- Crediting one account with what another one has been debited makes the supply whole again. -/
theorem supply_debit_credit {payer : AccountName} {amount : Amount}
    (debited : s.debit payer amount = .ok t) (found : t.account? name = some a)
    (more : a'.funds = a.funds + amount.units.toNat) :
    (t.setAccount name a').supply = s.supply := by
  have missing := supply_debit debited
  have before := supply_of_account found
  rw [supply_setAccount, more]
  omega

theorem supply_newAccount {creator : AccountName} {owner active recovery : Authority}
    {deposit : Amount} (h : s.newAccount creator name owner active recovery deposit = .ok s') :
    s'.supply = s.supply := by
  obtain ⟨-, free, -, -, -, t, debited, rfl⟩ := newAccount_eq_ok.mp h
  have paid := supply_debit debited
  have unopened : t.account? name = none := by
    obtain ⟨payer, balance, found, -, rfl⟩ := debit_eq_ok.mp debited
    have apart : creator ≠ name := by
      rintro rfl
      rw [free] at found
      cases found
    rw [account?_setAccount_of_ne apart, free]
  rw [supply_setAccount, ← supply_of_no_account unopened]
  simp only [Account.funds, Account.make, Amount.zero, UInt64.toNat_zero]
  omega

theorem supply_unlock {now : Time} {amount : Amount} (h : s.unlock now name amount = .ok s') :
    s'.supply = s.supply := by
  obtain ⟨a, both, staked, found, sum, rest, rfl⟩ := unlock_eq_ok.mp h
  have pooled := Amount.toNat_of_add? sum
  have divided := Amount.toNat_of_sub? rest
  apply supply_setAccount_of_funds_eq found
  simp only [Account.funds]
  omega

theorem supply_claim {rules : Rules} {now : Time} {amount : Amount}
    (h : claim rules s now name amount = .ok s') : s'.supply = s.supply := by
  obtain ⟨a, unstaking, balance, found, rest, -, sum, rfl⟩ := claim_eq_ok.mp h
  have taken := Amount.toNat_of_sub? rest
  have gained := Amount.toNat_of_add? sum
  apply supply_setAccount_of_funds_eq found
  simp only [Account.funds]
  omega

variable [Crypto] {rules : Rules} {now : Time}

/-- No action makes or destroys funds. -/
theorem supply_execute {m : Message} {action : Action}
    (h : s.execute rules now m action = .ok s') : s'.supply = s.supply := by
  cases action <;> simp [execute, Action.kind, ActionKind.managesAuthority] at h
  case newAccount => exact supply_newAccount h.2
  case transfer =>
    obtain ⟨-, t, debited, a, balance, found, sum, rfl⟩ := transfer_eq_ok.mp h.2
    exact supply_debit_credit debited found (Account.funds_of_balance sum)
  case lock =>
    obtain ⟨-, t, debited, a, staked, found, sum, rfl⟩ := lock_eq_ok.mp h.2
    exact supply_debit_credit debited found (Account.funds_of_staked sum)
  case unlock => exact supply_unlock h.2
  case claim => exact supply_claim h.2
  case setProxy =>
    obtain ⟨-, a, found, rfl⟩ := setProxy_eq_ok.mp h.2
    exact supply_setAccount_of_funds_eq found rfl
  case setProducer =>
    obtain ⟨-, -, rfl⟩ := setProducer_eq_ok.mp h.2
    rfl
  case updateProducer =>
    obtain ⟨p, -, rfl⟩ := updateProducer_eq_ok.mp h.2
    rfl
  case approveProducer =>
    obtain ⟨-, a, found, rfl⟩ := approveProducer_eq_ok.mp h.2
    exact supply_setAccount_of_funds_eq found rfl
  case updateAuthority =>
    obtain ⟨-, a, _, found, -, -, -, rfl⟩ := updateAuthority_eq_ok.mp h
    exact supply_setAccount_of_funds_eq found rfl
  case deleteAuthority =>
    obtain ⟨-, -, a, _, found, -, -, -, rfl⟩ := deleteAuthority_eq_ok.mp h
    exact supply_setAccount_of_funds_eq found rfl
  case linkAuthority =>
    obtain ⟨-, -, a, found, -, rfl⟩ := linkAuthority_eq_ok.mp h
    exact supply_setAccount_of_funds_eq found rfl
  case unlinkAuthority =>
    obtain ⟨-, a, found, -, rfl⟩ := unlinkAuthority_eq_ok.mp h
    exact supply_setAccount_of_funds_eq found rfl
  case setCode =>
    obtain ⟨a, found, rfl⟩ := setCode_eq_ok.mp h.2
    exact supply_setAccount_of_funds_eq found rfl

/-- What all accounts own together is kept, whatever it is. -/
theorem invariant_supply (k : Nat) : Invariant rules (fun s => s.supply = k) where
  execute kept done := (supply_execute done).trans kept
  applied _ kept := kept
  advance _ kept := kept

theorem supply_applyTransaction {trx : SignedTransaction}
    (h : s.applyTransaction rules now trx = .ok s') : s'.supply = s.supply :=
  (invariant_supply s.supply).applyTransaction rfl h

theorem supply_takeValid (trxs : List SignedTransaction) :
    (s.takeValid rules now trxs).1.supply = s.supply :=
  (invariant_supply s.supply).takeValid rfl trxs

theorem supply_genesis :
    (genesis rules).supply = rules.config.genesisAccount.balance.units.toNat := by
  -- The first account is opened on a state without accounts.
  let unopened : ChainState := { genesis rules with accounts := ∅ }
  have opened : (genesis rules).supply = _ := supply_setAccount (s := unopened)
  have nobody : unopened.supplyBut rules.config.genesisAccount.name = 0 := by
    have empty : (∅ : Std.ExtTreeMap AccountName Account).toList = [] :=
      Std.ExtTreeMap.toList_eq_nil_iff.mpr rfl
    simp [supplyBut, unopened, empty]
  rw [opened, nobody]
  simp [Account.funds, Account.make, Amount.zero]

theorem Grown.supply_eq {bs : List Block} (h : Grown rules bs s) :
    s.supply = rules.config.genesisAccount.balance.units.toNat :=
  (invariant_supply _).grown supply_genesis h

theorem supply_run (changes : List Change) : (s.run rules changes).supply = s.supply :=
  (invariant_supply s.supply).run rfl changes

end ChainState

namespace Node

variable [Crypto] {n : Node}

/-- Pending transactions move the funds of the head state and no others. -/
def Balanced (n : Node) : Prop := n.pendingState.supply = n.headState.supply

theorem balanced_rebuildPending : n.rebuildPending.Balanced :=
  ChainState.supply_takeValid n.pending

theorem Balanced.handle (h : n.Balanced) (request : Request) : (n.handle request).Balanced := by
  cases request with
  | push trx =>
    simp only [Node.handle, pushTransaction]
    split
    next => exact h
    next t applies =>
      have kept := ChainState.supply_applyTransaction applies
      exact kept.trans h
  | produce => rfl
  | receive b =>
    simp only [Node.handle]
    have received := received n b
    generalize n.applyBlock b = r at received
    cases received with
    | known | malformed | unlinked | refused | stored | abandoned => exact h
    | extended | switched => exact balanced_rebuildPending

theorem Balanced.run (h : n.Balanced) (requests : List Request) : (n.run requests).Balanced := by
  induction requests generalizing n with
  | nil => exact h
  | cons request rest ih => exact ih (h.handle request)

/-- Supply conservation: in every state that a run of a chain can reach, and in the head
state and the pending state of every node at any time, all accounts together own what
the genesis account started with. -/
theorem supply_eq_genesis_balance (rules : Rules) (changes : List ChainState.Change)
    (name : NodeName) (chainName : String) (config : ChainConfig) (requests : List Request) :
    ((ChainState.genesis rules).run rules changes).supply =
        rules.config.genesisAccount.balance.units.toNat ∧
      ((make name chainName config).run requests).headState.supply =
        config.genesisAccount.balance.units.toNat ∧
      ((make name chainName config).run requests).pendingState.supply =
        config.genesisAccount.balance.units.toNat := by
  have start : (make name chainName config).Balanced := rfl
  have pending := start.run requests
  obtain ⟨bs, grown, -⟩ := ((built_make name chainName config (·.hashed ⊆ [])).run requests).grown
  have head := grown.supply_eq
  refine ⟨?_, head, pending.trans head⟩
  rw [ChainState.supply_run, ChainState.supply_genesis]

end Node

end ChainLab
