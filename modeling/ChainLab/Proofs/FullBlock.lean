import ChainLab.Proofs.AccountEdits
import ChainLab.Proofs.BlockExchange
import ChainLab.Proofs.Consent
import ChainLab.Proofs.PendingState
import ChainLab.Proofs.Rights

/-!
# A block takes the whole queue

Pending transactions were accepted at head time and are applied once more, from the head
state on, at the time of the block. The time matters to an action in two ways only: an unlock
writes it down, and a claim measures what has elapsed. So a later run does the same as an
earlier one, but for the moments that its own unlocks have written down. A claim after such
an unlock went through at once, so there is no delay at all, and it goes through again.
-/

namespace ChainLab

/-- The account whose stake a message unlocks, if it does that. -/
def Message.unlocks (rules : Rules) (m : Message) : List AccountName :=
  match m.nativeAction? rules with
  | some (.unlock name _) => [name]
  | _ => []

/-- The accounts whose stake is unlocked by a message of a transaction. -/
def SignedTransaction.unlocks (rules : Rules) (trx : SignedTransaction) : List AccountName :=
  trx.transaction.messages.flatMap (·.unlocks rules)

theorem Message.mem_unlocks {rules : Rules} {m : Message} {name : AccountName} :
    name ∈ m.unlocks rules ↔ ∃ amount, m.nativeAction? rules = some (.unlock name amount) := by
  unfold unlocks
  split
  next carries => simp [carries, eq_comm]
  next other =>
    simp only [List.not_mem_nil, false_iff, not_exists]
    exact other name

namespace Account

variable {a : Account} {names : List AccountName} {later : Time} {name : AccountName}

/-- The record of an account, with another moment of its last unlock if it is one of the
given accounts. -/
def restamped (names : List AccountName) (later : Time) (name : AccountName) (a : Account) :
    Account :=
  { a with unstakeRequestedAt := if name ∈ names then later else a.unstakeRequestedAt }

theorem sameRights_restamped : a.SameRights (a.restamped names later name) := ⟨rfl, rfl⟩

theorem restamped_of_not_mem (h : name ∉ names) : a.restamped names later name = a := by
  rw [restamped, if_neg h]

/-- What has matured since the last unlock is mature at a later time as well. If this unlock
is moved to the later time itself, nothing had elapsed since it before either. -/
theorem mature_restamped {now : Time} {delay : UInt64} (order : now ≤ later)
    (unlocked : name ∈ names → a.unstakeRequestedAt = now)
    (mature : delay ≤ now.since a.unstakeRequestedAt) :
    delay ≤ later.since (a.restamped names later name).unstakeRequestedAt := by
  have order := UInt64.le_iff_toNat_le.mp order
  have mature := UInt64.le_iff_toNat_le.mp mature
  rw [Time.toNat_since] at mature
  rw [UInt64.le_iff_toNat_le, Time.toNat_since]
  by_cases moved : name ∈ names
  · rw [unlocked moved] at mature
    omega
  · rw [restamped_of_not_mem moved]
    omega

end Account

namespace ChainState

/-- The state with another moment of the last unlock of the given accounts. -/
def restamped (names : List AccountName) (later : Time) (s : ChainState) : ChainState :=
  { s with accounts := s.accounts.map fun name a => a.restamped names later name }

/-- The last unlock of each of the accounts was at that time. -/
def UnlockedAt (now : Time) (names : List AccountName) (s : ChainState) : Prop :=
  ∀ name ∈ names, ∃ a, s.account? name = some a ∧ a.unstakeRequestedAt = now

variable {rules : Rules} {now later : Time} {keys : KeySet} {s s' : ChainState} {m : Message}
  {names : List AccountName} {name : AccountName} {a : Account} {amount : Amount}

section restamped

theorem account?_restamped :
    (s.restamped names later).account? name =
      (s.account? name).map (·.restamped names later name) :=
  Std.ExtTreeMap.getElem?_map

theorem found_restamped (found : s.account? name = some a) :
    (s.restamped names later).account? name = some (a.restamped names later name) := by
  rw [account?_restamped, found, Option.map_some]

theorem free_restamped (free : s.account? name = none) :
    (s.restamped names later).account? name = none := by
  rw [account?_restamped, free, Option.map_none]

theorem restamped_nil : s.restamped [] later = s := by
  refine eq_of_account?_eq (fun name => ?_) rfl ⟨rfl, rfl, rfl⟩
  rw [account?_restamped]
  cases s.account? name <;> simp [Account.restamped]

theorem restamped_setAccount :
    (s.setAccount name a).restamped names later =
      (s.restamped names later).setAccount name (a.restamped names later name) := by
  refine eq_of_account?_eq (fun other => ?_) rfl ⟨rfl, rfl, rfl⟩
  rw [account?_restamped, account?_setAccount, account?_setAccount, account?_restamped]
  by_cases same : name = other
  · subst same
    rw [if_pos rfl, if_pos rfl, Option.map_some]
  · rw [if_neg same, if_neg same]

/-- One more account may be restamped if its record says the later moment already. -/
theorem restamped_append_setAccount :
    (s.setAccount name a).restamped (names ++ [name]) later =
      (s.restamped names later).setAccount name { a with unstakeRequestedAt := later } := by
  refine eq_of_account?_eq (fun other => ?_) rfl ⟨rfl, rfl, rfl⟩
  rw [account?_restamped, account?_setAccount, account?_setAccount, account?_restamped]
  by_cases same : name = other
  · subst same
    simp [Account.restamped]
  · simp [Account.restamped, same, Ne.symm same]

/-- How permissions hang together has nothing to do with stake. -/
theorem sameRights_restamped : s.SameRights (s.restamped names later) := by
  intro name
  rw [account?_restamped]
  cases s.account? name with
  | none => exact .none
  | some a => exact .some Account.sameRights_restamped

theorem validateAuthority_restamped {authority : Authority} :
    (s.restamped names later).validateAuthority authority = s.validateAuthority authority := by
  have delegations : ∀ entries, (s.restamped names later).validateDelegations entries =
      s.validateDelegations entries := by
    intro entries
    induction entries with
    | nil => rfl
    | cons entry rest ih => simp only [validateDelegations, sameRights_restamped.authority?_eq, ih]
  simp only [validateAuthority, delegations]

theorem newParent_restamped {permission parent : PermissionName} :
    newParent (a.restamped names later name) permission parent = newParent a permission parent := by
  simp only [newParent, Account.sameRights_restamped.satisfies_eq]
  rfl

end restamped

theorem UnlockedAt.nil : s.UnlockedAt now [] := by
  intro name mem
  cases mem

theorem UnlockedAt.not_mem (h : s.UnlockedAt now names) (free : s.account? name = none) :
    name ∉ names := by
  intro mem
  obtain ⟨a, found, -⟩ := h name mem
  cases free.symm.trans found

theorem UnlockedAt.requestedAt (h : s.UnlockedAt now names) (found : s.account? name = some a)
    (mem : name ∈ names) : a.unstakeRequestedAt = now := by
  obtain ⟨a', found', since⟩ := h name mem
  cases found.symm.trans found'
  exact since

section actions

variable {recipient contract : AccountName} {permission parent requirement : PermissionName}
  {type : Option String}

theorem exists_restamped (known : ∃ a, s.account? name = some a) :
    ∃ a, (s.restamped names later).account? name = some a := by
  obtain ⟨a, found⟩ := known
  exact ⟨_, found_restamped found⟩

theorem debit_restamped (h : s.debit name amount = .ok s') :
    (s.restamped names later).debit name amount = .ok (s'.restamped names later) := by
  obtain ⟨a, balance, found, less, rfl⟩ := debit_eq_ok.mp h
  exact debit_eq_ok.mpr ⟨_, balance, found_restamped found, less, restamped_setAccount⟩

theorem newAccount_restamped {creator : AccountName} {owner active recovery : Authority}
    (unlocked : s.UnlockedAt now names)
    (h : s.newAccount creator name owner active recovery amount = .ok s') :
    (s.restamped names later).newAccount creator name owner active recovery amount =
      .ok (s'.restamped names later) := by
  obtain ⟨named, free, owned, activated, recovered, t, paid, rfl⟩ := newAccount_eq_ok.mp h
  refine newAccount_eq_ok.mpr ⟨named, free_restamped free, ?_, ?_, ?_, _, debit_restamped paid, ?_⟩
  · exact validateAuthority_restamped.trans owned
  · exact validateAuthority_restamped.trans activated
  · exact validateAuthority_restamped.trans recovered
  · rw [restamped_setAccount, Account.restamped_of_not_mem (unlocked.not_mem free)]

theorem transfer_restamped (h : s.transfer name recipient amount = .ok s') :
    (s.restamped names later).transfer name recipient amount = .ok (s'.restamped names later) := by
  obtain ⟨known, t, paid, a, balance, found, more, rfl⟩ := transfer_eq_ok.mp h
  exact transfer_eq_ok.mpr ⟨exists_restamped known, _, debit_restamped paid, _, balance,
    found_restamped found, more, restamped_setAccount⟩

theorem lock_restamped (h : s.lock name recipient amount = .ok s') :
    (s.restamped names later).lock name recipient amount = .ok (s'.restamped names later) := by
  obtain ⟨known, t, paid, a, staked, found, more, rfl⟩ := lock_eq_ok.mp h
  exact lock_eq_ok.mpr ⟨exists_restamped known, _, debit_restamped paid, _, staked,
    found_restamped found, more, restamped_setAccount⟩

theorem unlock_restamped (h : s.unlock now name amount = .ok s') :
    (s.restamped names later).unlock later name amount =
      .ok (s'.restamped (names ++ [name]) later) := by
  obtain ⟨a, total, staked, found, sum, rest, rfl⟩ := unlock_eq_ok.mp h
  exact unlock_eq_ok.mpr ⟨_, total, staked, found_restamped found, sum, rest,
    restamped_append_setAccount⟩

theorem claim_restamped (order : now ≤ later) (unlocked : s.UnlockedAt now names)
    (h : claim rules s now name amount = .ok s') :
    claim rules (s.restamped names later) later name amount = .ok (s'.restamped names later) := by
  obtain ⟨a, unstaking, balance, found, less, mature, more, rfl⟩ := claim_eq_ok.mp h
  exact claim_eq_ok.mpr ⟨_, unstaking, balance, found_restamped found, less,
    Account.mature_restamped order (unlocked.requestedAt found) mature, more, restamped_setAccount⟩

theorem setProxy_restamped {proxy : AccountName} (h : s.setProxy name proxy = .ok s') :
    (s.restamped names later).setProxy name proxy = .ok (s'.restamped names later) := by
  obtain ⟨known, a, found, rfl⟩ := setProxy_eq_ok.mp h
  exact setProxy_eq_ok.mpr ⟨known.imp_right exists_restamped, _, found_restamped found,
    restamped_setAccount⟩

theorem setProducer_restamped {key : PublicKey} {config : ProducerConfig}
    (h : s.setProducer name key config = .ok s') :
    (s.restamped names later).setProducer name key config = .ok (s'.restamped names later) := by
  obtain ⟨known, fresh, rfl⟩ := setProducer_eq_ok.mp h
  exact setProducer_eq_ok.mpr ⟨exists_restamped known, fresh, rfl⟩

theorem updateProducer_restamped {key : PublicKey} {config : ProducerConfig}
    (h : s.updateProducer name key config = .ok s') :
    (s.restamped names later).updateProducer name key config =
      .ok (s'.restamped names later) := by
  obtain ⟨p, found, rfl⟩ := updateProducer_eq_ok.mp h
  exact updateProducer_eq_ok.mpr ⟨p, found, rfl⟩

theorem approveProducer_restamped {producer : AccountName} {approve : Bool}
    (h : s.approveProducer name producer approve = .ok s') :
    (s.restamped names later).approveProducer name producer approve =
      .ok (s'.restamped names later) := by
  obtain ⟨known, a, found, rfl⟩ := approveProducer_eq_ok.mp h
  exact approveProducer_eq_ok.mpr ⟨known, _, found_restamped found, restamped_setAccount⟩

theorem requirePermission_restamped (h : requirePermission m s name requirement = .ok ()) :
    requirePermission m (s.restamped names later) name requirement = .ok () := by
  obtain ⟨a, found, level, declared, same, covers⟩ := requirePermission_eq_ok.mp h
  refine requirePermission_eq_ok.mpr ⟨_, found_restamped found, level, declared, same, ?_⟩
  rw [Account.sameRights_restamped.satisfies_eq]
  exact covers

theorem updateAuthority_restamped {authority : Authority}
    (h : updateAuthority m s name permission parent authority = .ok s') :
    updateAuthority m (s.restamped names later) name permission parent authority =
      .ok (s'.restamped names later) := by
  obtain ⟨named, a, above, found, hangs, allowed, valid, rfl⟩ := updateAuthority_eq_ok.mp h
  exact updateAuthority_eq_ok.mpr ⟨named, _, above, found_restamped found,
    newParent_restamped.trans hangs, requirePermission_restamped allowed,
    validateAuthority_restamped.trans valid, restamped_setAccount⟩

theorem deleteAuthority_restamped (h : deleteAuthority m s name permission = .ok s') :
    deleteAuthority m (s.restamped names later) name permission =
      .ok (s'.restamped names later) := by
  obtain ⟨kept, kept', a, existing, found, listed, free, allowed, rfl⟩ := deleteAuthority_eq_ok.mp h
  exact deleteAuthority_eq_ok.mpr ⟨kept, kept', _, existing, found_restamped found, listed, free,
    requirePermission_restamped allowed, restamped_setAccount⟩

theorem linkAuthority_restamped
    (h : linkAuthority rules m s name contract type requirement = .ok s') :
    linkAuthority rules m (s.restamped names later) name contract type requirement =
      .ok (s'.restamped names later) := by
  obtain ⟨allowed, known, a, found, listed, rfl⟩ := linkAuthority_eq_ok.mp h
  exact linkAuthority_eq_ok.mpr ⟨requirePermission_restamped allowed,
    known.imp_right exists_restamped, _, found_restamped found, listed, restamped_setAccount⟩

theorem unlinkAuthority_restamped (h : unlinkAuthority m s name contract type = .ok s') :
    unlinkAuthority m (s.restamped names later) name contract type =
      .ok (s'.restamped names later) := by
  obtain ⟨allowed, a, found, linked, rfl⟩ := unlinkAuthority_eq_ok.mp h
  exact unlinkAuthority_eq_ok.mpr ⟨requirePermission_restamped allowed, _, found_restamped found,
    linked, restamped_setAccount⟩

theorem setCode_restamped [Crypto] {code : List UInt8} (h : s.setCode name code = .ok s') :
    (s.restamped names later).setCode name code = .ok (s'.restamped names later) := by
  obtain ⟨a, found, rfl⟩ := setCode_eq_ok.mp h
  exact setCode_eq_ok.mpr ⟨_, found_restamped found, restamped_setAccount⟩

end actions

section run

variable [Crypto]

/-- An account that a message unlocks stake of has its moment written down, and the accounts
before it keep theirs: whatever else a message does, it leaves the moment alone. -/
theorem UnlockedAt.applyMessage (h : s.UnlockedAt now names)
    (step : s.applyMessage rules now keys m = .ok s') :
    s'.UnlockedAt now (names ++ m.unlocks rules) := by
  intro name mem
  rcases List.mem_append.mp mem with old | new
  · obtain ⟨a, found, since⟩ := h name old
    obtain ⟨a', found', kept⟩ := exists_related_of_applyMessage
      (fun a a' => a.unstakeRequestedAt = now → a'.unstakeRequestedAt = now)
      (fun _ => id) (fun first second => second ∘ first)
      (fun _ edit => by cases edit <;> simp) step found
    exact ⟨a', found', kept since⟩
  · obtain ⟨amount, carries⟩ := Message.mem_unlocks.mp new
    have done : (do requireActor m name; s.unlock now name amount) = .ok s' :=
      execute_of_applyMessage step carries
    obtain ⟨-, -, done⟩ := bind_eq_ok.mp done
    obtain ⟨a, total, staked, -, -, -, rfl⟩ := unlock_eq_ok.mp done
    exact ⟨_, account?_setAccount_self, rfl⟩

/-- What an action does, it does at a later time as well, also where earlier unlocks have
been moved to that time. If it is an unlock itself, it writes the later time down. -/
theorem execute_restamped {action : Action} (order : now ≤ later)
    (unlocked : s.UnlockedAt now names) (carries : m.nativeAction? rules = some action)
    (h : s.execute rules now m action = .ok s') :
    (s.restamped names later).execute rules later m action =
      .ok (s'.restamped (names ++ m.unlocks rules) later) := by
  cases action <;> simp only [Message.unlocks, carries, List.append_nil] <;>
    simp only [execute, Action.kind, ActionKind.managesAuthority, Bool.not_true, Bool.not_false,
      Bool.false_eq_true, if_false, if_true, bind_eq_ok, exists_unit] at h ⊢
  case newAccount => exact h.imp_right (newAccount_restamped unlocked)
  case transfer => exact h.imp_right transfer_restamped
  case lock => exact h.imp_right lock_restamped
  case unlock => exact h.imp_right unlock_restamped
  case claim => exact h.imp_right (claim_restamped order unlocked)
  case setProxy => exact h.imp_right setProxy_restamped
  case setProducer => exact h.imp_right setProducer_restamped
  case updateProducer => exact h.imp_right updateProducer_restamped
  case approveProducer => exact h.imp_right approveProducer_restamped
  case updateAuthority => exact updateAuthority_restamped h
  case deleteAuthority => exact deleteAuthority_restamped h
  case linkAuthority => exact linkAuthority_restamped h
  case unlinkAuthority => exact unlinkAuthority_restamped h
  case setCode => exact h.imp_right setCode_restamped

theorem applyMessage_restamped (order : now ≤ later) (unlocked : s.UnlockedAt now names)
    (h : s.applyMessage rules now keys m = .ok s') :
    (s.restamped names later).applyMessage rules later keys m =
      .ok (s'.restamped (names ++ m.unlocks rules) later) := by
  obtain ⟨checked, done⟩ := applyMessage_eq_ok.mp h
  refine applyMessage_eq_ok.mpr ⟨?_, dispatch_eq_ok.mpr ?_⟩
  · rw [sameRights_restamped.checkAuthorization_eq]
    exact checked
  rcases dispatch_eq_ok.mp done with ⟨foreign, ⟨a, found⟩, rfl⟩ | ⟨action, carries, done⟩
  · left
    have none_unlocked : m.unlocks rules = [] := by
      simp [Message.unlocks, Message.nativeAction?, foreign]
    rw [none_unlocked, List.append_nil]
    exact ⟨foreign, ⟨_, found_restamped found⟩, rfl⟩
  · right
    exact ⟨action, carries, execute_restamped order unlocked carries done⟩

/-- By induction on the messages: each unlocks further accounts, at the time of all of them. -/
theorem applyMessages_restamped {messages : List Message} (order : now ≤ later)
    (unlocked : s.UnlockedAt now names) (h : s.applyMessages rules now keys messages = .ok s') :
    let names' := names ++ messages.flatMap (·.unlocks rules)
    (s.restamped names later).applyMessages rules later keys messages =
        .ok (s'.restamped names' later) ∧
      s'.UnlockedAt now names' := by
  induction messages generalizing s names with
  | nil =>
    cases h
    rw [List.flatMap_nil, List.append_nil]
    exact ⟨rfl, unlocked⟩
  | cons m rest ih =>
    simp only [applyMessages, bind_eq_ok] at h ⊢
    obtain ⟨t, first, h⟩ := h
    obtain ⟨later_rest, unlocked_rest⟩ := ih (unlocked.applyMessage first) h
    rw [List.flatMap_cons, ← List.append_assoc]
    exact ⟨⟨_, applyMessage_restamped order unlocked first, later_rest⟩, unlocked_rest⟩

/-- A transaction that has not expired by then can be applied later as well. -/
theorem applyTransaction_restamped {trx : SignedTransaction} (order : now ≤ later)
    (alive : later ≤ trx.transaction.expiration) (unlocked : s.UnlockedAt now names)
    (h : s.applyTransaction rules now trx = .ok s') :
    let names' := names ++ trx.unlocks rules
    (s.restamped names later).applyTransaction rules later trx =
        .ok (s'.restamped names' later) ∧
      s'.UnlockedAt now names' := by
  obtain ⟨fresh, -, bound, keys, verified, t, run, rfl⟩ := applyTransaction_eq_ok.mp h
  obtain ⟨run_later, unlocked_later⟩ := applyMessages_restamped order unlocked run
  exact ⟨applyTransaction_eq_ok.mpr ⟨fresh, alive, bound, keys, verified, _, run_later, rfl⟩,
    unlocked_later⟩

/-- All of the transactions can be applied at a later time before their expiration, with the
same outcome but for the moments of their unlocks. -/
theorem applyTransactions_restamped {trxs : List SignedTransaction} (order : now ≤ later)
    (alive : ∀ trx ∈ trxs, later ≤ trx.transaction.expiration)
    (unlocked : s.UnlockedAt now names) (h : s.applyTransactions rules now trxs = .ok s') :
    (s.restamped names later).applyTransactions rules later trxs =
      .ok (s'.restamped (names ++ trxs.flatMap (·.unlocks rules)) later) := by
  induction trxs generalizing s names with
  | nil =>
    cases h
    rw [List.flatMap_nil, List.append_nil]
    rfl
  | cons trx rest ih =>
    obtain ⟨t, first, h⟩ := applyTransactions_cons_eq_ok.mp h
    obtain ⟨alive, others⟩ := List.forall_mem_cons.mp alive
    obtain ⟨first_later, unlocked⟩ := applyTransaction_restamped order alive unlocked first
    rw [List.flatMap_cons, ← List.append_assoc]
    exact applyTransactions_cons_eq_ok.mpr ⟨_, first_later, ih others unlocked h⟩

/-- Of transactions that can be applied in order none is left out. -/
theorem takeValid_of_applyTransactions {trxs : List SignedTransaction}
    (h : s.applyTransactions rules now trxs = .ok s') :
    s.takeValid rules now trxs = (s', trxs) := by
  induction trxs generalizing s with
  | nil =>
    cases h
    rfl
  | cons trx rest ih =>
    obtain ⟨t, first, h⟩ := applyTransactions_cons_eq_ok.mp h
    rw [takeValid_cons_of_ok first, ih h]

end run

end ChainState

theorem Time.le_after (t : Time) (span : UInt64) : t ≤ t.after span := by
  have small : t.ticks.toNat ≤ UInt64.size - 1 := Nat.le_sub_one_of_lt t.ticks.toNat_lt
  apply UInt64.le_iff_toNat_le.mpr
  rw [t.toNat_after span]
  omega

namespace Node

/-- The accounts whose stake is unlocked by a message of a pending transaction. -/
def unlocking (n : Node) : List AccountName := n.pending.flatMap (·.unlocks n.rules)

section

variable [Crypto] {n : Node}

/-- At any time before its transactions expire, the whole queue applies to the head state. -/
theorem InStep.takeValid (h : n.InStep) {span : UInt64}
    (alive : ∀ trx ∈ n.pending, n.headTime.after span ≤ trx.transaction.expiration) :
    n.headState.takeValid n.rules (n.headTime.after span) n.pending =
      (n.pendingState.restamped n.unlocking (n.headTime.after span), n.pending) := by
  have applies :=
    ChainState.applyTransactions_restamped (n.headTime.le_after span) alive .nil h
  rw [ChainState.restamped_nil] at applies
  exact ChainState.takeValid_of_applyTransactions applies

/-- If nothing that is pending expires before the block that is made next, then all of it goes
into the block, in order. The accounts and the producers are those of the pending state, but
that the unlocks among the pending transactions happened at the time of the block. -/
theorem produceBlock_includes_pending (name : NodeName) (chainName : String)
    (config : ChainConfig) (requests : List Request) :
    let n := (make name chainName config).run requests
    let time := n.headTime.after config.blockInterval
    (∀ trx ∈ n.pending, time ≤ trx.transaction.expiration) →
      n.produceBlock.1.transactions = n.pending ∧
      (∀ name, n.produceBlock.2.headState.account? name =
        (n.pendingState.account? name).map fun a =>
          { a with
            unstakeRequestedAt := if name ∈ n.unlocking then time else a.unstakeRequestedAt }) ∧
      n.produceBlock.2.headState.producers = n.pendingState.producers ∧
      n.produceBlock.2.pendingState = n.produceBlock.2.headState := by
  intro n
  have interval : config.blockInterval = n.rules.config.blockInterval := by
    rw [(built_run name chainName config requests).rules_eq]
  rw [interval]
  intro time alive
  have start : (make name chainName config).InStep := rfl
  have taken := (start.run requests).takeValid alive
  have all : n.produceBlock.1.transactions = n.pending := congrArg Prod.snd taken
  have head : n.produceBlock.2.headState =
      (n.pendingState.restamped n.unlocking time).advance n.produceBlock.1.header :=
    congrArg (fun result => result.1.advance n.produceBlock.1.header) taken
  refine ⟨all, ?_, ?_, rfl⟩
  · intro name
    rw [head]
    exact ChainState.account?_restamped
  · rw [head]
    rfl

end

section sample

attribute [local instance] checksum

/-- Stake is locked and unlocked again on a head at time 3. The next block takes both
transactions, and the unlock counts from its time on. -/
theorem produceBlock_includes_pending_sample :
    let n := (make "a" "lab" sampleConfig).run [.produce, .push sampleLate, .push sampleUnlock]
    let time := n.headTime.after sampleConfig.blockInterval
    (∀ trx ∈ n.pending, time ≤ trx.transaction.expiration) ∧
      n.pending.length = 2 ∧ n.unlocking = ["init0"] ∧
      n.produceBlock.1.transactions = n.pending ∧
      ∃ a, n.account? "init0" = some a ∧ a.unstakeRequestedAt = ⟨3⟩ ∧
        n.produceBlock.2.account? "init0" = some { a with unstakeRequestedAt := ⟨6⟩ } := by
  intro n time
  have facts : (∀ trx ∈ n.pending, time ≤ trx.transaction.expiration) ∧
      n.pending.length = 2 ∧ n.unlocking = ["init0"] ∧ time = ⟨6⟩ ∧
      (n.account? "init0").map (·.unstakeRequestedAt) = some ⟨3⟩ := by
    decide +kernel
  obtain ⟨alive, two, unlocking, at_six, asked⟩ := facts
  obtain ⟨all, accounts, -, same⟩ := produceBlock_includes_pending "a" "lab" sampleConfig
    [.produce, .push sampleLate, .push sampleUnlock] alive
  obtain ⟨a, found, at_three⟩ := Option.map_eq_some_iff.mp asked
  refine ⟨alive, two, unlocking, all, a, found, at_three, ?_⟩
  have restamped := accounts "init0"
  change n.pendingState.account? "init0" = some a at found
  rw [found, Option.map_some, if_pos (by rw [unlocking]; exact List.mem_singleton_self _)]
    at restamped
  rw [account?, same, restamped, ← at_six]

end sample

end Node

end ChainLab
