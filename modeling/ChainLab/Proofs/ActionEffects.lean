import ChainLab.Proofs.Execution

/-!
# What a successful action has done

For every native action: when it goes through, which accounts it found, and what it
wrote.
-/

namespace ChainLab

/-- The native action a message carries, if it spells one. -/
def Message.nativeAction? (rules : Rules) (m : Message) : Option Action :=
  if m.contract = rules.config.nativeContract then
    (ActionKind.ofName? m.type).bind fun kind => Action.decode? kind m.payload
  else none

namespace Account

/-- The same account, but for liquid and staked funds it may have gained. -/
structure Gained (a a' : Account) : Prop where
  funds : a' = { a with balance := a'.balance, staked := a'.staked }
  balance : a.balance.units ≤ a'.balance.units
  staked : a.staked.units ≤ a'.staked.units

variable {a b c : Account}

theorem Gained.refl : a.Gained a := ⟨rfl, UInt64.le_refl _, UInt64.le_refl _⟩

theorem Gained.trans (h : a.Gained b) (h' : b.Gained c) : a.Gained c := by
  refine ⟨?_, UInt64.le_trans h.balance h'.balance, UInt64.le_trans h.staked h'.staked⟩
  rw [h'.funds, h.funds]

theorem gained_balance {amount balance : Amount} (h : a.balance.add? amount = some balance) :
    a.Gained { a with balance } := by
  have more := Amount.toNat_of_add? h
  exact ⟨rfl, UInt64.le_iff_toNat_le.mpr (by simp [more]), UInt64.le_refl _⟩

theorem gained_staked {amount staked : Amount} (h : a.staked.add? amount = some staked) :
    a.Gained { a with staked } := by
  have more := Amount.toNat_of_add? h
  exact ⟨rfl, UInt64.le_refl _, UInt64.le_iff_toNat_le.mpr (by simp [more])⟩

end Account

namespace ChainState

variable {s s' : ChainState} {name other : AccountName} {a : Account}

theorem account?_setAccount :
    (s.setAccount name a).account? other = if name = other then some a else s.account? other := by
  simp [account?, setAccount, Std.ExtTreeMap.getElem?_insert]

@[simp] theorem account?_setAccount_self : (s.setAccount name a).account? name = some a := by
  rw [account?_setAccount, if_pos rfl]

theorem account?_setAccount_of_ne (h : name ≠ other) :
    (s.setAccount name a).account? other = s.account? other := by
  rw [account?_setAccount, if_neg h]

theorem not_mem_accounts : name ∉ s.accounts ↔ s.account? name = none := by
  rw [account?, Std.ExtTreeMap.mem_iff_isSome_getElem?, Option.not_isSome_iff_eq_none]

theorem not_mem_producers : name ∉ s.producers ↔ s.producer? name = none := by
  rw [producer?, Std.ExtTreeMap.mem_iff_isSome_getElem?, Option.not_isSome_iff_eq_none]

/-- The state with a producer's entry written. -/
def setProducerEntry (s : ChainState) (name : AccountName) (p : Producer) : ChainState :=
  { s with producers := s.producers.insert name p }

theorem debit_eq_ok {amount : Amount} :
    s.debit name amount = .ok s' ↔
      ∃ a balance, s.account? name = some a ∧ a.balance.sub? amount = some balance ∧
        s' = s.setAccount name { a with balance } := by
  simp only [debit, updateAccount_eq_ok, bind_eq_ok, orError_eq_ok, pure_eq_ok]
  constructor
  · rintro ⟨a, a', ha, ⟨balance, hb, rfl⟩, rfl⟩
    exact ⟨a, balance, ha, hb, rfl⟩
  · rintro ⟨a, balance, ha, hb, rfl⟩
    exact ⟨a, _, ha, ⟨balance, hb, rfl⟩, rfl⟩

/-- A new account is entered under a free name, after the creator has paid its deposit. -/
theorem newAccount_eq_ok {creator : AccountName} {owner active recovery : Authority}
    {deposit : Amount} :
    s.newAccount creator name owner active recovery deposit = .ok s' ↔
      name ≠ "" ∧ s.account? name = none ∧ s.validateAuthority owner = .ok () ∧
      s.validateAuthority active = .ok () ∧ s.validateAuthority recovery = .ok () ∧
      ∃ t, s.debit creator deposit = .ok t ∧
        s' = t.setAccount name
          { Account.make name owner active deposit with
            permissions := (Account.make name owner active deposit).permissions.insert
              PermissionName.recovery ⟨some PermissionName.owner, recovery⟩ } := by
  simp [newAccount, ← not_mem_accounts, @eq_comm _ s']

theorem transfer_eq_ok {sender recipient : AccountName} {amount : Amount} :
    s.transfer sender recipient amount = .ok s' ↔
      (∃ a, s.account? recipient = some a) ∧
      ∃ t, s.debit sender amount = .ok t ∧
      ∃ a balance, t.account? recipient = some a ∧ a.balance.add? amount = some balance ∧
        s' = t.setAccount recipient { a with balance } := by
  simp only [transfer, updateAccount_eq_ok, bind_eq_ok, orError_eq_ok, pure_eq_ok,
    requireAccount_eq_ok]
  constructor
  · rintro ⟨r, hr, t, ht, a, a', ha, ⟨balance, hb, rfl⟩, rfl⟩
    exact ⟨⟨r, hr⟩, t, ht, a, balance, ha, hb, rfl⟩
  · rintro ⟨⟨r, hr⟩, t, ht, a, balance, ha, hb, rfl⟩
    exact ⟨r, hr, t, ht, a, _, ha, ⟨balance, hb, rfl⟩, rfl⟩

theorem lock_eq_ok {sender recipient : AccountName} {amount : Amount} :
    s.lock sender recipient amount = .ok s' ↔
      (∃ a, s.account? recipient = some a) ∧
      ∃ t, s.debit sender amount = .ok t ∧
      ∃ a staked, t.account? recipient = some a ∧ a.staked.add? amount = some staked ∧
        s' = t.setAccount recipient { a with staked } := by
  simp only [lock, updateAccount_eq_ok, bind_eq_ok, orError_eq_ok, pure_eq_ok,
    requireAccount_eq_ok]
  constructor
  · rintro ⟨r, hr, t, ht, a, a', ha, ⟨staked, hs, rfl⟩, rfl⟩
    exact ⟨⟨r, hr⟩, t, ht, a, staked, ha, hs, rfl⟩
  · rintro ⟨⟨r, hr⟩, t, ht, a, staked, ha, hs, rfl⟩
    exact ⟨r, hr, t, ht, a, _, ha, ⟨staked, hs, rfl⟩, rfl⟩

theorem unlock_eq_ok {now : Time} {amount : Amount} :
    s.unlock now name amount = .ok s' ↔
      ∃ a total staked, s.account? name = some a ∧ a.staked.add? a.unstaking = some total ∧
        total.sub? amount = some staked ∧
        s' = s.setAccount name
          { a with staked, unstaking := amount, unstakeRequestedAt := now } := by
  simp only [unlock, updateAccount_eq_ok, bind_eq_ok, orError_eq_ok, pure_eq_ok]
  constructor
  · rintro ⟨a, a', ha, ⟨total, ht, staked, hs, rfl⟩, rfl⟩
    exact ⟨a, total, staked, ha, ht, hs, rfl⟩
  · rintro ⟨a, total, staked, ha, ht, hs, rfl⟩
    exact ⟨a, _, ha, ⟨total, ht, staked, hs, rfl⟩, rfl⟩

theorem claim_eq_ok {rules : Rules} {now : Time} {amount : Amount} :
    claim rules s now name amount = .ok s' ↔
      ∃ a unstaking balance, s.account? name = some a ∧
        a.unstaking.sub? amount = some unstaking ∧
        rules.config.unstakeDelay ≤ now.since a.unstakeRequestedAt ∧
        a.balance.add? amount = some balance ∧
        s' = s.setAccount name { a with unstaking, balance } := by
  simp only [claim, updateAccount_eq_ok, bind_eq_ok, orError_eq_ok, pure_eq_ok, ensure_eq_ok,
    exists_unit, decide_eq_true_eq]
  constructor
  · rintro ⟨a, a', ha, ⟨unstaking, hu, mature, balance, hb, rfl⟩, rfl⟩
    exact ⟨a, unstaking, balance, ha, hu, mature, hb, rfl⟩
  · rintro ⟨a, unstaking, balance, ha, hu, mature, hb, rfl⟩
    exact ⟨a, _, ha, ⟨unstaking, hu, mature, balance, hb, rfl⟩, rfl⟩

theorem setProxy_eq_ok {stakeholder proxy : AccountName} :
    s.setProxy stakeholder proxy = .ok s' ↔
      (proxy = stakeholder ∨ ∃ a, s.account? proxy = some a) ∧
      ∃ a, s.account? stakeholder = some a ∧
        s' = s.setAccount stakeholder
          { a with proxy := if proxy = stakeholder then none else some proxy } := by
  unfold setProxy
  split
  next same => simp [updateAccount_eq_ok, same]
  next apart => simp [updateAccount_eq_ok, apart]

theorem setProducer_eq_ok {signingKey : PublicKey} {config : ProducerConfig} :
    s.setProducer name signingKey config = .ok s' ↔
      (∃ a, s.account? name = some a) ∧ s.producer? name = none ∧
      s' = s.setProducerEntry name ⟨name, signingKey, config⟩ := by
  simp only [setProducerEntry, setProducer, bind_eq_ok, requireAccount_eq_ok, ensure_eq_ok,
    exists_unit, pure_eq_ok, decide_eq_true_eq, not_mem_producers, exists_and_right, @eq_comm _ s']

theorem updateProducer_eq_ok {signingKey : PublicKey} {config : ProducerConfig} :
    s.updateProducer name signingKey config = .ok s' ↔
      ∃ p, s.producer? name = some p ∧
      s' = s.setProducerEntry name { p with signingKey := signingKey, configVote := config } := by
  simp only [setProducerEntry, updateProducer, bind_eq_ok, orError_eq_ok, pure_eq_ok, @eq_comm _ s']

theorem approveProducer_eq_ok {voter producer : AccountName} {approve : Bool} :
    s.approveProducer voter producer approve = .ok s' ↔
      producer ∈ s.producers ∧
      ∃ a, s.account? voter = some a ∧
        s' = s.setAccount voter
          { a with
            approvedProducers :=
              if approve then a.approvedProducers.insert producer
              else a.approvedProducers.erase producer } := by
  simp [approveProducer, updateAccount_eq_ok]

/-- Some declared level of the actor lies at or above the permission required. -/
theorem requirePermission_eq_ok {m : Message} {actor : AccountName} {required : PermissionName} :
    requirePermission m s actor required = .ok () ↔
      ∃ a, s.account? actor = some a ∧
      ∃ level ∈ m.authorizations, level.actor = actor ∧
        a.satisfies level.permission required = true := by
  simp only [requirePermission, bind_eq_ok, requireAccount_eq_ok]
  refine exists_congr fun a => and_congr_right fun _ => ?_
  split
  next covered => simpa using covered
  next uncovered => simpa using uncovered

theorem updateAuthority_eq_ok {m : Message} {permission parent : PermissionName}
    {authority : Authority} :
    updateAuthority m s name permission parent authority = .ok s' ↔
      permission ≠ "" ∧ ∃ a above, s.account? name = some a ∧
      newParent a permission parent = .ok above ∧
      requirePermission m s name
        ((match a.permissions[permission]? with
          | some existing => existing.parent
          | none => above).getD PermissionName.owner) = .ok () ∧
      s.validateAuthority authority = .ok () ∧
      s' = s.setAccount name
        { a with permissions := a.permissions.insert permission ⟨above, authority⟩ } := by
  simp only [updateAuthority, bind_eq_ok, requireAccount_eq_ok, ensure_eq_ok, exists_unit,
    pure_eq_ok, updateAccount_eq_ok, bne_iff_ne]
  refine and_congr_right fun _ => ?_
  constructor
  · rintro ⟨a, ha, above, hp, hr, hv, b, b', hb, rfl, rfl⟩
    cases ha.symm.trans hb
    exact ⟨a, above, ha, hp, hr, hv, rfl⟩
  · rintro ⟨a, above, ha, hp, hr, hv, rfl⟩
    exact ⟨a, ha, above, hp, hr, hv, a, _, ha, rfl, rfl⟩

theorem deleteAuthority_eq_ok {m : Message} {permission : PermissionName} :
    deleteAuthority m s name permission = .ok s' ↔
      permission ≠ PermissionName.owner ∧ permission ≠ PermissionName.active ∧
      ∃ a existing, s.account? name = some a ∧ a.permissions[permission]? = some existing ∧
      inUse a permission = false ∧
      requirePermission m s name (existing.parent.getD PermissionName.owner) = .ok () ∧
      s' = s.setAccount name { a with permissions := a.permissions.erase permission } := by
  simp only [deleteAuthority, bind_eq_ok, requireAccount_eq_ok, ensure_eq_ok, exists_unit,
    pure_eq_ok, updateAccount_eq_ok, orError_eq_ok, Bool.and_eq_true, bne_iff_ne, and_assoc,
    Bool.not_eq_true']
  refine and_congr_right fun _ => and_congr_right fun _ => ?_
  constructor
  · rintro ⟨a, ha, existing, he, free, hr, b, b', hb, rfl, rfl⟩
    cases ha.symm.trans hb
    exact ⟨a, existing, ha, he, free, hr, rfl⟩
  · rintro ⟨a, existing, ha, he, free, hr, rfl⟩
    exact ⟨a, ha, existing, he, free, hr, a, _, ha, rfl, rfl⟩

theorem linkAuthority_eq_ok {rules : Rules} {m : Message} {contract : AccountName}
    {messageType : Option String} {requirement : PermissionName} :
    linkAuthority rules m s name contract messageType requirement = .ok s' ↔
      requirePermission m s name PermissionName.active = .ok () ∧
      (contract = rules.config.nativeContract ∨ ∃ c, s.account? contract = some c) ∧
      ∃ a, s.account? name = some a ∧ requirement ∈ a.permissions ∧
        s' = s.setAccount name
          { a with links := a.links.insert ⟨contract, messageType⟩ requirement } := by
  by_cases native : contract = rules.config.nativeContract <;>
    simp [linkAuthority, updateAccount_eq_ok, native, and_assoc]

theorem unlinkAuthority_eq_ok {m : Message} {contract : AccountName}
    {messageType : Option String} :
    unlinkAuthority m s name contract messageType = .ok s' ↔
      requirePermission m s name PermissionName.active = .ok () ∧
      ∃ a, s.account? name = some a ∧ (⟨contract, messageType⟩ : LinkKey) ∈ a.links ∧
        s' = s.setAccount name { a with links := a.links.erase ⟨contract, messageType⟩ } := by
  simp [unlinkAuthority, updateAccount_eq_ok, and_assoc]

theorem setCode_eq_ok [Crypto] {code : List UInt8} :
    s.setCode name code = .ok s' ↔
      ∃ a, s.account? name = some a ∧
        s' = s.setAccount name { a with codeHash := some (Crypto.hash code) } := by
  simp [setCode, updateAccount_eq_ok]

/-- What one action writes, one thing after the other: its actor's account, what others
gain, an account under a free name, its actor's producer entry. -/
inductive Written (actor : AccountName) (s : ChainState) : ChainState → Prop
  | nothing : Written actor s s
  | own {t : ChainState} (a : Account) : Written actor s t → Written actor s (t.setAccount actor a)
  | gain {t : ChainState} {name : AccountName} {a a' : Account} : Written actor s t →
    t.account? name = some a → a.Gained a' → Written actor s (t.setAccount name a')
  | opened {t : ChainState} {name : AccountName} (a : Account) : Written actor s t →
    s.account? name = none → Written actor s (t.setAccount name a)
  | produces {t : ChainState} (p : Producer) : Written actor s t →
    Written actor s (t.setProducerEntry actor p)

theorem written_own : Written name s (s.setAccount name a) := .own a .nothing

theorem written_debit {amount : Amount} (h : s.debit name amount = .ok s') : Written name s s' := by
  obtain ⟨a, balance, -, -, rfl⟩ := debit_eq_ok.mp h
  exact written_own

/-- Actions are about accounts and producers only. -/
structure SameChain (s s' : ChainState) : Prop where
  head : s'.head = s.head
  chain : s'.chain = s.chain
  applied : s'.applied = s.applied

theorem SameChain.refl : SameChain s s := ⟨rfl, rfl, rfl⟩

theorem SameChain.trans {t : ChainState} (h : SameChain s t) (h' : SameChain t s') :
    SameChain s s' :=
  ⟨h'.head.trans h.head, h'.chain.trans h.chain, h'.applied.trans h.applied⟩

/-- Two states are the same if they have the same accounts and agree on all else. -/
theorem eq_of_account?_eq (accounts : ∀ name, s.account? name = s'.account? name)
    (producers : s.producers = s'.producers) (same : SameChain s s') : s = s' := by
  obtain ⟨head, chain, applied⟩ := same
  cases s
  cases s'
  cases producers
  cases head
  cases chain
  cases applied
  congr 1
  exact Std.ExtTreeMap.ext_getElem? accounts

theorem Written.sameChain (h : Written name s s') : SameChain s s' := by
  induction h with
  | nothing => exact .refl
  | own _ _ ih | gain _ _ _ ih | opened _ _ _ ih | produces _ _ ih =>
    exact ih.trans ⟨rfl, rfl, rfl⟩

variable [Crypto] {rules : Rules} {now : Time} {keys : KeySet} {m : Message} {action : Action}

theorem written_execute (h : s.execute rules now m action = .ok s') :
    Written action.actor s s' := by
  cases action <;> simp [execute, Action.kind, ActionKind.managesAuthority] at h
  case newAccount creator fresh owner active recovery deposit =>
    obtain ⟨-, free, -, -, -, t, ht, rfl⟩ := newAccount_eq_ok.mp h.2
    exact .opened _ (written_debit ht) free
  case transfer sender recipient amount memo =>
    obtain ⟨-, t, ht, a, balance, ha, hb, rfl⟩ := transfer_eq_ok.mp h.2
    exact .gain (written_debit ht) ha (Account.gained_balance hb)
  case lock sender recipient amount =>
    obtain ⟨-, t, ht, a, staked, ha, hs, rfl⟩ := lock_eq_ok.mp h.2
    exact .gain (written_debit ht) ha (Account.gained_staked hs)
  case unlock account amount =>
    obtain ⟨a, _, _, -, -, -, rfl⟩ := unlock_eq_ok.mp h.2
    exact written_own
  case claim account amount =>
    obtain ⟨a, _, _, -, -, -, -, rfl⟩ := claim_eq_ok.mp h.2
    exact written_own
  case setProxy stakeholder proxy =>
    obtain ⟨-, a, -, rfl⟩ := setProxy_eq_ok.mp h.2
    exact written_own
  case setProducer producer key config =>
    obtain ⟨-, -, rfl⟩ := setProducer_eq_ok.mp h.2
    exact .produces _ .nothing
  case updateProducer producer key config =>
    obtain ⟨p, -, rfl⟩ := updateProducer_eq_ok.mp h.2
    exact .produces _ .nothing
  case approveProducer voter producer approve =>
    obtain ⟨-, a, -, rfl⟩ := approveProducer_eq_ok.mp h.2
    exact written_own
  case updateAuthority account permission parent authority =>
    obtain ⟨-, a, _, -, -, -, -, rfl⟩ := updateAuthority_eq_ok.mp h
    exact written_own
  case deleteAuthority account permission =>
    obtain ⟨-, -, a, _, -, -, -, -, rfl⟩ := deleteAuthority_eq_ok.mp h
    exact written_own
  case linkAuthority account contract type requirement =>
    obtain ⟨-, -, a, -, -, rfl⟩ := linkAuthority_eq_ok.mp h
    exact written_own
  case unlinkAuthority account contract type =>
    obtain ⟨-, a, -, -, rfl⟩ := unlinkAuthority_eq_ok.mp h
    exact written_own
  case setCode account code =>
    obtain ⟨a, -, rfl⟩ := setCode_eq_ok.mp h.2
    exact written_own

/-- A message to another contract changes nothing, one to the native contract is
carried out as the action it spells. -/
theorem dispatch_eq_ok :
    s.dispatch rules now m = .ok s' ↔
      (m.contract ≠ rules.config.nativeContract ∧ (∃ a, s.account? m.contract = some a) ∧ s' = s) ∨
      ∃ action, m.nativeAction? rules = some action ∧ s.execute rules now m action = .ok s' := by
  by_cases native : m.contract = rules.config.nativeContract
  · simp only [dispatch, Message.nativeAction?, native, bne_self_eq_false, Bool.false_eq_true,
      if_false, if_true, bind_eq_ok, orError_eq_ok, Option.bind_eq_some_iff, ne_eq, not_true,
      false_and, false_or]
    constructor
    · rintro ⟨kind, hkind, action, haction, h⟩
      exact ⟨action, ⟨kind, hkind, haction⟩, h⟩
    · rintro ⟨action, ⟨kind, hkind, haction⟩, h⟩
      exact ⟨kind, hkind, action, haction, h⟩
  · simp [dispatch, Message.nativeAction?, native, @eq_comm _ s']

theorem sameChain_applyMessages {messages : List Message}
    (h : s.applyMessages rules now keys messages = .ok s') : SameChain s s' := by
  induction messages generalizing s with
  | nil =>
    cases h
    exact .refl
  | cons m rest ih =>
    simp only [applyMessages, bind_eq_ok] at h
    obtain ⟨t, first, h⟩ := h
    refine SameChain.trans ?_ (ih h)
    rcases dispatch_eq_ok.mp (applyMessage_eq_ok.mp first).2 with ⟨-, -, rfl⟩ | ⟨action, -, h⟩
    · exact .refl
    · exact (written_execute h).sameChain

/-- Transactions leave the head and the identifiers of the blocks alone. -/
theorem head_chain_of_applyTransactions {trxs : List SignedTransaction}
    (h : s.applyTransactions rules now trxs = .ok s') :
    s'.head = s.head ∧ s'.chain = s.chain := by
  induction trxs generalizing s with
  | nil =>
    cases h
    exact ⟨rfl, rfl⟩
  | cons trx rest ih =>
    obtain ⟨t, first, h⟩ := applyTransactions_cons_eq_ok.mp h
    obtain ⟨-, -, -, _, -, u, run, rfl⟩ := applyTransaction_eq_ok.mp first
    obtain ⟨head, chain⟩ := ih h
    have same := sameChain_applyMessages run
    exact ⟨head.trans same.head, chain.trans same.chain⟩

end ChainState

end ChainLab
