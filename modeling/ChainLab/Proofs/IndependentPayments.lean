import ChainLab.Proofs.Consent
import ChainLab.Proofs.Rights

/-!
# Independent payments commute

A transfer, a lock, an unlock or a claim reads and writes the funds of the accounts that it names,
and of no others. Whether it is authorized is told by permissions and links, of any accounts, and
these no payment touches. So a transaction of payments does the same, or is refused for the same
reason, whether or not payments between other accounts were applied just before it, and of two such
transactions it does not matter which comes first.
-/

namespace ChainLab

/-- The accounts that an action names, if it does no more than move funds. -/
def Action.parties? : Action → Option (List AccountName)
  | .transfer sender recipient _ _ | .lock sender recipient _ => some [sender, recipient]
  | .unlock account _ | .claim account _ => some [account]
  | _ => none

def Message.parties? (rules : Rules) (m : Message) : Option (List AccountName) :=
  (m.nativeAction? rules).bind Action.parties?

namespace SignedTransaction

/-- All messages are native ones that do no more than move funds. -/
def Pays (rules : Rules) (trx : SignedTransaction) : Prop :=
  ∀ m ∈ trx.transaction.messages, (m.parties? rules).isSome

/-- The accounts that the payments of a transaction name. -/
def parties (rules : Rules) (trx : SignedTransaction) : List AccountName :=
  trx.transaction.messages.flatMap fun m => (m.parties? rules).getD []

theorem Pays.exists_parties {rules : Rules} {trx : SignedTransaction} (h : trx.Pays rules) :
    ∀ m ∈ trx.transaction.messages,
      ∃ parties, m.parties? rules = some parties ∧ parties ⊆ trx.parties rules := by
  intro m mem
  obtain ⟨parties, pays⟩ := Option.isSome_iff_exists.mp (h m mem)
  refine ⟨parties, pays, fun name named => List.mem_flatMap.mpr ⟨m, mem, ?_⟩⟩
  rw [pays]
  exact named

end SignedTransaction

/-- What an account owns. -/
structure Funds where
  balance : Amount
  staked : Amount
  unstaking : Amount
  unstakeRequestedAt : Time

/-- Funds for some of the accounts. -/
abbrev Ledger := AccountName → Option Funds

namespace Account

def withFunds (a : Account) (funds : Funds) : Account :=
  { a with
    balance := funds.balance
    staked := funds.staked
    unstaking := funds.unstaking
    unstakeRequestedAt := funds.unstakeRequestedAt }

/-- The record of an account, with the funds that the ledger has for it, if any. -/
def settled (ledger : Ledger) (name : AccountName) (a : Account) : Account :=
  match ledger name with
  | some funds => a.withFunds funds
  | none => a

variable {a : Account} {ledger ledger' : Ledger} {name : AccountName}

theorem settled_of_none (free : ledger name = none) : a.settled ledger name = a := by
  rw [settled, free]

theorem sameRights_settled : a.SameRights (a.settled ledger name) := by
  unfold settled
  split <;> exact ⟨rfl, rfl⟩

/-- Of two ledgers the later one counts, where it has something to say. -/
theorem settled_settled :
    (a.settled ledger name).settled ledger' name =
      a.settled (fun name => (ledger' name).or (ledger name)) name := by
  simp only [settled]
  cases ledger' name <;> cases ledger name <;> rfl

end Account

namespace ChainState

/-- The state with the funds that a ledger has for its accounts. -/
def settled (ledger : Ledger) (s : ChainState) : ChainState :=
  { s with accounts := s.accounts.map (Account.settled ledger) }

/-- The state with the funds of a ledger, after which a transaction is counted as applied. -/
def beside (ledger : Ledger) (digest : Digest) (s : ChainState) : ChainState :=
  { s.settled ledger with applied := s.applied.insert digest }

/-- The second state is the first one with other funds of some of the named accounts. -/
def Settles (names : List AccountName) (s s' : ChainState) : Prop :=
  ∃ ledger : Ledger, (∀ name, name ∉ names → ledger name = none) ∧ s' = s.settled ledger

variable {rules : Rules} {now : Time} {keys : KeySet} {s s' t : ChainState} {m : Message}
  {action : Action} {ledger ledger' : Ledger} {digest digest' : Digest} {name : AccountName}
  {names more : List AccountName} {a : Account} {amount : Amount}

theorem account?_settled :
    (s.settled ledger).account? name = (s.account? name).map (Account.settled ledger name) :=
  Std.ExtTreeMap.getElem?_map

theorem settled_none : s.settled (fun _ => none) = s := by
  refine eq_of_account?_eq (fun name => ?_) rfl ⟨rfl, rfl, rfl⟩
  rw [account?_settled]
  cases s.account? name <;> rfl

theorem settled_settled :
    (s.settled ledger).settled ledger' =
      s.settled fun name => (ledger' name).or (ledger name) := by
  refine eq_of_account?_eq (fun name => ?_) rfl ⟨rfl, rfl, rfl⟩
  rw [account?_settled, account?_settled, account?_settled, Option.map_map]
  exact congrArg (Option.map · _) (funext fun _ => Account.settled_settled)

section settles

namespace Settles

theorem refl : Settles names s s := ⟨fun _ => none, fun _ _ => rfl, settled_none.symm⟩

theorem trans (h : Settles names s t) (h' : Settles names t s') : Settles names s s' := by
  obtain ⟨ledger, free, rfl⟩ := h
  obtain ⟨ledger', free', rfl⟩ := h'
  refine ⟨_, fun name apart => ?_, settled_settled⟩
  rw [free name apart, free' name apart]
  rfl

theorem mono (h : Settles names s s') (sub : names ⊆ more) : Settles more s s' := by
  obtain ⟨ledger, free, rfl⟩ := h
  exact ⟨ledger, fun name apart => free name fun mem => apart (sub mem), rfl⟩

/-- The funds of one account are written. -/
theorem setAccount (found : s.account? name = some a) (funds : Funds) (mem : name ∈ names) :
    Settles names s (s.setAccount name (a.withFunds funds)) := by
  refine ⟨fun other => if name = other then some funds else none, fun other apart => ?_, ?_⟩
  · refine if_neg ?_
    rintro rfl
    exact apart mem
  · refine eq_of_account?_eq (fun other => ?_) rfl ⟨rfl, rfl, rfl⟩
    rw [account?_setAccount, account?_settled]
    by_cases same : name = other
    · subst same
      rw [if_pos rfl, found, Option.map_some, Account.settled, if_pos rfl]
    · rw [if_neg same]
      cases s.account? other with
      | none => rfl
      | some b => rw [Option.map_some, Account.settled_of_none (if_neg same)]

theorem debit (paid : s.debit name amount = .ok s') (mem : name ∈ names) : Settles names s s' := by
  obtain ⟨a, balance, found, -, rfl⟩ := debit_eq_ok.mp paid
  exact .setAccount found ⟨balance, a.staked, a.unstaking, a.unstakeRequestedAt⟩ mem

end Settles

variable [Crypto]

/-- A payment writes nothing but funds of the accounts that it names. -/
theorem settles_execute (pays : action.parties? = some names)
    (h : s.execute rules now m action = .ok s') : Settles names s s' := by
  cases action <;> cases pays <;>
    simp only [execute, Action.kind, ActionKind.managesAuthority, Bool.not_false, if_true,
      bind_eq_ok, exists_unit] at h
  case transfer sender recipient amount memo =>
    obtain ⟨-, t, paid, a, balance, found, -, rfl⟩ := transfer_eq_ok.mp h.2
    have received : Settles [sender, recipient] t _ :=
      .setAccount found ⟨balance, a.staked, a.unstaking, a.unstakeRequestedAt⟩ (by simp)
    exact (Settles.debit paid (by simp)).trans received
  case lock sender recipient amount =>
    obtain ⟨-, t, paid, a, staked, found, -, rfl⟩ := lock_eq_ok.mp h.2
    have received : Settles [sender, recipient] t _ :=
      .setAccount found ⟨a.balance, staked, a.unstaking, a.unstakeRequestedAt⟩ (by simp)
    exact (Settles.debit paid (by simp)).trans received
  case unlock account amount =>
    obtain ⟨a, total, staked, found, -, -, rfl⟩ := unlock_eq_ok.mp h.2
    exact .setAccount found ⟨a.balance, staked, amount, now⟩ (by simp)
  case claim account amount =>
    obtain ⟨a, unstaking, balance, found, -, -, -, rfl⟩ := claim_eq_ok.mp h.2
    exact .setAccount found ⟨balance, a.staked, unstaking, a.unstakeRequestedAt⟩ (by simp)

theorem settles_applyMessages {messages : List Message}
    (pays : ∀ m ∈ messages, ∃ parties, m.parties? rules = some parties ∧ parties ⊆ names)
    (h : s.applyMessages rules now keys messages = .ok s') : Settles names s s' := by
  induction messages generalizing s with
  | nil =>
    cases h
    exact .refl
  | cons m rest ih =>
    simp only [applyMessages, bind_eq_ok] at h
    obtain ⟨t, first, later⟩ := h
    obtain ⟨⟨parties, pays_first, sub⟩, pays_rest⟩ := List.forall_mem_cons.mp pays
    obtain ⟨action, carries, moves⟩ := Option.bind_eq_some_iff.mp pays_first
    rcases dispatch_eq_ok.mp (applyMessage_eq_ok.mp first).2 with
      ⟨foreign, -⟩ | ⟨action', carries', done⟩
    · simp [Message.nativeAction?, foreign] at carries
    · cases carries.symm.trans carries'
      exact ((settles_execute moves done).mono sub).trans (ih pays_rest later)

end settles

section beside

/-- Of two sets of funds that are settled for different accounts either may come first, and so may
the one or the other transaction that they are counted for. -/
theorem beside_comm (apart : ∀ name, ledger name = none ∨ ledger' name = none) :
    (s.beside ledger digest).beside ledger' digest' =
      (s.beside ledger' digest').beside ledger digest := by
  refine eq_of_account?_eq (fun name => ?_) rfl ⟨rfl, rfl, ?_⟩
  · have either : ∀ a : Account, (a.settled ledger name).settled ledger' name =
        (a.settled ledger' name).settled ledger name := by
      intro a
      rcases apart name with free | free <;> simp only [Account.settled_of_none free]
    change ((s.settled ledger).settled ledger').account? name =
      ((s.settled ledger').settled ledger).account? name
    simp only [account?_settled, Option.map_map]
    exact congrArg (Option.map · _) (funext either)
  · refine Std.ExtTreeSet.ext_mem fun other => ?_
    simp only [beside, settled, Std.ExtTreeSet.mem_insert]
    exact or_left_comm

theorem sameRights_beside : s.SameRights (s.beside ledger digest) := by
  intro name
  change Option.Rel _ _ ((s.settled ledger).account? name)
  rw [account?_settled]
  cases s.account? name with
  | none => exact .none
  | some a => exact .some Account.sameRights_settled

theorem requireAccount_beside (free : ledger name = none) :
    (s.beside ledger digest).requireAccount name = s.requireAccount name := by
  have same : (s.beside ledger digest).account? name = s.account? name := by
    change (s.settled ledger).account? name = _
    rw [account?_settled]
    cases s.account? name with
    | none => rfl
    | some a => rw [Option.map_some, Account.settled_of_none free]
  rw [requireAccount, requireAccount, same]

theorem setAccount_beside (free : ledger name = none) :
    (s.beside ledger digest).setAccount name a = (s.setAccount name a).beside ledger digest := by
  refine eq_of_account?_eq (fun other => ?_) rfl ⟨rfl, rfl, rfl⟩
  change ((s.settled ledger).setAccount name a).account? other =
    ((s.setAccount name a).settled ledger).account? other
  rw [account?_setAccount, account?_settled, account?_settled, account?_setAccount]
  by_cases same : name = other
  · subst same
    rw [if_pos rfl, if_pos rfl, Option.map_some, Account.settled_of_none free]
  · rw [if_neg same, if_neg same]

/-- A change of one account neither reads nor disturbs the funds of others. -/
theorem updateAccount_beside (free : ledger name = none)
    (change : Account → Except ChainError Account) :
    (s.beside ledger digest).updateAccount name change =
      beside ledger digest <$> s.updateAccount name change := by
  simp only [updateAccount, requireAccount_beside free, map_bind, map_pure, setAccount_beside free]

theorem debit_beside (free : ledger name = none) :
    (s.beside ledger digest).debit name amount =
      beside ledger digest <$> s.debit name amount :=
  updateAccount_beside free _

variable [Crypto]

/-- A payment between other accounts goes through with the same outcome, or fails with the same
error. -/
theorem execute_beside (pays : action.parties? = some names)
    (free : ∀ name ∈ names, ledger name = none) :
    (s.beside ledger digest).execute rules now m action =
      beside ledger digest <$> s.execute rules now m action := by
  cases action <;> cases pays <;>
    simp only [execute, Action.kind, ActionKind.managesAuthority, Bool.not_false, if_true, map_bind]
  case transfer sender recipient amount memo =>
    have sender_free := free sender (by simp)
    have recipient_free := free recipient (by simp)
    simp only [transfer, requireAccount_beside recipient_free, debit_beside sender_free,
      updateAccount_beside recipient_free, map_bind, bind_map_left]
  case lock sender recipient amount =>
    have sender_free := free sender (by simp)
    have recipient_free := free recipient (by simp)
    simp only [lock, requireAccount_beside recipient_free, debit_beside sender_free,
      updateAccount_beside recipient_free, map_bind, bind_map_left]
  case unlock account amount =>
    simp only [unlock, updateAccount_beside (free account (by simp))]
  case claim account amount =>
    simp only [claim, updateAccount_beside (free account (by simp))]

/-- A message that carries an action is carried out as that action. -/
theorem dispatch_of_nativeAction? (carries : m.nativeAction? rules = some action) :
    s.dispatch rules now m = s.execute rules now m action := by
  rw [Message.nativeAction?] at carries
  split at carries
  next native =>
    obtain ⟨kind, spelled, decoded⟩ := Option.bind_eq_some_iff.mp carries
    simp only [dispatch, native, spelled, decoded, orError, bind, Except.bind, bne_self_eq_false,
      Bool.false_eq_true, if_false]
  next => cases carries

theorem applyMessage_beside (pays : m.parties? rules = some names)
    (free : ∀ name ∈ names, ledger name = none) :
    (s.beside ledger digest).applyMessage rules now keys m =
      beside ledger digest <$> s.applyMessage rules now keys m := by
  obtain ⟨action, carries, moves⟩ := Option.bind_eq_some_iff.mp pays
  simp only [applyMessage, sameRights_beside.checkAuthorization_eq,
    dispatch_of_nativeAction? carries, execute_beside moves free, map_bind]

theorem applyMessages_beside {messages : List Message}
    (pays : ∀ m ∈ messages, ∃ parties, m.parties? rules = some parties ∧ parties ⊆ names)
    (free : ∀ name ∈ names, ledger name = none) :
    (s.beside ledger digest).applyMessages rules now keys messages =
      beside ledger digest <$> s.applyMessages rules now keys messages := by
  induction messages generalizing s with
  | nil => rfl
  | cons m rest ih =>
    obtain ⟨⟨parties, pays_first, sub⟩, pays_rest⟩ := List.forall_mem_cons.mp pays
    have first : (s.beside ledger digest).applyMessage rules now keys m =
        beside ledger digest <$> s.applyMessage rules now keys m :=
      applyMessage_beside pays_first fun name mem => free name (sub mem)
    simp only [applyMessages, first, bind_map_left, ih pays_rest, map_bind]

omit [Crypto] in
theorem hasApplied_beside (apart : digest ≠ digest') :
    (s.beside ledger digest).hasApplied digest' = s.hasApplied digest' := by
  simp [hasApplied, beside, settled, Std.ExtTreeSet.contains_insert, apart]

omit [Crypto] in
theorem insert_applied_beside :
    { s.beside ledger digest with applied := (s.beside ledger digest).applied.insert digest' } =
      beside ledger digest { s with applied := s.applied.insert digest' } := by
  refine eq_of_account?_eq (fun name => rfl) rfl ⟨rfl, rfl, ?_⟩
  refine Std.ExtTreeSet.ext_mem fun other => ?_
  simp only [beside, settled, Std.ExtTreeSet.mem_insert]
  exact or_left_comm

theorem applyTransaction_beside {trx : SignedTransaction} (pays : trx.Pays rules)
    (free : ∀ name ∈ trx.parties rules, ledger name = none) (apart : digest ≠ trx.digest) :
    (s.beside ledger digest).applyTransaction rules now trx =
      beside ledger digest <$> s.applyTransaction rules now trx := by
  have reference : checkReference rules (s.beside ledger digest) trx.transaction =
      checkReference rules s trx.transaction := rfl
  simp only [applyTransaction, hasApplied_beside apart, reference, map_bind]
  cases trx.verifiedKeys rules.chainId with
  | error key => rfl
  | ok keys =>
    simp only [applyMessages_beside pays.exists_parties free, bind_map_left, map_bind, map_pure,
      insert_applied_beside]

end beside

section independent

variable [Crypto] {x y : SignedTransaction}

/-- An accepted transaction of payments comes to funds for some of the accounts that it names. -/
theorem exists_beside (pays : x.Pays rules) (h : s.applyTransaction rules now x = .ok s') :
    ∃ ledger : Ledger, (∀ name, name ∉ x.parties rules → ledger name = none) ∧
      s' = s.beside ledger x.digest := by
  obtain ⟨-, -, -, keys, -, t, run, rfl⟩ := applyTransaction_eq_ok.mp h
  obtain ⟨ledger, free, rfl⟩ := settles_applyMessages pays.exists_parties run
  exact ⟨ledger, free, rfl⟩

/-- What comes of a transaction: it is accepted, or there is a reason why not. -/
def answer (rules : Rules) (now : Time) (s : ChainState) (trx : SignedTransaction) :
    Except ChainError Unit :=
  (fun _ => ()) <$> s.applyTransaction rules now trx

/-- Payments between other accounts, applied before, do not show in what comes of a payment. -/
theorem answer_of_independent (paysX : x.Pays rules) (paysY : y.Pays rules)
    (apart : x.digest ≠ y.digest)
    (disjoint : ∀ name ∈ x.parties rules, name ∉ y.parties rules)
    (before : s.applyTransaction rules now y = .ok t) :
    t.answer rules now x = s.answer rules now x := by
  obtain ⟨ledger, free, rfl⟩ := exists_beside paysY before
  have same : (s.beside ledger y.digest).applyTransaction rules now x =
      beside ledger y.digest <$> s.applyTransaction rules now x :=
    applyTransaction_beside paysX (fun name mem => free name (disjoint name mem)) apart.symm
  rw [answer, same, Functor.map_map, answer]

/-- Two transactions of payments between different accounts do not get in each other's way. What
comes of the one is the same, down to the error, whether or not the other was applied just before
it, and if both are accepted then both orders end in the same state. -/
theorem independent_payments_commute (paysX : x.Pays rules) (paysY : y.Pays rules)
    (apart : x.digest ≠ y.digest)
    (disjoint : ∀ name ∈ x.parties rules, name ∉ y.parties rules) :
    (∀ t, s.applyTransaction rules now y = .ok t →
      t.answer rules now x = s.answer rules now x) ∧
    (∀ t, s.applyTransaction rules now x = .ok t →
      t.answer rules now y = s.answer rules now y) ∧
    ∀ t u, s.applyTransaction rules now x = .ok t → s.applyTransaction rules now y = .ok u →
      ∃ v, t.applyTransaction rules now y = .ok v ∧ u.applyTransaction rules now x = .ok v := by
  have disjoint' : ∀ name ∈ y.parties rules, name ∉ x.parties rules :=
    fun name mem mem' => disjoint name mem' mem
  refine ⟨fun t => answer_of_independent paysX paysY apart disjoint,
    fun t => answer_of_independent paysY paysX apart.symm disjoint', fun t u first second => ?_⟩
  obtain ⟨ledger, free, rfl⟩ := exists_beside paysX first
  obtain ⟨ledger', free', rfl⟩ := exists_beside paysY second
  have either : ∀ name, ledger name = none ∨ ledger' name = none := by
    intro name
    by_cases named : name ∈ x.parties rules
    · exact .inr (free' name (disjoint name named))
    · exact .inl (free name named)
  refine ⟨(s.beside ledger x.digest).beside ledger' y.digest, ?_, ?_⟩
  · rw [applyTransaction_beside paysY (fun name named => free name (disjoint' name named)) apart,
      second, beside_comm either]
    rfl
  · rw [applyTransaction_beside paysX (fun name named => free' name (disjoint name named))
      apart.symm, first]
    rfl

end independent

section sample

attribute [local instance] checksum

/-- The active permission of `bob` is met by that of `init0`, who holds the key. -/
def sampleNeighbours : ChainState :=
  (sampleStart.setAccount "bob" (Account.make "bob" sampleKey (.ofAccount "init0") ⟨10⟩)).setAccount
    "carol" (Account.make "carol" sampleKey sampleKey .zero)

def samplePayment (payer : AccountName) (action : Action) : SignedTransaction :=
  let declared : LevelSet := ∅
  ⟨⟨⟨100⟩, 0, sampleStart.head.id.refTag,
      [action.toMessage "eos" (declared.insert (Level.active payer))]⟩,
    [(sampleConfig.genesisAccount.publicKey, ⟨Bytes.zero 64⟩)]⟩

def sampleStake : SignedTransaction := samplePayment "init0" (.lock "init0" "init0" ⟨5⟩)

def sampleWage (amount : Amount) : SignedTransaction :=
  samplePayment "bob" (.transfer "bob" "carol" amount "wage")

/-- Stake moves in the account that authorizes a wage. The wage is paid before it and after it, or
refused before it and after it if it is more than there is. -/
theorem independent_payments_commute_sample :
    sampleStake.Pays sampleRules ∧ (∀ amount ∈ [⟨4⟩, ⟨11⟩], (sampleWage amount).Pays sampleRules) ∧
      (∀ amount ∈ [⟨4⟩, ⟨11⟩], sampleStake.digest ≠ (sampleWage amount).digest) ∧
      (∀ amount ∈ [⟨4⟩, ⟨11⟩], ∀ name ∈ sampleStake.parties sampleRules,
        name ∉ (sampleWage amount).parties sampleRules) ∧
      ∃ t u v, sampleNeighbours.applyTransaction sampleRules .zero sampleStake = .ok t ∧
        sampleNeighbours.applyTransaction sampleRules .zero (sampleWage ⟨4⟩) = .ok u ∧
        t.applyTransaction sampleRules .zero (sampleWage ⟨4⟩) = .ok v ∧
        u.applyTransaction sampleRules .zero sampleStake = .ok v ∧
        t.answer sampleRules .zero (sampleWage ⟨11⟩) =
          .error (.insufficientFunds "bob" ⟨11⟩ ⟨10⟩) := by
  have facts :
      (∀ m ∈ sampleStake.transaction.messages, (m.parties? sampleRules).isSome) ∧
      (∀ amount ∈ [⟨4⟩, ⟨11⟩], ∀ m ∈ (sampleWage amount).transaction.messages,
        (m.parties? sampleRules).isSome) ∧
      (∀ amount ∈ [⟨4⟩, ⟨11⟩], sampleStake.digest ≠ (sampleWage amount).digest) ∧
      (∀ amount ∈ [⟨4⟩, ⟨11⟩], ∀ name ∈ sampleStake.parties sampleRules,
        name ∉ (sampleWage amount).parties sampleRules) ∧
      (sampleNeighbours.applyTransaction sampleRules .zero sampleStake).isOk = true ∧
      (sampleNeighbours.applyTransaction sampleRules .zero (sampleWage ⟨4⟩)).isOk = true ∧
      sampleNeighbours.answer sampleRules .zero (sampleWage ⟨11⟩) =
        .error (.insufficientFunds "bob" ⟨11⟩ ⟨10⟩) := by
    decide +kernel
  obtain ⟨stakes, wages, apart, disjoint, accepted, paid, short⟩ := facts
  obtain ⟨t, first⟩ := exists_eq_ok_iff.mpr accepted
  obtain ⟨u, second⟩ := exists_eq_ok_iff.mpr paid
  obtain ⟨-, -, orders⟩ := independent_payments_commute stakes (wages ⟨4⟩ (by simp))
    (apart ⟨4⟩ (by simp)) (disjoint ⟨4⟩ (by simp))
  obtain ⟨v, done, done'⟩ := orders t u first second
  obtain ⟨-, refused, -⟩ := independent_payments_commute stakes (wages ⟨11⟩ (by simp))
    (apart ⟨11⟩ (by simp)) (disjoint ⟨11⟩ (by simp))
  exact ⟨stakes, wages, apart, disjoint, t, u, v, first, second, done, done',
    (refused t first).trans short⟩

end sample

end ChainState

end ChainLab
