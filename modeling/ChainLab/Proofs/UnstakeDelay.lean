import ChainLab.Node
import ChainLab.Proofs.AccountEdits
import ChainLab.Proofs.Consent

/-!
# Unstaking waits

A claim looks at one stored moment only, that of the last request, and at what is left of it.
Both can be read off the history of the chain. What an account is unstaking is what its last
unlock put aside, less what it has claimed since; and no unlock is later than the stored
moment, as time does not run backwards along a history. So a claim that has waited since the
stored moment has waited since every unlock.
-/

namespace ChainLab

/-- A message that was carried out, with the states before and after it. -/
structure Deed where
  time : Time
  message : Message
  before : ChainState
  after : ChainState

namespace Deed

variable {rules : Rules} {name : AccountName} {amount : Amount} {d : Deed}

def Unlocks (rules : Rules) (name : AccountName) (d : Deed) : Prop :=
  ∃ amount, d.message.nativeAction? rules = some (.unlock name amount)

def Claims (rules : Rules) (name : AccountName) (amount : Amount) (d : Deed) : Prop :=
  d.message.nativeAction? rules = some (.claim name amount)

theorem Claims.not_unlocks (h : d.Claims rules name amount) : ¬ d.Unlocks rules name := by
  rintro ⟨part, carries⟩
  cases h.symm.trans carries

end Deed

namespace Account

/-- Nothing happens to what is being unstaked, and stake is at most added to. -/
structure LeavesStake (a a' : Account) : Prop where
  unstaking : a'.unstaking = a.unstaking
  requestedAt : a'.unstakeRequestedAt = a.unstakeRequestedAt
  staked : a.staked.units.toNat ≤ a'.staked.units.toNat

/-- Stake is divided anew between what stays and what is being unstaked. -/
structure DividesStake (a a' : Account) : Prop where
  balance : a'.balance = a.balance
  sum : a'.staked.units.toNat + a'.unstaking.units.toNat =
    a.staked.units.toNat + a.unstaking.units.toNat

theorem LeavesStake.refl (a : Account) : a.LeavesStake a := ⟨rfl, rfl, Nat.le_refl _⟩

theorem LeavesStake.trans {a b c : Account} (h : a.LeavesStake b) (h' : b.LeavesStake c) :
    a.LeavesStake c :=
  ⟨h'.unstaking.trans h.unstaking, h'.requestedAt.trans h.requestedAt,
    Nat.le_trans h.staked h'.staked⟩

end Account

namespace ChainState

/-- What an account is unstaking; nothing for an account that is not there. -/
def unstakingOf (s : ChainState) (name : AccountName) : Nat :=
  ((s.account? name).map (·.unstaking.units.toNat)).getD 0

/-- When an account last asked for stake, or the first moment if it never did. -/
def requestedAt (s : ChainState) (name : AccountName) : Time :=
  ((s.account? name).map (·.unstakeRequestedAt)).getD .zero

/-- What is left of the last unlock of an account by the messages that were carried out, the
last one first: what it was unstaking right after it, less what it has claimed since. -/
def due (rules : Rules) (name : AccountName) : List Deed → Int
  | [] => 0
  | d :: earlier =>
    match d.message.nativeAction? rules with
    | some (.unlock account _) =>
      if account = name then d.after.unstakingOf name else due rules name earlier
    | some (.claim account amount) =>
      due rules name earlier - if account = name then (amount.units.toNat : Int) else 0
    | _ => due rules name earlier

variable {rules : Rules} {now : Time} {keys : KeySet} {s s' t : ChainState} {m : Message}
  {name : AccountName} {a : Account} {amount : Amount} {d : Deed} {earlier log : List Deed}

theorem unstakingOf_eq (found : s.account? name = some a) :
    s.unstakingOf name = a.unstaking.units.toNat := by
  simp [unstakingOf, found]

theorem requestedAt_eq (found : s.account? name = some a) :
    s.requestedAt name = a.unstakeRequestedAt := by
  simp [requestedAt, found]

theorem due_of_unlocks (h : d.Unlocks rules name) :
    due rules name (d :: earlier) = d.after.unstakingOf name := by
  obtain ⟨amount, carries⟩ := h
  simp [due, carries]

theorem due_of_claims (h : d.Claims rules name amount) :
    due rules name (d :: earlier) = due rules name earlier - amount.units.toNat := by
  have carries : d.message.nativeAction? rules = some (.claim name amount) := h
  simp [due, carries]

theorem due_of_neither (keeps : ¬ d.Unlocks rules name)
    (leaves : ∀ amount, ¬ d.Claims rules name amount) :
    due rules name (d :: earlier) = due rules name earlier := by
  rw [due]
  split
  next account amount carries =>
    have other : account ≠ name := by
      rintro rfl
      exact keeps ⟨amount, carries⟩
    rw [if_neg other]
  next account amount carries =>
    have other : account ≠ name := by
      rintro rfl
      exact leaves amount carries
    rw [if_neg other, Int.sub_zero]
  next => rfl

/-- What a message does to the stake of one account. -/
inductive Restakes (rules : Rules) (name : AccountName) (d : Deed) : Prop
  | left (keeps : ¬ d.Unlocks rules name) (leaves : ∀ amount, ¬ d.Claims rules name amount)
      (unstaking : d.after.unstakingOf name = d.before.unstakingOf name)
      (requestedAt : d.after.requestedAt name = d.before.requestedAt name)
      (accounts : ∀ a, d.before.account? name = some a →
        ∃ a', d.after.account? name = some a' ∧ a.LeavesStake a')
  | unlocked (unlocks : d.Unlocks rules name) (requestedAt : d.after.requestedAt name = d.time)
      (accounts : ∀ a, d.before.account? name = some a →
        ∃ a', d.after.account? name = some a' ∧ a.DividesStake a')
  | claimed {amount : Amount} (claims : d.Claims rules name amount)
      (unstaking : d.after.unstakingOf name + amount.units.toNat = d.before.unstakingOf name)
      (requestedAt : d.after.requestedAt name = d.before.requestedAt name)
      (mature : rules.config.unstakeDelay ≤ d.time.since (d.before.requestedAt name))

/-- A claim comes no sooner than the delay after each unlock, and takes no more than is due. -/
structure Waited (rules : Rules) (name : AccountName) (amount : Amount) (d : Deed)
    (earlier : List Deed) : Prop where
  delay : ∀ u ∈ earlier, u.Unlocks rules name →
    ¬ (d.time.ticks.toNat : Int) - u.time.ticks.toNat < rules.config.unstakeDelay.toNat
  due : (amount.units.toNat : Int) ≤ due rules name earlier

/-- No stake of the account becomes liquid: it is left, or only divided anew. -/
def Keeps (name : AccountName) (d : Deed) : Prop :=
  ∀ a, d.before.account? name = some a →
    ∃ a', d.after.account? name = some a' ∧ (a.LeavesStake a' ∨ a.DividesStake a')

/-- What holds of a state and the messages that led to it. -/
structure Tracked (rules : Rules) (name : AccountName) (now : Time) (log : List Deed)
    (s : ChainState) : Prop where
  past : ∀ d ∈ log, d.time ≤ now
  asked : ∀ d ∈ log, d.Unlocks rules name → d.time ≤ s.requestedAt name
  due_eq : (s.unstakingOf name : Int) = due rules name log
  waited : ∀ d earlier amount, d :: earlier <:+ log → d.Claims rules name amount →
    Waited rules name amount d earlier
  keeps : ∀ d ∈ log, (∀ amount, ¬ d.Claims rules name amount) → Keeps name d

namespace Tracked

theorem mono {later : Time} (h : Tracked rules name now log s) (inOrder : now ≤ later) :
    Tracked rules name later log s :=
  { h with past := fun d mem => UInt64.le_trans (h.past d mem) inOrder }

/-- A claim that has waited since the stored moment has waited since every unlock. -/
theorem waits (h : Tracked rules name d.time log d.before)
    (unstaking : d.after.unstakingOf name + amount.units.toNat = d.before.unstakingOf name)
    (mature : rules.config.unstakeDelay ≤ d.time.since (d.before.requestedAt name)) :
    Waited rules name amount d log where
  delay u mem unlocks := by
    have asked := UInt64.le_iff_toNat_le.mp (h.asked u mem unlocks)
    have past := UInt64.le_iff_toNat_le.mp (h.past u mem)
    have mature := UInt64.le_iff_toNat_le.mp mature
    rw [Time.toNat_since] at mature
    -- Where the stored moment lies ahead of the claim nothing has elapsed, so there is no
    -- delay, and that the unlock is not later than the claim is enough.
    omega
  due := by
    have left := h.due_eq
    omega

/-- One more message at the same time, which keeps the request and the log in step. -/
theorem cons (h : Tracked rules name d.time log d.before)
    (asked : ∀ u ∈ d :: log, u.Unlocks rules name → u.time ≤ d.after.requestedAt name)
    (due_eq : (d.after.unstakingOf name : Int) = due rules name (d :: log))
    (waits : ∀ amount, d.Claims rules name amount → Waited rules name amount d log)
    (keeps : (∀ amount, ¬ d.Claims rules name amount) → Keeps name d) :
    Tracked rules name d.time (d :: log) d.after where
  past := List.forall_mem_cons.mpr ⟨UInt64.le_refl _, h.past⟩
  asked := asked
  due_eq := due_eq
  waited claim earlier amount suffix claims := by
    rcases List.suffix_cons_iff.mp suffix with same | older
    · cases same
      exact waits amount claims
    · exact h.waited claim earlier amount older claims
  keeps := List.forall_mem_cons.mpr ⟨keeps, h.keeps⟩

theorem asked_cons (h : Tracked rules name d.time log d.before) (other : ¬ d.Unlocks rules name)
    (same : d.after.requestedAt name = d.before.requestedAt name) :
    ∀ u ∈ d :: log, u.Unlocks rules name → u.time ≤ d.after.requestedAt name := by
  rw [same]
  exact List.forall_mem_cons.mpr ⟨fun unlocks => absurd unlocks other, h.asked⟩

theorem deed (h : Tracked rules name d.time log d.before) (restakes : Restakes rules name d) :
    Tracked rules name d.time (d :: log) d.after := by
  cases restakes with
  | left keeps leaves unstaking requestedAt accounts =>
    refine h.cons (h.asked_cons keeps requestedAt) ?_ ?_ ?_
    · rw [unstaking, h.due_eq, due_of_neither keeps leaves]
    · intro amount claims
      exact absurd claims (leaves amount)
    · intro _ a found
      obtain ⟨a', found', leaves⟩ := accounts a found
      exact ⟨a', found', .inl leaves⟩
  | unlocked unlocks requestedAt accounts =>
    refine h.cons ?_ (due_of_unlocks unlocks).symm ?_ ?_
    · rw [requestedAt]
      exact List.forall_mem_cons.mpr ⟨fun _ => UInt64.le_refl _, fun u mem _ => h.past u mem⟩
    · intro amount claims
      exact absurd unlocks claims.not_unlocks
    · intro _ a found
      obtain ⟨a', found', divides⟩ := accounts a found
      exact ⟨a', found', .inr divides⟩
  | claimed claims unstaking requestedAt mature =>
    refine h.cons (h.asked_cons claims.not_unlocks requestedAt) ?_ ?_ ?_
    · rw [due_of_claims claims, ← h.due_eq]
      omega
    · intro amount claims'
      cases claims.symm.trans claims'
      exact h.waits unstaking mature
    · intro others
      exact absurd claims (others _)

/-- Neither the digest of a transaction nor the head is about stake. -/
theorem of_accounts_eq (h : Tracked rules name now log s)
    (same : t.accounts = s.accounts) : Tracked rules name now log t := by
  have requestedAt : t.requestedAt name = s.requestedAt name := by
    rw [ChainState.requestedAt, account?, same]
    rfl
  have unstaking : t.unstakingOf name = s.unstakingOf name := by
    rw [unstakingOf, account?, same]
    rfl
  exact ⟨h.past, requestedAt ▸ h.asked, unstaking ▸ h.due_eq, h.waited, h.keeps⟩

end Tracked

section

variable [Crypto]

theorem exists_leavesStake (h : s.applyMessage rules now keys m = .ok s')
    (found : s.account? name = some a)
    (keeps : ∀ amount, m.nativeAction? rules ≠ some (.unlock name amount))
    (leaves : ∀ amount, m.nativeAction? rules ≠ some (.claim name amount)) :
    ∃ a', s'.account? name = some a' ∧ a.LeavesStake a' := by
  refine exists_related_of_applyMessage Account.LeavesStake .refl .trans ?_ h found
  intro action b b' carries edit
  cases edit with
  | staked more =>
    have sum := Amount.toNat_of_add? more
    exact ⟨rfl, rfl, by simp only; omega⟩
  | unlocked => exact absurd carries (keeps _)
  | claimed => exact absurd carries (leaves _)
  | _ => exact ⟨rfl, rfl, Nat.le_refl _⟩

/-- An account that a message opens is not unstaking anything. -/
theorem unstaking_of_absent (h : s.applyMessage rules now keys m = .ok s')
    (absent : s.account? name = none) :
    s'.unstakingOf name = s.unstakingOf name ∧ s'.requestedAt name = s.requestedAt name := by
  rcases became_applyMessage h with ⟨-, rfl⟩ | ⟨action, -, became⟩
  · exact ⟨rfl, rfl⟩
  · have record := became name
    rw [absent] at record
    rw [unstakingOf, unstakingOf, requestedAt, requestedAt, absent]
    generalize s'.account? name = after at record
    cases record <;> exact ⟨rfl, rfl⟩

theorem restakes_of_applyMessage (h : s.applyMessage rules now keys m = .ok s')
    (name : AccountName) : Restakes rules name ⟨now, m, s, s'⟩ := by
  by_cases unlocks : Deed.Unlocks rules name ⟨now, m, s, s'⟩
  · obtain ⟨amount, carries⟩ := unlocks
    have done : (do requireActor m name; s.unlock now name amount) = .ok s' :=
      execute_of_applyMessage h carries
    obtain ⟨-, -, done⟩ := bind_eq_ok.mp done
    obtain ⟨a, total, staked, found, sum, rest, rfl⟩ := unlock_eq_ok.mp done
    refine .unlocked ⟨amount, carries⟩ (requestedAt_eq account?_setAccount_self) ?_
    intro b found'
    cases found.symm.trans found'
    refine ⟨_, account?_setAccount_self, rfl, ?_⟩
    have sum := Amount.toNat_of_add? sum
    have rest := Amount.toNat_of_sub? rest
    simp only
    omega
  · by_cases claims : ∃ amount, Deed.Claims rules name amount ⟨now, m, s, s'⟩
    · obtain ⟨amount, carries⟩ := claims
      have done : (do requireActor m name; claim rules s now name amount) = .ok s' :=
        execute_of_applyMessage h carries
      obtain ⟨-, -, done⟩ := bind_eq_ok.mp done
      obtain ⟨a, unstaking, balance, found, less, mature, -, rfl⟩ := claim_eq_ok.mp done
      refine .claimed carries ?_ ?_ ?_
      · rw [unstakingOf_eq account?_setAccount_self, unstakingOf_eq found]
        exact Amount.toNat_of_sub? less
      · rw [requestedAt_eq account?_setAccount_self, requestedAt_eq found]
      · rwa [requestedAt_eq found]
    · have claims := not_exists.mp claims
      have keeps := not_exists.mp unlocks
      have accounts := fun a found => exists_leavesStake (a := a) h found keeps claims
      cases found : s.account? name with
      | none =>
        obtain ⟨unstaking, requestedAt⟩ := unstaking_of_absent h found
        exact .left unlocks claims unstaking requestedAt accounts
      | some a =>
        obtain ⟨a', found', leaves⟩ := accounts a found
        refine .left unlocks claims ?_ ?_ accounts
        · rw [unstakingOf_eq found', unstakingOf_eq found, leaves.unstaking]
        · rw [requestedAt_eq found', requestedAt_eq found, leaves.requestedAt]

/-- The messages of a transaction on top of those carried out before. -/
def record (rules : Rules) (now : Time) (keys : KeySet) :
    ChainState → List Deed → List Message → List Deed
  | _, log, [] => log
  | s, log, m :: rest =>
    match s.applyMessage rules now keys m with
    | .error _ => log
    | .ok t => record rules now keys t (⟨now, m, s, t⟩ :: log) rest

theorem record_concat {messages : List Message}
    (first : s.applyMessages rules now keys messages = .ok t)
    (last : t.applyMessage rules now keys m = .ok s') :
    record rules now keys s log (messages ++ [m]) =
      ⟨now, m, t, s'⟩ :: record rules now keys s log messages := by
  induction messages generalizing s log with
  | nil =>
    cases first
    simp [record, last]
  | cons m rest ih =>
    simp only [applyMessages, bind_eq_ok] at first
    obtain ⟨u, once, later⟩ := first
    simp only [List.cons_append, record, once, ih later]

/-- What each message keeps, all messages of a transaction keep. -/
theorem record_induction {kept : List Deed → ChainState → Prop} {messages : List Message}
    (message : ∀ {m : Message} {log : List Deed} {s s' : ChainState},
      kept log s → s.applyMessage rules now keys m = .ok s' → kept (⟨now, m, s, s'⟩ :: log) s')
    (h : kept log s) (run : s.applyMessages rules now keys messages = .ok s') :
    kept (record rules now keys s log messages) s' := by
  induction messages generalizing s log with
  | nil =>
    cases run
    exact h
  | cons m rest ih =>
    simp only [applyMessages, bind_eq_ok] at run
    obtain ⟨t, once, later⟩ := run
    rw [ChainState.record, once]
    exact ih (message h once) later

/-- The messages of transactions that were applied from genesis on, the last one first. Time
does not run backwards, and the head may move at any time. -/
inductive History (rules : Rules) : Time → List Deed → ChainState → Prop
  | genesis {now : Time} : History rules now [] (genesis rules)
  | transaction {now later : Time} {log : List Deed} {s s' : ChainState}
      {trx : SignedTransaction} {keys : KeySet} (history : History rules now log s)
      (inOrder : now ≤ later) (verified : trx.verifiedKeys rules.chainId = .ok keys)
      (applies : s.applyTransaction rules later trx = .ok s') :
      History rules later (record rules later keys s log trx.transaction.messages) s'
  | head {now : Time} {log : List Deed} {s : ChainState} (history : History rules now log s)
      (header : BlockHeader) : History rules now log (s.advance header)

theorem Tracked.genesis : Tracked rules name now [] (genesis rules) where
  past := by simp
  asked := by simp
  due_eq := by
    by_cases h : rules.config.genesisAccount.name = name <;>
      simp [unstakingOf, due, ChainState.genesis, account?, Account.make, Amount.zero, h]
  waited d earlier amount suffix := by simp at suffix
  keeps := by simp

theorem Tracked.record {messages : List Message} (h : Tracked rules name now log s)
    (run : s.applyMessages rules now keys messages = .ok s') :
    Tracked rules name now (record rules now keys s log messages) s' :=
  record_induction (fun h once => h.deed (restakes_of_applyMessage once name)) h run

theorem History.tracked (history : History rules now log s) (name : AccountName) :
    Tracked rules name now log s := by
  induction history with
  | genesis => exact .genesis
  | transaction _ inOrder verified applies ih =>
    obtain ⟨-, -, -, keys, verified', t, run, rfl⟩ := applyTransaction_eq_ok.mp applies
    cases verified.symm.trans verified'
    exact ((ih.mono inOrder).record run).of_accounts_eq rfl
  | head _ header ih => exact ih.of_accounts_eq rfl

theorem History.applyTransactions {later : Time} {trxs : List SignedTransaction}
    (history : History rules now log s) (inOrder : now ≤ later)
    (applies : s.applyTransactions rules later trxs = .ok s') :
    ∃ last log', last ≤ later ∧ History rules last log' s' := by
  induction trxs generalizing now log s with
  | nil =>
    cases applies
    exact ⟨now, log, inOrder, history⟩
  | cons trx rest ih =>
    obtain ⟨t, once, applies⟩ := applyTransactions_cons_eq_ok.mp applies
    obtain ⟨-, -, -, keys, verified, -⟩ := applyTransaction_eq_ok.mp once
    exact ih (history.transaction inOrder verified once) (UInt64.le_refl _) applies

theorem History.replay {bs : List Block} (history : History rules now log s)
    (inOrder : now ≤ s.head.time) (leads : Node.replay rules s bs = .ok s') :
    ∃ last log', last ≤ s'.head.time ∧ History rules last log' s' := by
  induction bs generalizing now log s with
  | nil =>
    cases leads
    exact ⟨now, log, inOrder, history⟩
  | cons b rest ih =>
    simp only [Node.replay, bind_eq_ok] at leads
    obtain ⟨t, once, leads⟩ := leads
    obtain ⟨-, -, dated, -, u, run, rfl⟩ := applyBlock_eq_ok.mp once
    have later : now ≤ b.header.time := UInt64.le_trans inOrder (UInt64.le_of_lt dated)
    obtain ⟨last, log', inOrder', history'⟩ := history.applyTransactions later run
    exact ih (history'.head b.header) inOrder' leads

/-- Blocks are dated one after the other, so every chain of them that leads from the genesis block
to a state has a history: what holds along all histories holds of all chains. -/
theorem exists_history_of_replay {bs : List Block}
    (leads : Node.replay rules (ChainState.genesis rules) bs = .ok s) :
    ∃ last log, last ≤ s.head.time ∧ History rules last log s :=
  History.genesis.replay (UInt64.le_refl _) leads

end

/-- Along every history and for every account, a claim comes no sooner than the delay after
each earlier unlock, and takes no more than what the account was unstaking after the last one
less what it has claimed since. Nothing but its claims makes stake of an account liquid. -/
theorem claims_wait [Crypto] (history : History rules now log s) (name : AccountName) :
    (∀ d earlier amount, d :: earlier <:+ log → d.Claims rules name amount →
      Waited rules name amount d earlier) ∧
      ∀ d ∈ log, (∀ amount, ¬ d.Claims rules name amount) → Keeps name d :=
  ⟨(history.tracked name).waited, (history.tracked name).keeps⟩

section sample

attribute [local instance] checksum

def sampleLock : Message :=
  (Action.lock "init0" "init0" ⟨5⟩).toMessage "eos" ((∅ : LevelSet).insert (Level.active "init0"))

def sampleUnlock : Message :=
  (Action.unlock "init0" ⟨5⟩).toMessage "eos" ((∅ : LevelSet).insert (Level.active "init0"))

def sampleClaim : Message :=
  (Action.claim "init0" ⟨5⟩).toMessage "eos" ((∅ : LevelSet).insert (Level.active "init0"))

def sampleSigned (messages : List Message) : SignedTransaction :=
  ⟨⟨⟨300⟩, 0, (genesis sampleRules).head.id.refTag, messages⟩,
    [(sampleConfig.genesisAccount.publicKey, ⟨Bytes.zero 64⟩)]⟩

/-- A claim on the day that the delay is over. -/
theorem claims_wait_sample :
    ∃ log s d u earlier, History sampleRules ⟨300⟩ log s ∧ log = d :: u :: earlier ∧
      d.time = ⟨300⟩ ∧ u.time = .zero ∧ u.Unlocks sampleRules "init0" ∧
      d.Claims sampleRules "init0" ⟨5⟩ ∧ Waited sampleRules "init0" ⟨5⟩ d (u :: earlier) := by
  obtain ⟨s', applies⟩ : ∃ s', (do
      let s ← (genesis sampleRules).applyTransaction sampleRules .zero
        (sampleSigned [sampleLock, sampleUnlock])
      s.applyTransaction sampleRules ⟨300⟩ (sampleSigned [sampleClaim])) = .ok s' :=
    exists_eq_ok_iff.mpr (by decide +kernel)
  have unlocks : sampleUnlock.nativeAction? sampleRules = some (.unlock "init0" ⟨5⟩) := by
    decide +kernel
  have claims : sampleClaim.nativeAction? sampleRules = some (.claim "init0" ⟨5⟩) := by
    decide +kernel
  obtain ⟨s, first, second⟩ := bind_eq_ok.mp applies
  obtain ⟨-, -, -, keys, verified, t, run, -⟩ := applyTransaction_eq_ok.mp first
  obtain ⟨-, -, -, keys', verified', t', run', -⟩ := applyTransaction_eq_ok.mp second
  have history := (History.genesis.transaction (UInt64.le_refl _) verified first).transaction
    (by decide : Time.zero ≤ ⟨300⟩) verified' second
  simp only [sampleSigned, applyMessages, bind_eq_ok] at run run'
  obtain ⟨u, locked, u', unlocked, -⟩ := run
  obtain ⟨v, claimed, -⟩ := run'
  simp only [sampleSigned, record, locked, unlocked, claimed] at history
  obtain ⟨waited, -⟩ := claims_wait history "init0"
  exact ⟨_, s', _, _, _, history, rfl, rfl, rfl, ⟨_, unlocks⟩, claims,
    waited _ _ _ List.suffix_rfl claims⟩

end sample

end ChainState

end ChainLab
