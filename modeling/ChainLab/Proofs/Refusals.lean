import ChainLab.Proofs.ActionEffects

/-!
# What a message is refused for

Whether a transaction is new, alive, bound to a recent block and rightly signed is asked
before its messages are run, and none of them asks again. So what a message is refused for
has to do with accounts, permissions, producers and amounts. Only the actions that add
amounts up can find that a sum is out of range.
-/

namespace ChainLab

namespace ChainError

/-- Whether a message can be refused for it. What is asked of a transaction before its
messages is not among it, nor what is asked of blocks. -/
@[simp] def ofMessage : ChainError → Bool
  | authorityUnsatisfied .. | authority .. | unknownAccount .. | duplicateAccount ..
  | missingAuthorization .. | irrelevantAuthority .. | insufficientFunds .. | overflow
  | unknownProducer .. | duplicateProducer .. | unknownAction .. | invalidPayload ..
  | invalidName .. | protectedPermission .. | permissionInUse .. | invalidParent ..
  | unstakeNotMature .. | unknownPermissionLink .. => true
  | _ => false

/-- Whether a message that adds nothing up can be refused for it. -/
def withoutSum (error : ChainError) : Bool := error.ofMessage && error != .overflow

theorem ofMessage_of_withoutSum {error : ChainError} (h : error.withoutSum = true) :
    error.ofMessage = true :=
  (Bool.and_eq_true_iff.mp h).1

end ChainError

/-- Whether an action adds amounts up: a payment, or a change of one's own stake. -/
def Action.addsUp : Action → Bool
  | transfer .. | lock .. | unlock .. | claim .. => true
  | _ => false

/-- A computation fails for reasons of one kind only, if it fails at all. -/
def FailsOnly {α : Type} (kind : ChainError → Bool) (x : Except ChainError α) : Prop :=
  ∀ error, x = .error error → kind error = true

section

variable {α β : Type} {kind kind' : ChainError → Bool} {x : Except ChainError α}

theorem FailsOnly.mono (h : FailsOnly kind x)
    (sub : ∀ error, kind error = true → kind' error = true) : FailsOnly kind' x :=
  fun error fails => sub error (h error fails)

theorem FailsOnly.ne_overflow (h : FailsOnly ChainError.withoutSum x) : x ≠ .error .overflow := by
  intro fails
  cases h _ fails

@[simp] theorem failsOnly_ok {a : α} : FailsOnly kind (.ok a) := by
  intro error fails
  cases fails

@[simp] theorem failsOnly_pure {a : α} : FailsOnly kind (pure a) := failsOnly_ok

@[simp] theorem failsOnly_error {error : ChainError} :
    FailsOnly kind (.error error : Except ChainError α) ↔ kind error = true := by
  constructor
  · intro h
    exact h error rfl
  · intro h other fails
    cases fails
    exact h

@[simp] theorem failsOnly_throw {error : ChainError} :
    FailsOnly kind (throw error : Except ChainError α) ↔ kind error = true := failsOnly_error

/-- What comes second fails only where what comes first does not. -/
@[simp] theorem failsOnly_bind {f : α → Except ChainError β} :
    FailsOnly kind (x >>= f) ↔ FailsOnly kind x ∧ ∀ a, x = .ok a → FailsOnly kind (f a) := by
  simp only [FailsOnly, bind_eq_error]
  constructor
  · intro h
    exact ⟨fun error fails => h error (.inl fails),
      fun a done error fails => h error (.inr ⟨a, done, fails⟩)⟩
  · rintro ⟨first, second⟩ error (fails | ⟨a, done, fails⟩)
    · exact first error fails
    · exact second a done error fails

@[simp] theorem failsOnly_map {f : α → β} : FailsOnly kind (f <$> x) ↔ FailsOnly kind x := by
  simp [FailsOnly]

end

namespace ChainState

variable {s : ChainState} {name : AccountName} {a : Account} {rules : Rules} {now : Time}
  {keys : KeySet} {m : Message} {permission parent : PermissionName}

section

variable {α : Type} {kind : ChainError → Bool}

@[simp] theorem failsOnly_ensure {condition : Bool} {error : ChainError} :
    FailsOnly kind (ensure condition error) ↔ (condition = false → kind error = true) := by
  cases condition <;> simp [ensure]

@[simp] theorem failsOnly_orError {error : ChainError} {o : Option α} :
    FailsOnly kind (orError error o) ↔ (o = none → kind error = true) := by
  cases o <;> simp [orError]

@[simp] theorem failsOnly_requireAccount :
    FailsOnly kind (s.requireAccount name) ↔
      (s.account? name = none → kind (.unknownAccount name) = true) := by
  cases h : s.account? name <;> simp [requireAccount, h]

@[simp] theorem failsOnly_updateAccount {change : Account → Except ChainError Account} :
    FailsOnly kind (s.updateAccount name change) ↔
      (s.account? name = none → kind (.unknownAccount name) = true) ∧
        ∀ a, s.account? name = some a → FailsOnly kind (change a) := by
  simp [updateAccount]

end

section

open ChainError (withoutSum ofMessage)

theorem failsOnly_debit {amount : Amount} : FailsOnly withoutSum (s.debit name amount) := by
  simp [debit, withoutSum]

theorem failsOnly_validateDelegations {entries : List LevelWeight} :
    FailsOnly withoutSum (s.validateDelegations entries) := by
  induction entries with
  | nil => simp [validateDelegations]
  | cons entry rest ih => simp [validateDelegations, withoutSum, ih]

theorem failsOnly_validateAuthority {authority : Authority} :
    FailsOnly withoutSum (s.validateAuthority authority) := by
  simp [validateAuthority, withoutSum, failsOnly_validateDelegations]

theorem failsOnly_requirePermission :
    FailsOnly withoutSum (requirePermission m s name permission) := by
  unfold requirePermission
  apply failsOnly_bind.mpr
  constructor
  · simp [withoutSum]
  · intro a found
    split <;> simp [withoutSum]

theorem failsOnly_requireActor : FailsOnly withoutSum (requireActor m name) := by
  unfold requireActor
  split <;> simp [withoutSum]

theorem failsOnly_newParent : FailsOnly withoutSum (newParent a permission parent) := by
  unfold newParent
  split <;> simp [withoutSum]

theorem failsOnly_checkLevel {level : Level} :
    FailsOnly withoutSum (checkLevel rules keys m s level) := by
  unfold checkLevel
  apply failsOnly_bind.mpr
  constructor
  · simp [withoutSum]
  · intro a found
    by_cases known : level.permission ∈ a.permissions
    · rcases level.evaluate s.resolver keys with e | met | met <;>
        simp only [known, not_true_eq_false, if_false] <;>
        split <;> simp [withoutSum]
    · simp [known, withoutSum]

theorem failsOnly_checkLevels {levels : List Level} :
    FailsOnly withoutSum (checkLevels rules keys m s levels) := by
  induction levels with
  | nil => simp [checkLevels]
  | cons level rest ih => simp [checkLevels, failsOnly_checkLevel, ih]

variable [Crypto] {action : Action}

theorem failsOnly_execute_of_not_addsUp (apart : action.addsUp = false) :
    FailsOnly withoutSum (s.execute rules now m action) := by
  cases action <;>
    simp only [execute, Action.kind, ActionKind.managesAuthority, Bool.not_true, Bool.not_false,
      Bool.false_eq_true, if_false, if_true, failsOnly_bind, failsOnly_requireActor, true_and]
  case newAccount =>
    intro _ _
    simp [newAccount, withoutSum, failsOnly_validateAuthority, failsOnly_debit]
  case transfer | lock | unlock | claim => cases apart
  case setProxy =>
    intro _ _
    unfold setProxy
    split <;> simp [withoutSum]
  case setProducer => simp [setProducer, withoutSum]
  case updateProducer => simp [updateProducer, withoutSum]
  case approveProducer => simp [approveProducer, withoutSum]
  case updateAuthority =>
    simp [updateAuthority, withoutSum, failsOnly_newParent, failsOnly_requirePermission,
      failsOnly_validateAuthority]
  case deleteAuthority =>
    simp [deleteAuthority, withoutSum, failsOnly_requirePermission]
  case linkAuthority account contract _ _ =>
    by_cases native : contract = rules.config.nativeContract <;>
      simp [linkAuthority, native, withoutSum, failsOnly_requirePermission]
  case unlinkAuthority =>
    simp [unlinkAuthority, withoutSum, failsOnly_requirePermission]
  case setCode => simp [setCode, withoutSum]

theorem failsOnly_execute : FailsOnly ofMessage (s.execute rules now m action) := by
  have actor : FailsOnly ofMessage (requireActor m action.actor) :=
    failsOnly_requireActor.mono fun _ => ChainError.ofMessage_of_withoutSum
  have debit : ∀ {payer amount}, FailsOnly ofMessage (s.debit payer amount) :=
    failsOnly_debit.mono fun _ => ChainError.ofMessage_of_withoutSum
  cases action with
  | transfer | lock | unlock | claim =>
    simp [execute, Action.kind, ActionKind.managesAuthority, actor, transfer, lock, unlock, claim,
      debit]
  | _ =>
    refine (failsOnly_execute_of_not_addsUp ?_).mono fun _ => ChainError.ofMessage_of_withoutSum
    rfl

theorem failsOnly_dispatch : FailsOnly ofMessage (s.dispatch rules now m) := by
  unfold dispatch
  split <;> simp [failsOnly_execute]

/-- Whatever messages are run, none is refused for what is asked of a transaction. -/
theorem failsOnly_applyMessages {messages : List Message} :
    FailsOnly ofMessage (s.applyMessages rules now keys messages) := by
  induction messages generalizing s with
  | nil => simp [applyMessages]
  | cons m rest ih =>
    have allowed : FailsOnly ofMessage (checkAuthorization rules keys m s) :=
      failsOnly_checkLevels.mono fun _ => ChainError.ofMessage_of_withoutSum
    simp [applyMessages, applyMessage, allowed, failsOnly_dispatch, ih]

end

end ChainState

end ChainLab
