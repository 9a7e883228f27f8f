import ChainLab.Proofs.ActionEffects
import Mathlib.Logic.Relation

/-!
# What an action does to one account

An action edits the records of accounts one after the other: the account that pays, then the
one that is paid, and they may be the same. Each kind of edit is listed once, with the
account whose record it changes. Whatever no edit of an action changes, the action leaves
alone in every account.
-/

namespace ChainLab

/-- One change that an action makes to the record of one account. -/
inductive Account.Edit (rules : Rules) (now : Time) (a : Account) :
    Action → AccountName → Account → Prop
  | deposited {creator name : AccountName} {owner active recovery : Authority}
      {deposit balance : Amount} (less : a.balance.sub? deposit = some balance) :
      Edit rules now a (.newAccount creator name owner active recovery deposit) creator
        { a with balance }
  | paid {sender recipient : AccountName} {amount balance : Amount} {memo : String}
      (less : a.balance.sub? amount = some balance) :
      Edit rules now a (.transfer sender recipient amount memo) sender { a with balance }
  | received {sender recipient : AccountName} {amount balance : Amount} {memo : String}
      (more : a.balance.add? amount = some balance) :
      Edit rules now a (.transfer sender recipient amount memo) recipient { a with balance }
  | locked {sender recipient : AccountName} {amount balance : Amount}
      (less : a.balance.sub? amount = some balance) :
      Edit rules now a (.lock sender recipient amount) sender { a with balance }
  | staked {sender recipient : AccountName} {amount staked : Amount}
      (more : a.staked.add? amount = some staked) :
      Edit rules now a (.lock sender recipient amount) recipient { a with staked }
  | unlocked {name : AccountName} {amount total staked : Amount}
      (sum : a.staked.add? a.unstaking = some total) (rest : total.sub? amount = some staked) :
      Edit rules now a (.unlock name amount) name
        { a with staked, unstaking := amount, unstakeRequestedAt := now }
  | claimed {name : AccountName} {amount unstaking balance : Amount}
      (less : a.unstaking.sub? amount = some unstaking)
      (mature : rules.config.unstakeDelay ≤ now.since a.unstakeRequestedAt)
      (more : a.balance.add? amount = some balance) :
      Edit rules now a (.claim name amount) name { a with unstaking, balance }
  | delegated {stakeholder proxy : AccountName} (chosen : Option AccountName) :
      Edit rules now a (.setProxy stakeholder proxy) stakeholder { a with proxy := chosen }
  | voted {voter producer : AccountName} {approve : Bool}
      (approvedProducers : Std.ExtTreeSet AccountName) :
      Edit rules now a (.approveProducer voter producer approve) voter
        { a with approvedProducers }
  | authorized {name : AccountName} {permission parent : PermissionName} {authority : Authority}
      (above : Option PermissionName) :
      Edit rules now a (.updateAuthority name permission parent authority) name
        { a with permissions := a.permissions.insert permission ⟨above, authority⟩ }
  | dismissed {name : AccountName} {permission : PermissionName} :
      Edit rules now a (.deleteAuthority name permission) name
        { a with permissions := a.permissions.erase permission }
  | linked {name contract : AccountName} {type : Option String} {requirement : PermissionName} :
      Edit rules now a (.linkAuthority name contract type requirement) name
        { a with links := a.links.insert ⟨contract, type⟩ requirement }
  | unlinked {name contract : AccountName} {type : Option String} :
      Edit rules now a (.unlinkAuthority name contract type) name
        { a with links := a.links.erase ⟨contract, type⟩ }
  | coded {name : AccountName} {code : List UInt8} (codeHash : Option Digest) :
      Edit rules now a (.setCode name code) name { a with codeHash }

namespace ChainState

/-- The edits that an action makes to the record of an account, one after the other. -/
def Edits (rules : Rules) (now : Time) (action : Action) (name : AccountName) :
    Account → Account → Prop :=
  Relation.ReflTransGen fun a a' => a.Edit rules now action name a'

/-- The same accounts are there, each with a record that the action has edited. -/
structure Edited (rules : Rules) (now : Time) (action : Action) (s s' : ChainState) : Prop where
  edits : ∀ name a, s.account? name = some a →
    ∃ a', s'.account? name = some a' ∧ Edits rules now action name a a'
  absent : ∀ name, s.account? name = none → s'.account? name = none

/-- What an action makes of the record under a name. -/
inductive Became (rules : Rules) (now : Time) (action : Action) (name : AccountName) :
    Option Account → Option Account → Prop
  | absent : Became rules now action name none none
  | opened {creator : AccountName} {owner active recovery : Authority} {deposit : Amount}
      (opens : action = .newAccount creator name owner active recovery deposit) :
      Became rules now action name none
        (some { Account.make name owner active deposit with
          permissions := (Account.make name owner active deposit).permissions.insert
            PermissionName.recovery ⟨some PermissionName.owner, recovery⟩ })
  | edited {a a' : Account} (edits : Edits rules now action name a a') :
      Became rules now action name (some a) (some a')

variable {rules : Rules} {now : Time} {action : Action} {s s' t : ChainState}
  {name other : AccountName} {a a' : Account}

namespace Edited

theorem refl : Edited rules now action s s where
  edits _ a found := ⟨a, found, .refl⟩
  absent _ h := h

/-- One more edit of a record that is there. -/
theorem setAccount (h : Edited rules now action s t) (found : t.account? name = some a)
    (edit : a.Edit rules now action name a') :
    Edited rules now action s (t.setAccount name a') where
  edits other b before := by
    obtain ⟨b', after, edits⟩ := h.edits other b before
    by_cases same : name = other
    · subst same
      cases found.symm.trans after
      exact ⟨a', account?_setAccount_self, edits.tail edit⟩
    · exact ⟨b', (account?_setAccount_of_ne same).trans after, edits⟩
  absent other free := by
    have before := h.absent other free
    by_cases same : name = other
    · subst same
      cases found.symm.trans before
    · rwa [account?_setAccount_of_ne same]

theorem debit {amount : Amount} (h : Edited rules now action s t)
    (paid : t.debit name amount = .ok s')
    (edit : ∀ {a : Account} {balance : Amount}, a.balance.sub? amount = some balance →
      a.Edit rules now action name { a with balance }) : Edited rules now action s s' := by
  obtain ⟨a, balance, found, less, rfl⟩ := debit_eq_ok.mp paid
  exact h.setAccount found (edit less)

theorem became (h : Edited rules now action s t) (name : AccountName) :
    Became rules now action name (s.account? name) (t.account? name) := by
  cases before : s.account? name with
  | none =>
    rw [h.absent name before]
    exact .absent
  | some a =>
    obtain ⟨a', after, edits⟩ := h.edits name a before
    rw [after]
    exact .edited edits

end Edited

theorem became_newAccount {creator fresh : AccountName} {owner active recovery : Authority}
    {deposit : Amount} (h : s.newAccount creator fresh owner active recovery deposit = .ok s') :
    Became rules now (.newAccount creator fresh owner active recovery deposit) name
      (s.account? name) (s'.account? name) := by
  obtain ⟨-, free, -, -, -, t, paid, rfl⟩ := newAccount_eq_ok.mp h
  by_cases same : fresh = name
  · subst same
    rw [account?_setAccount_self, free]
    exact .opened rfl
  · rw [account?_setAccount_of_ne same]
    exact (Edited.refl.debit paid .deposited).became name

variable [Crypto]

/-- What an action does to the record under any name. -/
theorem became_execute {m : Message} (h : s.execute rules now m action = .ok s')
    (name : AccountName) :
    Became rules now action name (s.account? name) (s'.account? name) := by
  cases action <;>
    simp only [execute, Action.kind, ActionKind.managesAuthority, Bool.not_true, Bool.not_false,
      Bool.false_eq_true, if_false, if_true, bind_eq_ok, exists_unit] at h
  case newAccount => exact became_newAccount h.2
  case transfer =>
    obtain ⟨-, t, paid, a, balance, found, more, rfl⟩ := transfer_eq_ok.mp h.2
    exact ((Edited.refl.debit paid .paid).setAccount found (.received more)).became name
  case lock =>
    obtain ⟨-, t, paid, a, staked, found, more, rfl⟩ := lock_eq_ok.mp h.2
    exact ((Edited.refl.debit paid .locked).setAccount found (.staked more)).became name
  case unlock =>
    obtain ⟨a, _, _, found, sum, rest, rfl⟩ := unlock_eq_ok.mp h.2
    exact (Edited.refl.setAccount found (.unlocked sum rest)).became name
  case claim =>
    obtain ⟨a, _, _, found, less, mature, more, rfl⟩ := claim_eq_ok.mp h.2
    exact (Edited.refl.setAccount found (.claimed less mature more)).became name
  case setProxy =>
    obtain ⟨-, a, found, rfl⟩ := setProxy_eq_ok.mp h.2
    exact (Edited.refl.setAccount found (.delegated _)).became name
  case setProducer =>
    obtain ⟨-, -, rfl⟩ := setProducer_eq_ok.mp h.2
    exact Edited.refl.became name
  case updateProducer =>
    obtain ⟨p, -, rfl⟩ := updateProducer_eq_ok.mp h.2
    exact Edited.refl.became name
  case approveProducer =>
    obtain ⟨-, a, found, rfl⟩ := approveProducer_eq_ok.mp h.2
    exact (Edited.refl.setAccount found (.voted _)).became name
  case updateAuthority =>
    obtain ⟨-, a, above, found, -, -, -, rfl⟩ := updateAuthority_eq_ok.mp h
    exact (Edited.refl.setAccount found (.authorized above)).became name
  case deleteAuthority =>
    obtain ⟨-, -, a, _, found, -, -, -, rfl⟩ := deleteAuthority_eq_ok.mp h
    exact (Edited.refl.setAccount found .dismissed).became name
  case linkAuthority =>
    obtain ⟨-, -, a, found, -, rfl⟩ := linkAuthority_eq_ok.mp h
    exact (Edited.refl.setAccount found .linked).became name
  case unlinkAuthority =>
    obtain ⟨-, a, found, -, rfl⟩ := unlinkAuthority_eq_ok.mp h
    exact (Edited.refl.setAccount found .unlinked).became name
  case setCode =>
    obtain ⟨a, found, rfl⟩ := setCode_eq_ok.mp h.2
    exact (Edited.refl.setAccount found (.coded _)).became name

/-- What a message that carries an action does, it does as this action. -/
theorem execute_of_applyMessage {keys : KeySet} {m : Message}
    (h : s.applyMessage rules now keys m = .ok s')
    (carries : m.nativeAction? rules = some action) : s.execute rules now m action = .ok s' := by
  rcases dispatch_eq_ok.mp (applyMessage_eq_ok.mp h).2 with ⟨foreign, -⟩ | ⟨action', carries', h⟩
  · simp [Message.nativeAction?, foreign] at carries
  · cases carries.symm.trans carries'
    exact h

/-- A message to another contract leaves everything alone; one to the native contract does
what its action does. -/
theorem became_applyMessage {keys : KeySet} {m : Message}
    (h : s.applyMessage rules now keys m = .ok s') :
    (m.nativeAction? rules = none ∧ s' = s) ∨
      ∃ action, m.nativeAction? rules = some action ∧
        ∀ name, Became rules now action name (s.account? name) (s'.account? name) := by
  have done := (applyMessage_eq_ok.mp h).2
  rcases dispatch_eq_ok.mp done with ⟨foreign, -, same⟩ | ⟨action, carries, h⟩
  · left
    exact ⟨by simp [Message.nativeAction?, foreign], same⟩
  · right
    exact ⟨action, carries, became_execute h⟩

/-- An account stays where it is under every message. If each edit of the message's action
leaves its record related, in a way that passes along edits, then so does the message. -/
theorem exists_related_of_applyMessage {keys : KeySet} {m : Message}
    (related : Account → Account → Prop) (refl : ∀ a, related a a)
    (trans : ∀ {a b c}, related a b → related b c → related a c)
    (edit : ∀ {action a a'}, m.nativeAction? rules = some action →
      a.Edit rules now action name a' → related a a')
    (h : s.applyMessage rules now keys m = .ok s') (found : s.account? name = some a) :
    ∃ a', s'.account? name = some a' ∧ related a a' := by
  rcases became_applyMessage h with ⟨-, rfl⟩ | ⟨action, carries, became⟩
  · exact ⟨a, found, refl a⟩
  · have record := became name
    rw [found] at record
    generalize s'.account? name = after at record
    cases record with
    | @edited _ a' edits =>
      refine ⟨a', rfl, ?_⟩
      induction edits with
      | refl => exact refl a
      | tail _ last ih => exact trans ih (edit carries last)

end ChainState

end ChainLab
