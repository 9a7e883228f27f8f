import ChainLab.Proofs.PermissionTree

/-!
# References lead somewhere

Accounts refer to producers, proxies, permissions and contracts, and producers to their owners.
Accounts and producers are entered under their own names and never leave. Permissions do leave, but
none that a link requires. So what is referred to was there when the reference was made, and is
there as long as the reference is.
-/

namespace ChainLab

/-- The record of an account carries the name it is stored under, and all that it refers to is
there: the producers it approves, its proxy, and what its links require and are about. -/
structure Account.Refers (rules : Rules) (s : ChainState) (name : AccountName) (a : Account) :
    Prop where
  named : a.name = name
  approved : ∀ producer ∈ a.approvedProducers, ∃ p, s.producer? producer = some p
  proxied : ∀ proxy, a.proxy = some proxy → proxy ≠ name ∧ ∃ b, s.account? proxy = some b
  linked : ∀ (link : LinkKey) (requirement : PermissionName), a.links[link]? = some requirement →
    requirement ∈ a.permissions ∧
      (link.contract = rules.config.nativeContract ∨ ∃ b, s.account? link.contract = some b)

namespace ChainState

/-- All references lead somewhere. -/
structure Referential (rules : Rules) (s : ChainState) : Prop where
  accounts : ∀ name a, s.account? name = some a → a.Refers rules s name
  producers : ∀ name p, s.producer? name = some p →
    p.owner = name ∧ ∃ a, s.account? name = some a

/-- Whoever is there stays. -/
structure Extends (s s' : ChainState) : Prop where
  account : ∀ {name a}, s.account? name = some a → ∃ a', s'.account? name = some a'
  producer : ∀ {name p}, s.producer? name = some p → ∃ p', s'.producer? name = some p'

variable {rules : Rules} {s s' t : ChainState} {name : AccountName} {a a' : Account} {p : Producer}

theorem producer?_setProducerEntry {other : AccountName} :
    (s.setProducerEntry name p).producer? other =
      if name = other then some p else s.producer? other := by
  simp [producer?, setProducerEntry, Std.ExtTreeMap.getElem?_insert]

theorem extends_setAccount : Extends s (s.setAccount name a) where
  account {other b} found := by
    rw [account?_setAccount]
    split
    · exact ⟨a, rfl⟩
    · exact ⟨b, found⟩
  producer found := ⟨_, found⟩

theorem extends_setProducerEntry : Extends s (s.setProducerEntry name p) where
  account found := ⟨_, found⟩
  producer {other q} found := by
    rw [producer?_setProducerEntry]
    split
    · exact ⟨p, rfl⟩
    · exact ⟨q, found⟩

end ChainState

open ChainState

namespace Account.Refers

variable {rules : Rules} {s s' : ChainState} {name : AccountName} {a : Account}

theorem mono (h : a.Refers rules s name) (more : Extends s s') : a.Refers rules s' name where
  named := h.named
  approved producer listed := by
    obtain ⟨p, found⟩ := h.approved producer listed
    exact more.producer found
  proxied proxy chosen := by
    obtain ⟨apart, b, found⟩ := h.proxied proxy chosen
    exact ⟨apart, more.account found⟩
  linked link requirement entered := by
    obtain ⟨there, about⟩ := h.linked link requirement entered
    exact ⟨there, about.imp_right fun ⟨_, found⟩ => more.account found⟩

/-- A fresh account refers to nothing. -/
theorem fresh (named : a.name = name) (approves : a.approvedProducers = ∅) (alone : a.proxy = none)
    (links : a.links = ∅) : a.Refers rules s name where
  named := named
  approved producer listed := by simp [approves] at listed
  proxied proxy chosen := by simp [alone] at chosen
  linked link requirement entered := by simp [links] at entered

theorem withProxy {proxy : AccountName} (h : a.Refers rules s name)
    (known : proxy = name ∨ ∃ b, s.account? proxy = some b) :
    Refers rules s name { a with proxy := if proxy = name then none else some proxy } where
  named := h.named
  approved := h.approved
  linked := h.linked
  proxied other chosen := by
    by_cases own : proxy = name
    · simp [own] at chosen
    · obtain rfl : proxy = other := by simpa [own] using chosen
      exact ⟨own, known.resolve_left own⟩

theorem withVote {producer : AccountName} (h : a.Refers rules s name)
    (known : ∃ p, s.producer? producer = some p) (approve : Bool) :
    Refers rules s name
      { a with
        approvedProducers :=
          if approve then a.approvedProducers.insert producer
          else a.approvedProducers.erase producer } where
  named := h.named
  proxied := h.proxied
  linked := h.linked
  approved other listed := by
    cases approve with
    | false =>
      have before : producer ≠ other ∧ other ∈ a.approvedProducers := by simpa using listed
      exact h.approved other before.2
    | true =>
      have either : producer = other ∨ other ∈ a.approvedProducers := by simpa using listed
      rcases either with rfl | before
      · exact known
      · exact h.approved other before

/-- What is linked may be changed. -/
theorem withPermission {permission : PermissionName} (p : Permission)
    (h : a.Refers rules s name) :
    Refers rules s name { a with permissions := a.permissions.insert permission p } where
  named := h.named
  approved := h.approved
  proxied := h.proxied
  linked link requirement entered := by
    obtain ⟨there, about⟩ := h.linked link requirement entered
    exact ⟨Std.ExtTreeMap.mem_insert.mpr (.inr there), about⟩

/-- What is linked may not be taken away. -/
theorem withoutPermission {permission : PermissionName} (h : a.Refers rules s name)
    (free : inUse a permission = false) :
    Refers rules s name { a with permissions := a.permissions.erase permission } where
  named := h.named
  approved := h.approved
  proxied := h.proxied
  linked link requirement entered := by
    obtain ⟨there, about⟩ := h.linked link requirement entered
    have apart : permission ≠ requirement := by
      rintro rfl
      simp only [inUse, Bool.or_eq_false_iff, List.any_eq_false] at free
      have listed := Std.ExtTreeMap.mem_toList_iff_getElem?_eq_some.mpr entered
      exact free.2 (link, permission) listed (by simp)
    exact ⟨Std.ExtTreeMap.mem_erase.mpr ⟨by simpa using apart, there⟩, about⟩

theorem withLink {contract : AccountName} {messageType : Option String}
    {requirement : PermissionName} (h : a.Refers rules s name)
    (there : requirement ∈ a.permissions)
    (about : contract = rules.config.nativeContract ∨ ∃ b, s.account? contract = some b) :
    Refers rules s name
      { a with links := a.links.insert ⟨contract, messageType⟩ requirement } where
  named := h.named
  approved := h.approved
  proxied := h.proxied
  linked link other entered := by
    rw [Std.ExtTreeMap.getElem?_insert] at entered
    split at entered
    next here =>
      cases entered
      obtain rfl := Std.LawfulEqOrd.eq_of_compare here
      exact ⟨there, about⟩
    next => exact h.linked link other entered

theorem withoutLink (link : LinkKey) (h : a.Refers rules s name) :
    Refers rules s name { a with links := a.links.erase link } where
  named := h.named
  approved := h.approved
  proxied := h.proxied
  linked other requirement entered := by
    rw [Std.ExtTreeMap.getElem?_erase] at entered
    split at entered
    · cases entered
    · exact h.linked other requirement entered

end Account.Refers

namespace ChainState.Referential

variable {rules : Rules} {s s' t : ChainState} {name : AccountName} {a a' : Account}

theorem setAccount (h : s.Referential rules) (refers : a.Refers rules s name) :
    (s.setAccount name a).Referential rules where
  accounts other b found := by
    apply Account.Refers.mono (s := s) ?_ extends_setAccount
    rw [account?_setAccount] at found
    split at found
    next here =>
      cases found
      exact here ▸ refers
    next => exact h.accounts other b found
  producers other p found := by
    obtain ⟨owned, b, there⟩ := h.producers other p found
    exact ⟨owned, extends_setAccount.account there⟩

/-- A record may be replaced by one that refers no further. -/
theorem update (h : s.Referential rules) (found : s.account? name = some a)
    (change : a.Refers rules s name → a'.Refers rules s name) :
    (s.setAccount name a').Referential rules :=
  h.setAccount (change (h.accounts name a found))

theorem setProducerEntry {p : Producer} (h : s.Referential rules) (owned : p.owner = name)
    (there : ∃ a, s.account? name = some a) : (s.setProducerEntry name p).Referential rules where
  accounts other a found := (h.accounts other a found).mono extends_setProducerEntry
  producers other q found := by
    rw [producer?_setProducerEntry] at found
    split at found
    next here =>
      cases found
      exact here ▸ ⟨owned, there⟩
    next => exact h.producers other q found

theorem debit {amount : Amount} (h : s.Referential rules) (paid : s.debit name amount = .ok t) :
    t.Referential rules := by
  obtain ⟨a, balance, found, -, rfl⟩ := debit_eq_ok.mp paid
  exact h.update found fun r => { r with }

variable [Crypto] {now : Time} {m : Message} {action : Action}

theorem execute (h : s.Referential rules) (done : s.execute rules now m action = .ok s') :
    s'.Referential rules := by
  cases action <;> simp [ChainState.execute, Action.kind, ActionKind.managesAuthority] at done
  case newAccount =>
    obtain ⟨-, -, -, -, -, t, paid, rfl⟩ := newAccount_eq_ok.mp done.2
    exact (h.debit paid).setAccount (.fresh rfl rfl rfl rfl)
  case transfer =>
    obtain ⟨-, t, paid, a, balance, found, -, rfl⟩ := transfer_eq_ok.mp done.2
    exact (h.debit paid).update found fun r => { r with }
  case lock =>
    obtain ⟨-, t, paid, a, staked, found, -, rfl⟩ := lock_eq_ok.mp done.2
    exact (h.debit paid).update found fun r => { r with }
  case unlock =>
    obtain ⟨a, _, _, found, -, -, rfl⟩ := unlock_eq_ok.mp done.2
    exact h.update found fun r => { r with }
  case claim =>
    obtain ⟨a, _, _, found, -, -, -, rfl⟩ := claim_eq_ok.mp done.2
    exact h.update found fun r => { r with }
  case setProxy =>
    obtain ⟨known, a, found, rfl⟩ := setProxy_eq_ok.mp done.2
    exact h.update found fun r => r.withProxy known
  case setProducer =>
    obtain ⟨there, -, rfl⟩ := setProducer_eq_ok.mp done.2
    exact h.setProducerEntry rfl there
  case updateProducer =>
    obtain ⟨p, found, rfl⟩ := updateProducer_eq_ok.mp done.2
    obtain ⟨owned, there⟩ := h.producers _ p found
    exact h.setProducerEntry owned there
  case approveProducer =>
    obtain ⟨known, a, found, rfl⟩ := approveProducer_eq_ok.mp done.2
    have entry := mem_iff_exists_getElem?.mp known
    exact h.update found fun r => r.withVote entry _
  case updateAuthority =>
    obtain ⟨-, a, above, found, -, -, -, rfl⟩ := updateAuthority_eq_ok.mp done
    exact h.update found fun r => r.withPermission _
  case deleteAuthority =>
    obtain ⟨-, -, a, _, found, -, free, -, rfl⟩ := deleteAuthority_eq_ok.mp done
    exact h.update found fun r => r.withoutPermission free
  case linkAuthority =>
    obtain ⟨-, about, a, found, there, rfl⟩ := linkAuthority_eq_ok.mp done
    exact h.update found fun r => r.withLink there about
  case unlinkAuthority =>
    obtain ⟨-, a, found, -, rfl⟩ := unlinkAuthority_eq_ok.mp done
    exact h.update found fun r => r.withoutLink _
  case setCode =>
    obtain ⟨a, found, rfl⟩ := setCode_eq_ok.mp done.2
    exact h.update found fun r => { r with }

end ChainState.Referential

namespace ChainState

variable [Crypto]

theorem invariant_referential (rules : Rules) : Invariant rules (Referential rules) where
  execute := Referential.execute
  applied _ h := ⟨fun name a found => { h.accounts name a found with }, h.producers⟩
  advance _ h := ⟨fun name a found => { h.accounts name a found with }, h.producers⟩

/-- The one account of the genesis state refers to nothing. -/
theorem referential_genesis (rules : Rules) : (genesis rules).Referential rules := by
  let unopened : ChainState := { genesis rules with accounts := ∅ }
  have nobody : unopened.Referential rules :=
    { accounts := fun name a found => by simp [unopened, account?] at found
      producers := fun name p found => by simp [unopened, genesis, producer?] at found }
  exact nobody.setAccount (.fresh rfl rfl rfl rfl)

end ChainState

namespace Node

variable [Crypto]

/-- Referential integrity: in every state that a run of a chain can reach, and in the head state
and the pending state of every node at any time, accounts and producers are stored under their own
names, and every reference leads somewhere: from a producer to its owner's account, from an account
to the producers it approves, to a proxy other than itself, to a permission of its own that a link
requires, and to the native contract or an account that the link is about. -/
theorem referential_run (rules : Rules) (changes : List ChainState.Change) (name : NodeName)
    (chainName : String) (config : ChainConfig) (requests : List Request) :
    ((ChainState.genesis rules).run rules changes).Referential rules ∧
      let rules : Rules := ⟨Crypto.hash chainName.toUTF8.toList, config⟩
      let n := (make name chainName config).run requests
      n.headState.Referential rules ∧ n.pendingState.Referential rules := by
  constructor
  · have kept := ChainState.invariant_referential rules
    exact kept.run (ChainState.referential_genesis rules) changes
  · intro rules n
    exact invariant_run (ChainState.invariant_referential rules)
      (ChainState.referential_genesis rules) requests

end Node

end ChainLab
