import ChainLab.Proofs.Delegation
import ChainLab.Proofs.References

/-!
# Links in force

Which permission a message asks for is looked up in a table that messages write. Read off the
history instead, it is what the last link for the contract and the type required, unless that link
was taken away; failing that, what the last link for the whole contract required; failing that,
`active`. The history goes up to the message itself, so what an earlier message of the same
transaction linked is in force already.
-/

namespace ChainLab

open PermissionName (active)

namespace Deed

/-- The message links what the key is about to a permission of the account. -/
def Links (rules : Rules) (name : AccountName) (key : LinkKey) (requirement : PermissionName)
    (d : Deed) : Prop :=
  d.message.nativeAction? rules =
    some (.linkAuthority name key.contract key.messageType requirement)

def Unlinks (rules : Rules) (name : AccountName) (key : LinkKey) (d : Deed) : Prop :=
  d.message.nativeAction? rules = some (.unlinkAuthority name key.contract key.messageType)

end Deed

/-- The two look-ups behind what a message asks for. -/
theorem Account.minimumPermission_cases (a : Account) (contract : AccountName) (type : String) :
    a.links[(⟨contract, some type⟩ : LinkKey)]? = some (a.minimumPermission contract type) ∨
      a.links[(⟨contract, some type⟩ : LinkKey)]? = none ∧
        (a.links[(⟨contract, none⟩ : LinkKey)]? = some (a.minimumPermission contract type) ∨
          a.links[(⟨contract, none⟩ : LinkKey)]? = none ∧
            a.minimumPermission contract type = active) := by
  rw [minimumPermission]
  cases a.links[(⟨contract, some type⟩ : LinkKey)]? with
  | some requirement => exact .inl rfl
  | none => cases a.links[(⟨contract, none⟩ : LinkKey)]? <;> simp

namespace ChainState

/-- By the messages that were carried out, the last one first, the last link that the account made
under the key required the permission, and it was not taken away since. -/
inductive InForce (rules : Rules) (name : AccountName) (key : LinkKey)
    (requirement : PermissionName) : List Deed → Prop
  | linked {d : Deed} {earlier : List Deed} (links : d.Links rules name key requirement) :
      InForce rules name key requirement (d :: earlier)
  | kept {d : Deed} {earlier : List Deed} (inForce : InForce rules name key requirement earlier)
      (noLink : ∀ other, ¬ d.Links rules name key other)
      (noUnlink : ¬ d.Unlinks rules name key) :
      InForce rules name key requirement (d :: earlier)

/-- What the messages that were carried out make the account require for a message: what is in force
for the contract and the type, failing that, for the contract, failing that, `active`. -/
inductive Requires (rules : Rules) (name contract : AccountName) (type : String) (log : List Deed) :
    PermissionName → Prop
  | typed {requirement : PermissionName}
      (inForce : InForce rules name ⟨contract, some type⟩ requirement log) :
      Requires rules name contract type log requirement
  | untyped {requirement : PermissionName}
      (noneTyped : ∀ other, ¬ InForce rules name ⟨contract, some type⟩ other log)
      (inForce : InForce rules name ⟨contract, none⟩ requirement log) :
      Requires rules name contract type log requirement
  | unlinked
      (noneTyped : ∀ other, ¬ InForce rules name ⟨contract, some type⟩ other log)
      (noneUntyped : ∀ other, ¬ InForce rules name ⟨contract, none⟩ other log) :
      Requires rules name contract type log active

/-- What an account has linked under a key; nothing for an account that is not there. -/
def link? (s : ChainState) (name : AccountName) (key : LinkKey) : Option PermissionName :=
  (s.account? name).bind (·.links[key]?)

/-- The links of all accounts are those in force by the messages that were carried out. -/
def Linked (rules : Rules) (log : List Deed) (s : ChainState) : Prop :=
  ∀ name key requirement,
    s.link? name key = some requirement ↔ InForce rules name key requirement log

variable {rules : Rules} {now : Time} {keys : KeySet} {s s' t : ChainState} {m : Message}
  {name : AccountName} {key : LinkKey} {requirement other : PermissionName} {a : Account} {d : Deed}
  {log earlier : List Deed}

theorem link?_eq (found : s.account? name = some a) : s.link? name key = a.links[key]? := by
  rw [link?, found, Option.bind_some]

theorem inForce_of_links (links : d.Links rules name key other) :
    InForce rules name key requirement (d :: earlier) ↔ other = requirement := by
  constructor
  · intro h
    cases h with
    | linked links' => cases links.symm.trans links'; rfl
    | kept _ noLink _ => exact absurd links (noLink other)
  · rintro rfl
    exact .linked links

theorem not_inForce_of_unlinks (unlinks : d.Unlinks rules name key) :
    ¬ InForce rules name key requirement (d :: earlier) := by
  intro h
  cases h with
  | linked links => cases unlinks.symm.trans links
  | kept _ _ noUnlink => exact noUnlink unlinks

theorem inForce_of_neither (noLink : ∀ other, ¬ d.Links rules name key other)
    (noUnlink : ¬ d.Unlinks rules name key) :
    InForce rules name key requirement (d :: earlier) ↔
      InForce rules name key requirement earlier := by
  constructor
  · intro h
    cases h with
    | linked links => exact absurd links (noLink _)
    | kept inForce => exact inForce
  · intro h
    exact .kept h noLink noUnlink

section

variable [Crypto]

theorem link?_of_links (h : s.applyMessage rules now keys m = .ok s')
    (links : Deed.Links rules name key requirement ⟨now, m, s, s'⟩) :
    s'.link? name key = some requirement := by
  obtain ⟨-, -, a, -, -, rfl⟩ := linkAuthority_eq_ok.mp (execute_of_applyMessage h links)
  rw [link?_eq account?_setAccount_self]
  exact Std.ExtTreeMap.getElem?_insert_self

theorem link?_of_unlinks (h : s.applyMessage rules now keys m = .ok s')
    (unlinks : Deed.Unlinks rules name key ⟨now, m, s, s'⟩) : s'.link? name key = none := by
  obtain ⟨-, a, -, -, rfl⟩ := unlinkAuthority_eq_ok.mp (execute_of_applyMessage h unlinks)
  rw [link?_eq account?_setAccount_self]
  exact Std.ExtTreeMap.getElem?_erase_self

/-- Only a message that names the key touches what an account has linked under it. -/
theorem exists_links_of_applyMessage (h : s.applyMessage rules now keys m = .ok s')
    (found : s.account? name = some a)
    (noLink : ∀ other, ¬ Deed.Links rules name key other ⟨now, m, s, s'⟩)
    (noUnlink : ¬ Deed.Unlinks rules name key ⟨now, m, s, s'⟩) :
    ∃ a', s'.account? name = some a' ∧ a'.links[key]? = a.links[key]? := by
  let related (a a' : Account) : Prop := a'.links[key]? = a.links[key]?
  refine exists_related_of_applyMessage related (fun _ => rfl)
    (fun first later => later.trans first) ?_ h found
  intro action a a' carries edit
  cases edit with
  | @linked _ contract type requirement =>
    have apart : (⟨contract, type⟩ : LinkKey) ≠ key := by
      rintro rfl
      exact noLink requirement carries
    exact Std.ExtTreeMap.getElem?_insert.trans (if_neg (by simpa using apart))
  | @unlinked _ contract type =>
    have apart : (⟨contract, type⟩ : LinkKey) ≠ key := by
      rintro rfl
      exact noUnlink carries
    exact Std.ExtTreeMap.getElem?_erase.trans (if_neg (by simpa using apart))
  | _ => rfl

/-- A new account has linked nothing. -/
theorem link?_of_absent (h : s.applyMessage rules now keys m = .ok s')
    (absent : s.account? name = none) : s'.link? name key = none := by
  rcases became_applyMessage h with ⟨-, rfl⟩ | ⟨action, -, became⟩
  · rw [link?, absent, Option.bind_none]
  · have record := became name
    rw [absent] at record
    rw [link?]
    generalize s'.account? name = after at record
    cases record with
    | absent => rfl
    | opened => simp [Account.make]

theorem link?_of_neither (h : s.applyMessage rules now keys m = .ok s')
    (noLink : ∀ other, ¬ Deed.Links rules name key other ⟨now, m, s, s'⟩)
    (noUnlink : ¬ Deed.Unlinks rules name key ⟨now, m, s, s'⟩) :
    s'.link? name key = s.link? name key := by
  cases found : s.account? name with
  | none => rw [link?_of_absent h found, link?, found, Option.bind_none]
  | some a =>
    obtain ⟨a', found', same⟩ := exists_links_of_applyMessage h found noLink noUnlink
    rw [link?_eq found', link?_eq found, same]

/-- A message keeps the links in step with what was carried out. -/
theorem Linked.message (h : Linked rules log s) (done : s.applyMessage rules now keys m = .ok s') :
    Linked rules (⟨now, m, s, s'⟩ :: log) s' := by
  intro name key requirement
  by_cases linking : ∃ other, Deed.Links rules name key other ⟨now, m, s, s'⟩
  · obtain ⟨other, links⟩ := linking
    rw [link?_of_links done links, inForce_of_links links, Option.some.injEq]
  · by_cases unlinks : Deed.Unlinks rules name key ⟨now, m, s, s'⟩
    · rw [link?_of_unlinks done unlinks]
      exact iff_of_false (by simp) (not_inForce_of_unlinks unlinks)
    · have noLink := not_exists.mp linking
      rw [link?_of_neither done noLink unlinks, inForce_of_neither noLink unlinks]
      exact h name key requirement

theorem linked_genesis : Linked rules [] (genesis rules) := by
  intro name key requirement
  refine iff_of_false ?_ (fun inForce => nomatch inForce)
  by_cases h : rules.config.genesisAccount.name = name <;>
    simp [link?, account?, genesis, Account.make, h]

end

/-- What the table says is what the messages that were carried out require. -/
theorem Linked.requires (h : Linked rules log s) (found : s.account? name = some a)
    (contract : AccountName) (type : String) :
    Requires rules name contract type log (a.minimumPermission contract type) := by
  have inForce : ∀ {key requirement}, a.links[key]? = some requirement →
      InForce rules name key requirement log := by
    intro key requirement entered
    rw [← h, link?_eq found, entered]
  have free : ∀ {key : LinkKey}, a.links[key]? = none →
      ∀ other, ¬ InForce rules name key other log := by
    intro key absent other inForce
    rw [← h, link?_eq found, absent] at inForce
    cases inForce
  rcases a.minimumPermission_cases contract type with typed | ⟨noneTyped, untyped | ⟨none, least⟩⟩
  · exact .typed (inForce typed)
  · exact .untyped (free noneTyped) (inForce untyped)
  · rw [least]
    exact .unlinked (free noneTyped) (free none)

/-- No link outlives the permission it requires, and `active` is always there. -/
theorem minimumPermission_mem (trees : s.Trees) (referential : s.Referential rules)
    (found : s.account? name = some a) (contract : AccountName) (type : String) :
    a.minimumPermission contract type ∈ a.permissions := by
  have refers := referential.accounts name a found
  rcases a.minimumPermission_cases contract type with typed | ⟨-, untyped | ⟨-, least⟩⟩
  · exact (refers.linked _ _ typed).1
  · exact (refers.linked _ _ untyped).1
  · rw [least]
    exact (trees name a found).active_below.mem

/-- Every account requires for a message what is in force by the messages that were carried out, and
has that permission. -/
def Governed (rules : Rules) (log : List Deed) (s : ChainState) : Prop :=
  ∀ name a, s.account? name = some a → ∀ contract type,
    Requires rules name contract type log (a.minimumPermission contract type) ∧
      a.minimumPermission contract type ∈ a.permissions

/-- A message to the native contract that is about permissions or links. -/
def Manages (rules : Rules) (m : Message) : Prop :=
  m.contract = rules.config.nativeContract ∧
    (m.type = "updateauth" ∨ m.type = "deleteauth" ∨ m.type = "linkauth" ∨ m.type = "unlinkauth")

theorem managesAuthority_iff : managesAuthority rules m = true ↔ Manages rules m := by
  simp only [managesAuthority, Bool.and_eq_true, decide_eq_true_eq, Manages, Option.any_eq_true]
  refine and_congr_right fun _ => ⟨?_, ?_⟩
  · rintro ⟨kind, entered, manages⟩
    have named : kind.name = m.type := by
      rw [ActionKind.ofName?] at entered
      simpa using List.find?_some entered
    cases kind <;> simp [ActionKind.managesAuthority] at manages <;> simp [← named, ActionKind.name]
  · rintro (type | type | type | type) <;> rw [type] <;> exact ⟨_, rfl, rfl⟩

/-- When the message was checked, each level that it declares was at or above the permission that
the account required for it. -/
def Covered (d : Deed) : Prop :=
  ∀ level ∈ d.message.authorizations, ∃ a, d.before.account? level.actor = some a ∧
    a.Covers level.permission (a.minimumPermission d.message.contract d.message.type)

theorem covered_of_checkAuthorization (checked : checkAuthorization rules keys m s = .ok ())
    (asks : ¬ Manages rules m) : Covered ⟨now, m, s, s'⟩ := by
  intro level declared
  obtain ⟨a, found, -, covers, -⟩ :=
    checkLevel_eq_ok.mp (checkAuthorization_eq_ok.mp checked level declared)
  rcases covers with manages | covers
  · exact absurd (managesAuthority_iff.mp manages) asks
  · exact ⟨a, found, Account.covers_of_reaches covers⟩

/-- What holds of a state and of the messages that led to it. -/
structure Ruled (rules : Rules) (log : List Deed) (s : ChainState) : Prop where
  trees : s.Trees
  referential : s.Referential rules
  linked : Linked rules log s
  past : ∀ d earlier, d :: earlier <:+ log → Governed rules earlier d.before ∧
    (¬ Manages rules d.message → Covered d)

theorem Ruled.governed (h : Ruled rules log s) : Governed rules log s :=
  fun _ _ found contract type => ⟨h.linked.requires found contract type,
    minimumPermission_mem h.trees h.referential found contract type⟩

section

variable [Crypto]

theorem Ruled.message (h : Ruled rules log s) (done : s.applyMessage rules now keys m = .ok s') :
    Ruled rules (⟨now, m, s, s'⟩ :: log) s' where
  trees := invariant_trees.applyMessage h.trees done
  referential := (invariant_referential rules).applyMessage h.referential done
  linked := h.linked.message done
  past d earlier suffix := by
    rcases List.suffix_cons_iff.mp suffix with same | older
    · cases same
      exact ⟨h.governed, covered_of_checkAuthorization (applyMessage_eq_ok.mp done).1⟩
    · exact h.past d earlier older

theorem Course.ruled (course : Course rules log s) : Ruled rules log s :=
  course.induction
    ⟨trees_genesis, referential_genesis rules, linked_genesis, fun _ _ suffix => by simp at suffix⟩
    Ruled.message
    (fun digests h =>
      { h with referential := (invariant_referential rules).applied digests h.referential })
    fun header h =>
      { h with referential := (invariant_referential rules).advance header h.referential }

/-- Link rules in force. Whatever messages led to a state, an account requires for a message of a
type to a contract what its last link for both required, unless it was taken away; failing that,
its last link for the contract; failing that, `active`. It has that permission. The same is true
in front of every message on the way, by the messages before it; and unless the message is one of
the native contract about permissions or links, it declares no level but at or above what is
required then. -/
theorem minimumPermission_in_force (course : Course rules log s) :
    Governed rules log s ∧
      ∀ d earlier, d :: earlier <:+ log → Governed rules earlier d.before ∧
        (¬ Manages rules d.message → Covered d) :=
  ⟨course.ruled.governed, course.ruled.past⟩

end

section sample

attribute [local instance] checksum

/-- A permission is entered and linked to a contract, `active` to one type of its messages. That
link is taken away again, and a message of that type is declared by the permission. -/
def sampleLinks : List Message :=
  let asked := (∅ : LevelSet).insert (Level.active "init0")
  [sampleHiring, (Action.linkAuthority "init0" "init0" none "clerk").toMessage "eos" asked,
    (Action.linkAuthority "init0" "init0" (some "ping") active).toMessage "eos" asked,
    (Action.unlinkAuthority "init0" "init0" (some "ping")).toMessage "eos" asked]

def samplePing : Message := ⟨"init0", (∅ : LevelSet).insert ⟨"init0", "clerk"⟩, "ping", []⟩

def sampleLinking : SignedTransaction :=
  { sampleShop with
    transaction := { sampleShop.transaction with messages := sampleLinks ++ [samplePing] } }

/-- The message asks for what the contract is linked to, as nothing is linked to its type any
more. -/
theorem minimumPermission_in_force_sample :
    ∃ log s d earlier a, Course sampleRules log s ∧ log = d :: earlier ∧ d.message = samplePing ∧
      d.before.account? "init0" = some a ∧ a.minimumPermission "init0" "ping" = "clerk" ∧
      Requires sampleRules "init0" "init0" "ping" earlier "clerk" ∧ "clerk" ∈ a.permissions ∧
      a.Covers "clerk" "clerk" := by
  obtain ⟨s, applies⟩ :
      ∃ s, (genesis sampleRules).applyTransaction sampleRules .zero sampleLinking = .ok s :=
    exists_eq_ok_iff.mpr (by decide +kernel)
  obtain ⟨-, -, -, keys, verified, t, run, -⟩ := applyTransaction_eq_ok.mp applies
  have course := Course.genesis.transaction verified applies
  obtain ⟨u, first, last⟩ := applyMessages_append.mp run
  simp only [applyMessages, bind_eq_ok] at last
  obtain ⟨t', once, -⟩ := last
  have least : ((genesis sampleRules).applyMessages sampleRules .zero keys sampleLinks).map
      (fun u => (u.account? "init0").map (·.minimumPermission "init0" "ping")) =
        .ok (some "clerk") := by
    cases verified
    decide +kernel
  rw [first] at least
  obtain ⟨a, found, least⟩ := Option.map_eq_some_iff.mp (Except.ok.inj least)
  simp only [sampleLinking, record_concat first once] at course
  obtain ⟨governed, covered⟩ := (minimumPermission_in_force course).2 _ _ List.suffix_rfl
  obtain ⟨requires, there⟩ := governed "init0" a found "init0" "ping"
  have asks : ¬ Manages sampleRules samplePing := fun manages => absurd manages.2 (by decide)
  have declared : ⟨"init0", "clerk"⟩ ∈ samplePing.authorizations := by decide +kernel
  obtain ⟨a', found', covers⟩ := covered asks _ declared
  cases found.symm.trans found'
  rw [least] at requires there
  change a.Covers "clerk" (a.minimumPermission "init0" "ping") at covers
  rw [least] at covers
  exact ⟨_, s, _, _, a, course, rfl, rfl, found, least, requires, there, covers⟩

end sample

end ChainState

end ChainLab
