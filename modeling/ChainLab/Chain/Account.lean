import ChainLab.Authority
import ChainLab.Config

/-!
# Accounts

The permissions of an account form a tree under `owner`. Funds are liquid,
staked, or on their way back from stake.
-/

namespace ChainLab

/-- A named authority and the permission it hangs under; only `owner` has no parent. -/
structure Permission where
  parent : Option PermissionName
  authority : Authority
  deriving DecidableEq

/-- What a permission link is about: messages of one type to a contract, or of any type. -/
structure LinkKey where
  contract : AccountName
  messageType : Option String
  deriving DecidableEq

namespace LinkKey

/-- By contract, then by type, with "any type" in front. -/
instance : Ord LinkKey := ⟨compareLex (compareOn contract) (compareOn messageType)⟩

instance : Std.TransOrd LinkKey :=
  inferInstanceAs (Std.TransCmp (compareLex (compareOn contract) (compareOn messageType)))

instance : Std.LawfulEqOrd LinkKey where
  eq_of_compare {a b} h := by
    obtain ⟨hc, ht⟩ := compareLex_eq_eq.mp h
    have contracts : a.contract = b.contract := Std.LawfulEqOrd.eq_of_compare hc
    have types : a.messageType = b.messageType := Std.LawfulEqOrd.eq_of_compare ht
    cases a; cases b
    cases contracts; cases types
    rfl

end LinkKey

structure Account where
  name : AccountName
  permissions : Std.ExtTreeMap PermissionName Permission
  balance : Amount
  staked : Amount
  unstaking : Amount
  unstakeRequestedAt : Time
  proxy : Option AccountName
  approvedProducers : Std.ExtTreeSet AccountName
  links : Std.ExtTreeMap LinkKey PermissionName
  codeHash : Option Digest
  deriving DecidableEq

namespace Account

/-- A fresh account with the two permissions that every account has. -/
def make (name : AccountName) (owner active : Authority) (balance : Amount) : Account where
  name := name
  permissions :=
    let root : Std.ExtTreeMap PermissionName Permission := ∅
    (root.insert PermissionName.owner ⟨none, owner⟩).insert
      PermissionName.active ⟨some PermissionName.owner, active⟩
  balance := balance
  staked := .zero
  unstaking := .zero
  unstakeRequestedAt := .zero
  proxy := none
  approvedProducers := ∅
  links := ∅
  codeHash := none

def authority? (a : Account) (permission : PermissionName) : Option Authority :=
  (a.permissions[permission]?).map (·.authority)

def parent? (a : Account) (permission : PermissionName) : Option PermissionName :=
  (a.permissions[permission]?).bind (·.parent)

/-- Whether `declared` is met within `bound` steps up from a permission. -/
def reaches (a : Account) (declared : PermissionName) : (bound : Nat) → Option PermissionName → Bool
  | 0, _ => false
  | _ + 1, none => false
  | bound + 1, some permission =>
    permission = declared || a.reaches declared bound (a.parent? permission)

/-- Whether `declared` is `required` or one of its ancestors. -/
def satisfies (a : Account) (declared required : PermissionName) : Bool :=
  a.reaches declared (a.permissions.size + 1) (some required)

/-- The least permission that may authorize a message. -/
def minimumPermission (a : Account) (contract : AccountName) (messageType : String) :
    PermissionName :=
  match a.links[(⟨contract, some messageType⟩ : LinkKey)]? with
  | some requirement => requirement
  | none => (a.links[(⟨contract, none⟩ : LinkKey)]?).getD PermissionName.active

end Account

structure Producer where
  owner : AccountName
  signingKey : PublicKey
  configVote : ProducerConfig
  deriving DecidableEq

end ChainLab
