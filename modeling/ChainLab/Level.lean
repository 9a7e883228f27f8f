import Std.Data.ExtTreeSet

/-!
# Names and permission levels

Accounts, permissions and nodes are named by text, ordered by code point. A
level such as `alice@active` points at one named authority of one account.
-/

namespace ChainLab

abbrev AccountName := String

abbrev PermissionName := String

abbrev NodeName := String

namespace PermissionName

def owner : PermissionName := "owner"

def active : PermissionName := "active"

def recovery : PermissionName := "recovery"

end PermissionName

/-- One named authority of one account. -/
structure Level where
  actor : AccountName
  permission : PermissionName
  deriving DecidableEq

namespace Level

def active (actor : AccountName) : Level := ⟨actor, PermissionName.active⟩

def owner (actor : AccountName) : Level := ⟨actor, PermissionName.owner⟩

instance : ToString Level := ⟨fun level => s!"{level.actor}@{level.permission}"⟩

/-- Levels are ordered by actor, then by permission. -/
instance : Ord Level := ⟨compareLex (compareOn actor) (compareOn permission)⟩

instance : Std.TransOrd Level :=
  inferInstanceAs (Std.TransCmp (compareLex (compareOn actor) (compareOn permission)))

instance : Std.LawfulEqOrd Level where
  eq_of_compare {a b} h := by
    obtain ⟨ha, hp⟩ := compareLex_eq_eq.mp h
    have actors : a.actor = b.actor := Std.LawfulEqOrd.eq_of_compare ha
    have permissions : a.permission = b.permission := Std.LawfulEqOrd.eq_of_compare hp
    cases a; cases b
    cases actors; cases permissions
    rfl

end Level

abbrev LevelSet := Std.ExtTreeSet Level

end ChainLab
