import ChainLab.Proofs.ActionEffects

/-!
# Rights have nothing to do with funds

Who may authorize which message is told by the permissions and the links of the accounts. Between
two states whose accounts differ in other ways only, the same messages are authorized, and what is
refused is refused for the same reason.
-/

namespace ChainLab

namespace Account

/-- The same permissions and the same links. -/
structure SameRights (a a' : Account) : Prop where
  permissions : a'.permissions = a.permissions
  links : a'.links = a.links

namespace SameRights

variable {a a' : Account}

theorem authority?_eq (h : a.SameRights a') : a'.authority? = a.authority? :=
  funext fun _ => congrArg (fun p => (p[_]?).map _) h.permissions

theorem parent?_eq (h : a.SameRights a') : a'.parent? = a.parent? :=
  funext fun _ => congrArg (fun p => (p[_]?).bind _) h.permissions

theorem satisfies_eq (h : a.SameRights a') : a'.satisfies = a.satisfies := by
  have reaches : ∀ declared bound above,
      a'.reaches declared bound above = a.reaches declared bound above := by
    intro declared bound
    induction bound with
    | zero => exact fun _ => rfl
    | succ bound ih =>
      intro above
      cases above with
      | none => rfl
      | some permission => simp only [reaches, h.parent?_eq, ih]
  funext declared required
  rw [satisfies, satisfies, reaches, h.permissions]

theorem minimumPermission_eq (h : a.SameRights a') :
    a'.minimumPermission = a.minimumPermission := by
  funext contract type
  rw [minimumPermission, minimumPermission, h.links]

end SameRights

end Account

namespace ChainState

/-- The same accounts with the same rights. -/
def SameRights (s t : ChainState) : Prop :=
  ∀ name, Option.Rel Account.SameRights (s.account? name) (t.account? name)

namespace SameRights

variable {rules : Rules} {keys : KeySet} {m : Message} {s t : ChainState}

theorem authority?_eq (h : s.SameRights t) : t.authority? = s.authority? := by
  funext level
  have account := h level.actor
  rw [authority?, authority?]
  generalize s.account? level.actor = before, t.account? level.actor = after at account
  cases account with
  | none => rfl
  | some same => simp only [Option.bind_some, same.authority?_eq]

theorem levels_eq (h : s.SameRights t) : t.levels = s.levels := by
  have spelled : ∀ u : ChainState, u.levels =
      (u.accounts.map fun _ a => a.permissions).toList.flatMap
        fun (name, permissions) => permissions.keys.map (Level.mk name) := by
    intro u
    simp only [levels, Std.ExtTreeMap.toList_map, List.flatMap_map]
  have permissions : (t.accounts.map fun _ a => a.permissions) =
      s.accounts.map fun _ a => a.permissions := by
    refine Std.ExtTreeMap.ext_getElem? fun name => ?_
    have account := h name
    rw [Std.ExtTreeMap.getElem?_map, Std.ExtTreeMap.getElem?_map]
    change ((t.account? name).map _) = ((s.account? name).map _)
    generalize s.account? name = before, t.account? name = after at account
    cases account with
    | none => rfl
    | some same => exact congrArg some same.permissions
  rw [spelled, spelled, permissions]

theorem resolver_eq (h : s.SameRights t) : t.resolver = s.resolver := by
  simp only [resolver, h.authority?_eq, h.levels_eq]

theorem checkLevel_eq (h : s.SameRights t) (level : Level) :
    checkLevel rules keys m t level = checkLevel rules keys m s level := by
  have account := h level.actor
  rw [checkLevel, checkLevel, requireAccount, requireAccount, h.resolver_eq]
  generalize s.account? level.actor = before, t.account? level.actor = after at account
  cases account with
  | none => rfl
  | some same =>
    simp only [bind, Except.bind, same.permissions, same.satisfies_eq, same.minimumPermission_eq]

/-- The same signatures authorize the same messages, and fall short for the same reason. -/
theorem checkAuthorization_eq (h : s.SameRights t) :
    checkAuthorization rules keys m t = checkAuthorization rules keys m s := by
  have each : ∀ levels, checkLevels rules keys m t levels = checkLevels rules keys m s levels := by
    intro levels
    induction levels with
    | nil => rfl
    | cons level rest ih => rw [checkLevels, checkLevels, h.checkLevel_eq, ih]
  exact each _

end SameRights

end ChainState

end ChainLab
