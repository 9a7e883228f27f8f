import ChainLab.Proofs.Invariant
import ChainLab.Proofs.MapSum
import Mathlib.Data.List.Perm.Subperm
import Mathlib.Data.List.Nodup

/-!
# The permissions of an account form a tree

Whoever updates an authority may enter a permission anywhere or move one that others hang
under already. The move is refused if the new parent hangs under the permission, which
the bounded walk of `Account.satisfies` finds out: the way up from a permission repeats
none, so it is no longer than there are permissions. Off the permission that is moved no way
up changes, so every permission still gets to `owner`.
-/

namespace ChainLab

open PermissionName (owner active)

abbrev PermissionMap := Std.ExtTreeMap PermissionName Permission

namespace PermissionMap

/-- The permission is there, and hangs under `parent` or under none. -/
def Hangs (permissions : PermissionMap) (name : PermissionName) (parent : Option PermissionName) :
    Prop :=
  ∃ p, permissions[name]? = some p ∧ p.parent = parent

/-- The way up from a permission to `owner`, which has no parent. -/
inductive Climb (permissions : PermissionMap) : PermissionName → List PermissionName → Prop
  | top : permissions.Hangs owner none → Climb permissions owner [owner]
  | up {name parent : PermissionName} {path : List PermissionName} :
    permissions.Hangs name (some parent) → Climb permissions parent path →
      Climb permissions name (name :: path)

/-- All permissions form a tree under `owner`, with `active` right below it, and every
authority asks for something. -/
structure IsTree (permissions : PermissionMap) : Prop where
  owner_top : permissions.Hangs owner none
  only_owner : ∀ name, permissions.Hangs name none → name = owner
  active_below : permissions.Hangs active (some owner)
  parent_mem : ∀ name ∈ permissions, name ≠ owner →
    ∃ parent ∈ permissions, permissions.Hangs name (some parent)
  climb : ∀ name ∈ permissions, ∃ path, permissions.Climb name path ∧ path.Nodup
  threshold_pos : ∀ (name : PermissionName) (p : Permission),
    permissions[name]? = some p → 0 < p.authority.threshold

variable {permissions permissions' : PermissionMap} {name parent : PermissionName}
  {above above' : Option PermissionName} {path path' : List PermissionName} {p : Permission}

theorem Hangs.unique (h : permissions.Hangs name above) (h' : permissions.Hangs name above') :
    above = above' := by
  obtain ⟨p, found, rfl⟩ := h
  obtain ⟨q, found', rfl⟩ := h'
  cases found.symm.trans found'
  rfl

theorem Hangs.mem (h : permissions.Hangs name above) : name ∈ permissions := by
  obtain ⟨p, found, -⟩ := h
  exact mem_iff_exists_getElem?.mpr ⟨p, found⟩

theorem hangs_insert_self : Hangs (permissions.insert name p) name p.parent :=
  ⟨p, by simp, rfl⟩

/-- Entering a permission leaves the others where they are. -/
theorem Hangs.insert {other : PermissionName} (apart : name ≠ other)
    (h : permissions.Hangs other above) : Hangs (permissions.insert name p) other above := by
  obtain ⟨q, found, same⟩ := h
  refine ⟨q, ?_, same⟩
  rw [Std.ExtTreeMap.getElem?_insert]
  simpa [apart] using found

theorem Hangs.erase {other : PermissionName} (apart : name ≠ other)
    (h : permissions.Hangs other above) : Hangs (permissions.erase name) other above := by
  obtain ⟨q, found, same⟩ := h
  refine ⟨q, ?_, same⟩
  rw [Std.ExtTreeMap.getElem?_erase]
  simpa [apart] using found

namespace Climb

theorem mem (h : permissions.Climb name path) : name ∈ permissions := by
  cases h with
  | top hangs => exact hangs.mem
  | up hangs _ => exact hangs.mem

/-- A permission leaves no choice of a way up. -/
theorem unique (h : permissions.Climb name path) (h' : permissions.Climb name path') :
    path = path' := by
  induction h generalizing path' with
  | top hangs =>
    cases h' with
    | top => rfl
    | up hangs' => cases hangs.unique hangs'
  | up hangs _ ih =>
    cases h' with
    | top hangs' => cases hangs.unique hangs'
    | up hangs' climb =>
      cases hangs.unique hangs'
      rw [ih climb]

/-- Whoever is passed on the way up climbs a part of it. -/
theorem of_mem {passed : PermissionName} (h : permissions.Climb name path)
    (mem : passed ∈ path) : ∃ rest, permissions.Climb passed rest ∧ rest <:+ path := by
  induction h with
  | top hangs =>
    cases List.mem_singleton.mp mem
    exact ⟨[owner], .top hangs, List.suffix_rfl⟩
  | @up name parent path hangs climb ih =>
    rcases List.mem_cons.mp mem with rfl | higher
    · exact ⟨_, .up hangs climb, List.suffix_rfl⟩
    · obtain ⟨rest, part, suffix⟩ := ih higher
      exact ⟨rest, part, suffix.trans (List.suffix_cons name path)⟩

/-- The way up never comes back to a permission: from there on it would have to be as
long as the whole. -/
theorem nodup (h : permissions.Climb name path) : path.Nodup := by
  induction h with
  | top => exact List.nodup_singleton owner
  | @up name parent path hangs climb ih =>
    refine List.nodup_cons.mpr ⟨?_, ih⟩
    intro again
    obtain ⟨rest, part, suffix⟩ := climb.of_mem again
    have whole := Climb.up hangs climb
    have lengths := congrArg List.length (part.unique whole)
    have shorter := suffix.length_le
    rw [List.length_cons] at lengths
    omega

/-- The way up has no more permissions than there are. -/
theorem length_le (h : permissions.Climb name path) : path.length ≤ permissions.size := by
  have within : path ⊆ permissions.keys := by
    intro passed mem
    obtain ⟨rest, part, -⟩ := h.of_mem mem
    exact Std.ExtTreeMap.mem_keys.mpr part.mem
  simpa using (List.subperm_of_subset h.nodup within).length_le

/-- A way up that stays on permissions that hang as before is still one. -/
theorem carry (h : permissions.Climb name path)
    (same : ∀ passed ∈ path, ∀ above, permissions.Hangs passed above →
      permissions'.Hangs passed above) : permissions'.Climb name path := by
  induction h with
  | top hangs => exact .top (same owner (List.mem_singleton_self owner) none hangs)
  | @up name parent path hangs _ ih =>
    apply Climb.up (same name List.mem_cons_self _ hangs)
    apply ih
    intro passed mem
    exact same passed (List.mem_cons_of_mem name mem)

/-- If only one permission hangs anew and climbs to the top, whoever passed it does. -/
theorem redirect {moved : PermissionName} (h : permissions.Climb name path)
    (same : ∀ other, moved ≠ other → ∀ above, permissions.Hangs other above →
      permissions'.Hangs other above)
    (again : ∃ path, permissions'.Climb moved path) : ∃ path, permissions'.Climb name path := by
  induction h with
  | top hangs =>
    by_cases here : moved = owner
    · rw [← here]
      exact again
    · exact ⟨[owner], .top (same owner here none hangs)⟩
  | @up name parent path hangs _ ih =>
    by_cases here : moved = name
    · rw [← here]
      exact again
    · obtain ⟨rest, climb⟩ := ih
      exact ⟨name :: rest, .up (same name here _ hangs) climb⟩

/-- Nobody passes a permission that nothing hangs under. -/
theorem not_mem_of_leaf {leaf : PermissionName} (h : permissions.Climb name path)
    (bare : ∀ other, ¬ permissions.Hangs other (some leaf)) (apart : leaf ≠ name) :
    leaf ∉ path := by
  induction h with
  | top => simpa using apart
  | @up name parent path hangs _ ih =>
    have below : leaf ≠ parent := by
      rintro rfl
      exact bare name hangs
    intro mem
    rcases List.mem_cons.mp mem with here | higher
    · exact apart here
    · exact ih below higher

end Climb

/-- It takes no more to be a tree than to get to `owner` from everywhere. -/
theorem isTree_of_climb (top : permissions.Hangs owner none)
    (below : permissions.Hangs active (some owner))
    (climb : ∀ name ∈ permissions, ∃ path, permissions.Climb name path)
    (positive : ∀ (name : PermissionName) (p : Permission),
      permissions[name]? = some p → 0 < p.authority.threshold) :
    permissions.IsTree where
  owner_top := top
  only_owner name hangs := by
    obtain ⟨path, way⟩ := climb name hangs.mem
    cases way with
    | top => rfl
    | up hangs' _ => cases hangs.unique hangs'
  active_below := below
  parent_mem name mem apart := by
    obtain ⟨path, way⟩ := climb name mem
    cases way with
    | top => exact absurd rfl apart
    | up hangs higher => exact ⟨_, higher.mem, hangs⟩
  climb name mem := by
    obtain ⟨path, way⟩ := climb name mem
    exact ⟨path, way, way.nodup⟩
  threshold_pos := positive

namespace IsTree

/-- A permission may be entered anew, or anywhere off its own subtree if it is there. Only
`owner` is entered at the top, and `active` right below it. -/
theorem insert (h : permissions.IsTree) (positive : 0 < p.authority.threshold)
    (second : name = active → p.parent = some owner)
    (placed : (name = owner ∧ p.parent = none) ∨
      (name ≠ owner ∧ ∃ parent path, p.parent = some parent ∧
        permissions.Climb parent path ∧ name ∉ path)) :
    IsTree (permissions.insert name p) := by
  have others : ∀ other, name ≠ other → ∀ above, permissions.Hangs other above →
      Hangs (permissions.insert name p) other above :=
    fun other apart above hangs => hangs.insert apart
  have self : Hangs (permissions.insert name p) name p.parent := hangs_insert_self
  have again : ∃ path, Climb (permissions.insert name p) name path := by
    rcases placed with ⟨rfl, free⟩ | ⟨-, parent, path, below, way, off⟩
    · rw [free] at self
      exact ⟨[owner], .top self⟩
    · rw [below] at self
      refine ⟨name :: path, .up self (way.carry ?_)⟩
      intro passed mem above hangs
      apply hangs.insert
      rintro rfl
      exact off mem
  apply isTree_of_climb
  · rcases placed with ⟨rfl, free⟩ | ⟨apart, -⟩
    · rw [free] at self
      exact self
    · exact others owner apart none h.owner_top
  · by_cases here : name = active
    · rw [second here, here] at self
      rw [here]
      exact self
    · exact others active here (some owner) h.active_below
  · intro other mem
    by_cases here : name = other
    · rw [← here]
      exact again
    · have before : other ∈ permissions := by simpa [here] using mem
      obtain ⟨path, way, -⟩ := h.climb other before
      exact way.redirect others again
  · intro other q found
    rw [Std.ExtTreeMap.getElem?_insert] at found
    by_cases here : name = other
    · simp only [here, Std.ReflCmp.compare_self, if_true, Option.some.injEq] at found
      rw [← found]
      exact positive
    · have before : permissions[other]? = some q := by simpa [here] using found
      exact h.threshold_pos other q before

/-- A permission that nothing hangs under may be taken out, unless it is one of the two
that every account has. -/
theorem erase (h : permissions.IsTree) (notOwner : name ≠ owner) (notActive : name ≠ active)
    (bare : ∀ other, ¬ permissions.Hangs other (some name)) :
    IsTree (permissions.erase name) := by
  apply isTree_of_climb
  · exact h.owner_top.erase notOwner
  · exact Hangs.erase notActive h.active_below
  · intro other mem
    obtain ⟨apart, before⟩ : name ≠ other ∧ other ∈ permissions := by
      simpa using mem
    obtain ⟨path, way, -⟩ := h.climb other before
    have off := way.not_mem_of_leaf bare apart
    refine ⟨path, way.carry ?_⟩
    intro passed mem above hangs
    apply hangs.erase
    rintro rfl
    exact off mem
  · intro other q found
    rw [Std.ExtTreeMap.getElem?_erase] at found
    by_cases here : name = other
    · simp [here] at found
    · have before : permissions[other]? = some q := by simpa [here] using found
      exact h.threshold_pos other q before

end IsTree

end PermissionMap

open PermissionMap

namespace Account

variable {a : Account} {name declared : PermissionName} {path : List PermissionName}

/-- The walk goes the whole way up if its bound allows it. -/
theorem reaches_of_climb (way : Climb a.permissions name path) (mem : declared ∈ path)
    {bound : Nat} (enough : path.length ≤ bound) :
    a.reaches declared bound (some name) = true := by
  induction way generalizing bound with
  | top =>
    cases List.mem_singleton.mp mem
    cases bound with
    | zero => cases enough
    | succ bound => simp [reaches]
  | @up name parent path hangs _ ih =>
    cases bound with
    | zero => cases enough
    | succ bound =>
      obtain ⟨p, found, below⟩ := hangs
      have next : a.parent? name = some parent := by simp [parent?, found, below]
      simp only [reaches, next, Bool.or_eq_true, decide_eq_true_eq]
      rcases List.mem_cons.mp mem with here | higher
      · exact .inl here.symm
      · exact .inr (ih higher (Nat.le_of_succ_le_succ enough))

/-- Every permission on the way up is found. -/
theorem satisfies_of_climb (way : Climb a.permissions name path) (mem : declared ∈ path) :
    a.satisfies declared name = true :=
  reaches_of_climb way mem (Nat.le_succ_of_le way.length_le)

/-- The two permissions of a fresh account. -/
theorem isTree_make {owner active : Authority} (hOwner : 0 < owner.threshold)
    (hActive : 0 < active.threshold) (accountName : AccountName) (balance : Amount) :
    IsTree (make accountName owner active balance).permissions := by
  have top :
      Hangs (make accountName owner active balance).permissions PermissionName.owner none := by
    apply Hangs.insert (by decide)
    exact hangs_insert_self
  have below : Hangs (make accountName owner active balance).permissions PermissionName.active
      (some PermissionName.owner) := hangs_insert_self
  apply isTree_of_climb top below
  · intro name mem
    simp only [make, Std.ExtTreeMap.mem_insert] at mem
    rcases mem with here | here | none
    · cases Std.LawfulEqOrd.eq_of_compare here
      exact ⟨_, .up below (.top top)⟩
    · cases Std.LawfulEqOrd.eq_of_compare here
      exact ⟨_, .top top⟩
    · simp at none
  · intro name p found
    simp only [make, Std.ExtTreeMap.getElem?_insert] at found
    split at found
    · cases found
      exact hActive
    · split at found
      · cases found
        exact hOwner
      · simp at found

end Account

namespace ChainState

variable {s s' t : ChainState} {name : AccountName} {a a' : Account}
  {permission parent : PermissionName} {above : Option PermissionName}

theorem newParent_eq_ok :
    newParent a permission parent = .ok above ↔
      (permission = owner ∧ above = none) ∨
      (permission ≠ owner ∧ parent ≠ permission ∧ parent ∈ a.permissions ∧
        (permission = active → parent = owner) ∧
        (permission ∈ a.permissions → a.satisfies permission parent = false) ∧
        above = some parent) := by
  unfold newParent
  split
  next top => simp [top, @eq_comm _ above]
  next lower =>
    simp only [bind_eq_ok, ensure_eq_ok, exists_unit, pure_eq_ok]
    simp [lower, and_assoc, Decidable.imp_iff_not_or, @eq_comm _ above]

theorem threshold_pos_of_validateAuthority {authority : Authority}
    (valid : s.validateAuthority authority = .ok ()) : 0 < authority.threshold := by
  simp only [validateAuthority, bind_eq_ok, ensure_eq_ok, exists_unit, bne_iff_ne] at valid
  exact UInt32.pos_iff_ne_zero.mpr valid.1

/-- A permission may be entered under the parent it was given. The check tells a permission
that is there from all that lies above the new parent, and one that is not there is on no
way up. -/
theorem isTree_of_newParent {authority : Authority} (h : IsTree a.permissions)
    (placed : newParent a permission parent = .ok above) (positive : 0 < authority.threshold) :
    IsTree (a.permissions.insert permission ⟨above, authority⟩) := by
  rcases newParent_eq_ok.mp placed with ⟨rfl, rfl⟩ | ⟨lower, -, known, second, free, rfl⟩
  · exact h.insert positive (fun here => absurd here (by decide)) (.inl ⟨rfl, rfl⟩)
  · refine h.insert positive ?_ (.inr ⟨lower, ?_⟩)
    · intro here
      rw [second here]
    · obtain ⟨path, way, -⟩ := h.climb parent known
      refine ⟨parent, path, rfl, way, ?_⟩
      intro above
      obtain ⟨rest, part, -⟩ := way.of_mem above
      have found := a.satisfies_of_climb way above
      rw [free part.mem] at found
      cases found

/-- The permissions of every account form a tree. -/
def Trees (s : ChainState) : Prop := ∀ name a, s.account? name = some a → IsTree a.permissions

theorem Trees.setAccount (h : s.Trees) (tree : IsTree a.permissions) :
    (s.setAccount name a).Trees := by
  intro other b found
  rw [account?_setAccount] at found
  split at found
  · cases found
    exact tree
  · exact h other b found

/-- Most actions leave the permissions of the accounts they write alone. -/
theorem Trees.setAccount_of_permissions_eq (h : s.Trees) (found : s.account? name = some a)
    (same : a'.permissions = a.permissions) : (s.setAccount name a').Trees := by
  apply h.setAccount
  rw [same]
  exact h name a found

theorem Trees.debit {amount : Amount} (h : s.Trees) (done : s.debit name amount = .ok t) :
    t.Trees := by
  obtain ⟨a, balance, found, -, rfl⟩ := debit_eq_ok.mp done
  exact h.setAccount_of_permissions_eq found rfl

/-- A new account has `recovery` besides, under `owner`. -/
theorem Trees.newAccount {creator : AccountName} {first second third : Authority}
    {deposit : Amount} (h : s.Trees)
    (done : s.newAccount creator name first second third deposit = .ok s') : s'.Trees := by
  obtain ⟨-, -, valid, valid', valid'', t, paid, rfl⟩ := newAccount_eq_ok.mp done
  have pair := Account.isTree_make (threshold_pos_of_validateAuthority valid)
    (threshold_pos_of_validateAuthority valid') name deposit
  apply (h.debit paid).setAccount
  apply pair.insert (threshold_pos_of_validateAuthority valid'') (fun _ => rfl)
  exact .inr ⟨by decide, owner, [owner], rfl, .top pair.owner_top, by decide⟩

theorem Trees.updateAuthority {m : Message} {authority : Authority} (h : s.Trees)
    (done : updateAuthority m s name permission parent authority = .ok s') : s'.Trees := by
  obtain ⟨-, a, above, found, placed, -, valid, rfl⟩ := updateAuthority_eq_ok.mp done
  apply h.setAccount
  exact isTree_of_newParent (h name a found) placed (threshold_pos_of_validateAuthority valid)

theorem not_hangs_of_inUse (free : inUse a permission = false) (other : PermissionName) :
    ¬ Hangs a.permissions other (some permission) := by
  rintro ⟨p, found, below⟩
  simp only [inUse, Bool.or_eq_false_iff, List.any_eq_false] at free
  have listed := Std.ExtTreeMap.mem_toList_iff_getElem?_eq_some.mpr found
  exact free.1 (other, p) listed (by simp [below])

theorem Trees.deleteAuthority {m : Message} (h : s.Trees)
    (done : deleteAuthority m s name permission = .ok s') : s'.Trees := by
  obtain ⟨notOwner, notActive, a, existing, found, -, free, -, rfl⟩ :=
    deleteAuthority_eq_ok.mp done
  apply h.setAccount
  exact (h name a found).erase notOwner notActive (not_hangs_of_inUse free)

variable [Crypto] {rules : Rules} {now : Time}

theorem Trees.execute {m : Message} {action : Action} (h : s.Trees)
    (done : s.execute rules now m action = .ok s') : s'.Trees := by
  cases action <;> simp [ChainState.execute, Action.kind, ActionKind.managesAuthority] at done
  case newAccount => exact h.newAccount done.2
  case transfer =>
    obtain ⟨-, t, paid, a, balance, found, -, rfl⟩ := transfer_eq_ok.mp done.2
    exact (h.debit paid).setAccount_of_permissions_eq found rfl
  case lock =>
    obtain ⟨-, t, paid, a, staked, found, -, rfl⟩ := lock_eq_ok.mp done.2
    exact (h.debit paid).setAccount_of_permissions_eq found rfl
  case unlock =>
    obtain ⟨a, _, _, found, -, -, rfl⟩ := unlock_eq_ok.mp done.2
    exact h.setAccount_of_permissions_eq found rfl
  case claim =>
    obtain ⟨a, _, _, found, -, -, -, rfl⟩ := claim_eq_ok.mp done.2
    exact h.setAccount_of_permissions_eq found rfl
  case setProxy =>
    obtain ⟨-, a, found, rfl⟩ := setProxy_eq_ok.mp done.2
    exact h.setAccount_of_permissions_eq found rfl
  case setProducer =>
    obtain ⟨-, -, rfl⟩ := setProducer_eq_ok.mp done.2
    exact h
  case updateProducer =>
    obtain ⟨p, -, rfl⟩ := updateProducer_eq_ok.mp done.2
    exact h
  case approveProducer =>
    obtain ⟨-, a, found, rfl⟩ := approveProducer_eq_ok.mp done.2
    exact h.setAccount_of_permissions_eq found rfl
  case updateAuthority => exact h.updateAuthority done
  case deleteAuthority => exact h.deleteAuthority done
  case linkAuthority =>
    obtain ⟨-, -, a, found, -, rfl⟩ := linkAuthority_eq_ok.mp done
    exact h.setAccount_of_permissions_eq found rfl
  case unlinkAuthority =>
    obtain ⟨-, a, found, -, rfl⟩ := unlinkAuthority_eq_ok.mp done
    exact h.setAccount_of_permissions_eq found rfl
  case setCode =>
    obtain ⟨a, found, rfl⟩ := setCode_eq_ok.mp done.2
    exact h.setAccount_of_permissions_eq found rfl

theorem invariant_trees : Invariant rules Trees where
  execute := Trees.execute
  applied _ h := h
  advance _ h := h

/-- The one account of the genesis state is owned by one key of weight one. -/
theorem trees_genesis : (genesis rules).Trees := by
  let unopened : ChainState := { genesis rules with accounts := ∅ }
  have nobody : unopened.Trees := by
    intro name a found
    simp [unopened, account?] at found
  have asks : (0 : UInt32) < 1 := by decide
  exact nobody.setAccount (Account.isTree_make asks asks _ _)

end ChainState

namespace Node

variable [Crypto]

/-- Permission trees stay trees: in every state that a run of a chain can reach, and in the
head state and the pending state of every node at any time, the permissions of every
account form a tree under `owner`, and every authority asks for something. -/
theorem permissions_isTree (rules : Rules) (changes : List ChainState.Change) (name : NodeName)
    (chainName : String) (config : ChainConfig) (requests : List Request) :
    ((ChainState.genesis rules).run rules changes).Trees ∧
      ((make name chainName config).run requests).headState.Trees ∧
      ((make name chainName config).run requests).pendingState.Trees := by
  refine ⟨?_, invariant_run ChainState.invariant_trees ChainState.trees_genesis requests⟩
  exact ChainState.invariant_trees.run ChainState.trees_genesis changes

end Node

end ChainLab
