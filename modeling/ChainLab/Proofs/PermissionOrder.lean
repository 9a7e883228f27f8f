import ChainLab.Proofs.PermissionChanges

/-!
# Permissions are ordered by who covers whom

Whether a declared permission covers a required one is found out by a walk up from the required
one, which is cut off after as many steps as there are permissions and one more. In a tree the
way up repeats no permission, so the walk is through before it is cut off, however long the way
is. What it decides is then an order: two permissions that cover each other have the same way
up, and `owner` is at the end of every way.
-/

namespace ChainLab

open PermissionName (owner)
open PermissionMap (Climb IsTree)

/-- A way up is that of the permission it begins with. -/
theorem PermissionMap.Climb.name_unique {permissions : PermissionMap}
    {name other : PermissionName} {path : List PermissionName}
    (h : permissions.Climb name path) (h' : permissions.Climb other path) : name = other := by
  cases h with
  | top => cases h' <;> rfl
  | up => cases h' <;> rfl

namespace Account

variable {a : Account} {declared required : PermissionName} {path : List PermissionName}

/-- The permissions above one that is there are those on its way up. -/
theorem covers_of_mem_path (way : Climb a.permissions required path) (mem : declared ∈ path) :
    a.Covers declared required :=
  covers_of_reaches (a.satisfies_of_climb way mem)

section

variable (tree : IsTree a.permissions) (known : required ∈ a.permissions)

include tree known

/-- In a tree the bound cuts no walk off before it has met an ancestor. -/
theorem satisfies_iff_covers :
    a.satisfies declared required = true ↔ a.Covers declared required := by
  obtain ⟨path, way, -⟩ := tree.climb required known
  constructor
  · exact covers_of_reaches
  · intro covers
    exact a.satisfies_of_climb way (mem_path_of_covers way covers)

theorem mem_of_covers (covers : a.Covers declared required) : declared ∈ a.permissions := by
  obtain ⟨path, way, -⟩ := tree.climb required known
  obtain ⟨rest, part, -⟩ := way.of_mem (mem_path_of_covers way covers)
  exact part.mem

theorem covers_owner : a.Covers owner required := by
  obtain ⟨path, way, -⟩ := tree.climb required known
  apply covers_of_mem_path way
  induction way with
  | top => exact List.mem_singleton_self owner
  | up _ climb ih => exact List.mem_cons_of_mem _ (ih climb.mem)

/-- The ways up from two permissions that cover each other are parts of each other. -/
theorem eq_of_covers (covers : a.Covers declared required) (back : a.Covers required declared) :
    declared = required := by
  obtain ⟨path, way, -⟩ := tree.climb required known
  obtain ⟨rest, part, suffix⟩ := way.of_mem (mem_path_of_covers way covers)
  obtain ⟨again, whole, suffix'⟩ := part.of_mem (mem_path_of_covers part back)
  obtain rfl : again = path := whole.unique way
  obtain rfl : rest = again := suffix.eq_of_length_le suffix'.length_le
  exact part.name_unique way

end

/-- The walk with its bound finds exactly the permission itself and its ancestors, and on the
permissions of the account this is an order with `owner` on top. -/
structure Ordered (a : Account) : Prop where
  satisfies_iff : ∀ d, ∀ r ∈ a.permissions, a.satisfies d r = true ↔ a.Covers d r
  refl : ∀ r ∈ a.permissions, a.satisfies r r = true
  trans : ∀ d m, ∀ r ∈ a.permissions,
    a.satisfies d m = true → a.satisfies m r = true → a.satisfies d r = true
  antisymm : ∀ d, ∀ r ∈ a.permissions,
    a.satisfies d r = true → a.satisfies r d = true → d = r
  owner_mem : owner ∈ a.permissions
  owner_above : ∀ r ∈ a.permissions, a.satisfies owner r = true

theorem ordered_of_isTree (tree : IsTree a.permissions) : a.Ordered where
  satisfies_iff d r known := satisfies_iff_covers tree known
  refl r known := (satisfies_iff_covers tree known).mpr .refl
  trans d m r known upper lower := by
    have below := (satisfies_iff_covers tree known).mp lower
    have above := (satisfies_iff_covers tree (mem_of_covers tree known below)).mp upper
    exact (satisfies_iff_covers tree known).mpr (below.trans above)
  antisymm d r known covers back := by
    have below := (satisfies_iff_covers tree known).mp covers
    have above := (satisfies_iff_covers tree (mem_of_covers tree known below)).mp back
    exact eq_of_covers tree known below above
  owner_mem := tree.owner_top.mem
  owner_above r known := (satisfies_iff_covers tree known).mpr (covers_owner tree known)

end Account

namespace ChainState

/-- In every account of every state that a chain can reach, the walk finds out that one permission
covers another exactly if it is the other one or is reached from it by following parents. On the
permissions of the account this is an order, and `owner` is above all of them. -/
theorem permissions_ordered [Crypto] {rules : Rules} {s : ChainState} {name : AccountName}
    {a : Account} (reached : Reached rules s) (found : s.account? name = some a) : a.Ordered :=
  Account.ordered_of_isTree (reached.trees name a found)

section sample

attribute [local instance] checksum

/-- Four permissions on one way up, as long as a way can be in an account that has no more. -/
theorem permissions_ordered_sample :
    ∃ s a, Reached sampleRules s ∧ s.account? "init0" = some a ∧ a.permissions.size = 4 ∧
      a.parent? "till" = some "clerk" ∧ a.parent? "clerk" = some "active" ∧
      a.Ordered ∧ a.satisfies owner "till" = true := by
  obtain ⟨s, h⟩ := sampleShop_applies
  have shape : ((genesis sampleRules).applyTransaction sampleRules .zero sampleShop).toOption.bind
      (fun s => (s.account? "init0").map fun a =>
        (a.permissions.size, a.parent? "till", a.parent? "clerk")) =
        some (4, some "clerk", some "active") := by
    decide +kernel
  rw [h] at shape
  obtain ⟨a, found, shape⟩ := Option.map_eq_some_iff.mp shape
  simp only [Prod.mk.injEq] at shape
  obtain ⟨size, till, clerk⟩ := shape
  have ordered := permissions_ordered (Reached.genesis.applyTransaction h) found
  have known : "till" ∈ a.permissions := (Account.parent?_eq_some_iff.mp till).mem
  exact ⟨s, a, Reached.genesis.applyTransaction h, found, size, till, clerk, ordered,
    ordered.owner_above "till" known⟩

end sample

end ChainState

end ChainLab
