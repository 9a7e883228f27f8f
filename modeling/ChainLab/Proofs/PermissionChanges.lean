import ChainLab.Proofs.AccountEdits
import ChainLab.Proofs.Consent
import ChainLab.Proofs.ReachedState

/-!
# Who may change a permission

A permission is created, replaced or removed by an action that names it, and the action asks
for a level at or above one permission of the account: the parent that the permission has,
or the one it is to get if it is new. As the permissions form a tree, whoever covers the
parent of a permission is not the permission itself, and `owner` is covered by nothing else.

Where a permission is moved to is not asked for. Whoever covers its present parent may put it
under any other that does not hang below it.
-/

namespace ChainLab

open PermissionName (owner active)
open PermissionMap (Hangs Climb IsTree)

/-- The message carries an action that creates, replaces or removes the permission. -/
def Message.Rewrites (rules : Rules) (m : Message) (name : AccountName)
    (permission : PermissionName) : Prop :=
  (∃ parent authority,
      m.nativeAction? rules = some (.updateAuthority name permission parent authority)) ∨
    m.nativeAction? rules = some (.deleteAuthority name permission)

namespace Account

variable {a a' : Account} {name above parent permission : PermissionName}
  {path : List PermissionName}

theorem parent?_eq_some_iff :
    a.parent? name = some parent ↔ Hangs a.permissions name (some parent) :=
  Option.bind_eq_some_iff

/-- Whoever covers a permission is met on the way up from it. -/
theorem mem_path_of_covers (way : Climb a.permissions name path) (h : a.Covers above name) :
    above ∈ path := by
  induction h using Relation.ReflTransGen.head_induction_on generalizing path with
  | refl => cases way <;> exact List.mem_cons_self
  | head step _ ih =>
    have hangs := parent?_eq_some_iff.mp step
    cases way with
    | top top => cases hangs.unique top
    | up hangs' climb =>
      cases hangs.unique hangs'
      exact List.mem_cons_of_mem _ (ih climb)

theorem eq_owner_of_covers (tree : IsTree a.permissions) (h : a.Covers above owner) :
    above = owner :=
  List.mem_singleton.mp (mem_path_of_covers (.top tree.owner_top) h)

/-- Whoever covers the parent of a permission is a strict ancestor of the permission. -/
theorem covers_of_covers_parent (tree : IsTree a.permissions)
    (hangs : Hangs a.permissions permission (some parent)) (h : a.Covers above parent) :
    a.Covers above permission ∧ above ≠ permission := by
  refine ⟨.head (parent?_eq_some_iff.mpr hangs) h, ?_⟩
  rintro rfl
  obtain ⟨path, way, nodup⟩ := tree.climb _ hangs.mem
  cases way with
  | top top => cases hangs.unique top
  | up hangs' climb =>
    cases hangs.unique hangs'
    exact (List.nodup_cons.mp nodup).1 (mem_path_of_covers climb h)

/-- `d` has a say over a permission that is there: only `owner` has over itself, and over any
other only a strict ancestor. -/
structure Outranks (a : Account) (d permission : PermissionName) : Prop where
  owner : permission = PermissionName.owner → d = PermissionName.owner
  above : permission ∈ a.permissions → permission ≠ PermissionName.owner →
    a.Covers d permission ∧ d ≠ permission

end Account

namespace ChainState

/-- The message declares a permission of the account, and the keys meet its authority. -/
def Declared (keys : KeySet) (m : Message) (s : ChainState) (name : AccountName)
    (d : PermissionName) : Prop :=
  ⟨name, d⟩ ∈ m.authorizations ∧ Level.evaluate s.resolver keys ⟨name, d⟩ = .ok true

variable {rules : Rules} {now : Time} {keys : KeySet} {s s' : ChainState} {m : Message}
  {name : AccountName} {a : Account} {permission parent d : PermissionName}
  {above : Option PermissionName}

/-- What a message requires is covered by a level that it declares, and all levels that a
checked message declares are met. -/
theorem exists_declared (checked : checkAuthorization rules keys m s = .ok ())
    (found : s.account? name = some a) (required : requirePermission m s name permission = .ok ()) :
    ∃ d, s.Declared keys m name d ∧ a.Covers d permission := by
  obtain ⟨b, found', ⟨actor, d⟩, declared, same, covers⟩ := requirePermission_eq_ok.mp required
  cases found.symm.trans found'
  cases same
  obtain ⟨-, -, -, -, met⟩ :=
    checkLevel_eq_ok.mp (checkAuthorization_eq_ok.mp checked _ declared)
  exact ⟨d, ⟨declared, met⟩, Account.covers_of_reaches covers⟩

/-- Over a permission that is there its parent has a say, and at the top `owner` itself. -/
theorem outranks_of_covers (tree : IsTree a.permissions) {existing : Permission}
    (there : a.permissions[permission]? = some existing)
    (covers : a.Covers d (existing.parent.getD owner)) : a.Outranks d permission := by
  have hangs : Hangs a.permissions permission existing.parent := ⟨existing, there, rfl⟩
  cases above : existing.parent with
  | none =>
    rw [above] at hangs covers
    refine ⟨fun _ => Account.eq_owner_of_covers tree covers, ?_⟩
    intro _ lower
    exact absurd (tree.only_owner permission hangs) lower
  | some parent =>
    rw [above] at hangs covers
    refine ⟨?_, fun _ _ => Account.covers_of_covers_parent tree hangs covers⟩
    rintro rfl
    cases hangs.unique tree.owner_top

/-- An update is declared by who covers the present parent of the permission, or the named
one if the permission is new. -/
theorem exists_declared_of_updateAuthority {authority : Authority} (tree : IsTree a.permissions)
    (checked : checkAuthorization rules keys m s = .ok ()) (found : s.account? name = some a)
    (done : updateAuthority m s name permission parent authority = .ok s') :
    ∃ d, s.Declared keys m name d ∧ a.Outranks d permission ∧
      (permission ∉ a.permissions → a.Covers d parent) ∧
      ∀ present, a.parent? permission = some present → a.Covers d present := by
  obtain ⟨-, b, above, found', placed, required, -, -⟩ := updateAuthority_eq_ok.mp done
  cases found.symm.trans found'
  obtain ⟨d, declared, covers⟩ := exists_declared checked found required
  refine ⟨d, declared, ?_⟩
  cases there : a.permissions[permission]? with
  | some existing =>
    rw [there] at covers
    refine ⟨outranks_of_covers tree there covers, ?_, ?_⟩
    · intro new
      exact absurd (mem_iff_exists_getElem?.mpr ⟨existing, there⟩) new
    · intro present hangs
      rw [Account.parent?, there, Option.bind_some] at hangs
      simpa only [hangs, Option.getD_some] using covers
  | none =>
    have new : permission ∉ a.permissions := by
      rw [Std.ExtTreeMap.mem_iff_isSome_getElem?, there]
      exact Bool.false_ne_true
    have lower : permission ≠ owner := by
      rintro rfl
      exact new tree.owner_top.mem
    rw [there] at covers
    rcases newParent_eq_ok.mp placed with ⟨top, -⟩ | ⟨-, -, -, -, -, rfl⟩
    · exact absurd top lower
    · refine ⟨⟨fun top => absurd top lower, fun mem => absurd mem new⟩, fun _ => covers, ?_⟩
      intro present hangs
      rw [Account.parent?, there] at hangs
      cases hangs

theorem exists_declared_of_deleteAuthority (tree : IsTree a.permissions)
    (checked : checkAuthorization rules keys m s = .ok ()) (found : s.account? name = some a)
    (done : deleteAuthority m s name permission = .ok s') :
    ∃ d, s.Declared keys m name d ∧ a.Outranks d permission := by
  obtain ⟨-, -, b, existing, found', there, -, required, -⟩ := deleteAuthority_eq_ok.mp done
  cases found.symm.trans found'
  obtain ⟨d, declared, covers⟩ := exists_declared checked found required
  exact ⟨d, declared, outranks_of_covers tree there covers⟩

section

variable [Crypto]

/-- Only a message that names a permission touches it. -/
theorem exists_permissions_of_applyMessage (h : s.applyMessage rules now keys m = .ok s')
    (found : s.account? name = some a) :
    ∃ a', s'.account? name = some a' ∧ ∀ permission, ¬ m.Rewrites rules name permission →
      a'.permissions[permission]? = a.permissions[permission]? := by
  let related (a a' : Account) : Prop := ∀ permission, ¬ m.Rewrites rules name permission →
    a'.permissions[permission]? = a.permissions[permission]?
  refine exists_related_of_applyMessage related ?_ ?_ ?_ h found
  · intro a permission _
    rfl
  · intro a b c first later permission spared
    rw [later permission spared, first permission spared]
  · intro action a a' carries edit permission spared
    cases edit with
    | @authorized _ touched parent authority above =>
      have apart : touched ≠ permission := by
        rintro rfl
        exact spared (.inl ⟨_, _, carries⟩)
      rw [Std.ExtTreeMap.getElem?_insert, if_neg (by simpa using apart)]
    | @dismissed _ touched =>
      have apart : touched ≠ permission := by
        rintro rfl
        exact spared (.inr carries)
      rw [Std.ExtTreeMap.getElem?_erase, if_neg (by simpa using apart)]
    | _ => rfl

/-- The trees are still there in front of each message of a transaction. -/
theorem Reached.exists_applyMessage {messages before after : List Message}
    (reached : Reached rules s) (run : s.applyMessages rules now keys messages = .ok s')
    (split : messages = before ++ m :: after) :
    ∃ t t', s.applyMessages rules now keys before = .ok t ∧
      t.applyMessage rules now keys m = .ok t' ∧ t.Trees := by
  rw [split] at run
  obtain ⟨t, t', first, step⟩ := ChainState.exists_applyMessage run
  exact ⟨t, t', first, step, invariant_trees.applyMessages reached.trees first⟩

end

/-- No permission changes itself or anything that is not strictly below it. If an accepted
message creates, replaces or removes a permission of an account that is there, it is an
action on that permission, and it declares a level of the account that the keys meet:
`owner` for `owner`, a strict ancestor of any other permission that is there, and for a new
permission its parent or an ancestor of its parent. -/
theorem permission_changed_from_above [Crypto] {trx : SignedTransaction} (reached : Reached rules s)
    (accepted : s.applyTransaction rules now trx = .ok s') :
    ∃ keys, trx.verifiedKeys rules.chainId = .ok keys ∧
      ∀ before m after, trx.transaction.messages = before ++ m :: after →
        ∃ t t', s.applyMessages rules now keys before = .ok t ∧
          t.applyMessage rules now keys m = .ok t' ∧
          ∀ name a, t.account? name = some a → ∃ a', t'.account? name = some a' ∧
            ∀ permission,
              (a'.permissions[permission]? ≠ a.permissions[permission]? →
                m.Rewrites rules name permission) ∧
              (m.Rewrites rules name permission →
                ∃ d, t.Declared keys m name d ∧ a.Outranks d permission ∧
                  ∀ parent authority,
                    m.nativeAction? rules =
                      some (.updateAuthority name permission parent authority) →
                    permission ∉ a.permissions → a.Covers d parent) := by
  obtain ⟨-, -, -, keys, verified, u, run, -⟩ := applyTransaction_eq_ok.mp accepted
  refine ⟨keys, verified, ?_⟩
  intro before m after split
  obtain ⟨t, t', first, step, trees⟩ := reached.exists_applyMessage run split
  refine ⟨t, t', first, step, ?_⟩
  intro name a found
  obtain ⟨a', found', spared⟩ := exists_permissions_of_applyMessage step found
  refine ⟨a', found', fun permission => ⟨?_, ?_⟩⟩
  · intro changed
    by_contra untouched
    exact changed (spared permission untouched)
  · have checked := (applyMessage_eq_ok.mp step).1
    have tree := trees name a found
    rintro (⟨parent, authority, carries⟩ | carries)
    · obtain ⟨d, declared, outranks, placed, -⟩ :=
        exists_declared_of_updateAuthority tree checked found
          (execute_of_applyMessage step carries)
      refine ⟨d, declared, outranks, ?_⟩
      intro parent' authority' carries' new
      cases carries.symm.trans carries'
      exact placed new
    · obtain ⟨d, declared, outranks⟩ :=
        exists_declared_of_deleteAuthority tree checked found
          (execute_of_applyMessage step carries)
      refine ⟨d, declared, outranks, ?_⟩
      intro parent authority carries'
      cases carries.symm.trans carries'

section sample

attribute [local instance] checksum

def sampleClerk : PublicKey := (KeyPair.ofName "clerk").publicKey

def sampleHiring : Message :=
  (Action.updateAuthority "init0" "clerk" active (.ofKey sampleClerk)).toMessage "eos"
    ((∅ : LevelSet).insert (Level.active "init0"))

def sampleTill : Message :=
  (Action.updateAuthority "init0" "till" "clerk" (.ofKey sampleClerk)).toMessage "eos"
    ((∅ : LevelSet).insert ⟨"init0", "clerk"⟩)

/-- `active` enters a permission with a key of its own, which enters one below itself. -/
def sampleShop : SignedTransaction :=
  ⟨⟨⟨100⟩, 0, (genesis sampleRules).head.id.refTag, [sampleHiring, sampleTill]⟩,
    [(sampleConfig.genesisAccount.publicKey, ⟨Bytes.zero 64⟩), (sampleClerk, ⟨Bytes.zero 64⟩)]⟩

theorem sampleShop_applies :
    ∃ s', (genesis sampleRules).applyTransaction sampleRules .zero sampleShop = .ok s' :=
  exists_eq_ok_iff.mpr (by decide +kernel)

theorem sampleTill_carries : sampleTill.nativeAction? sampleRules =
    some (.updateAuthority "init0" "till" "clerk" (.ofKey sampleClerk)) := by
  decide +kernel

theorem permission_changed_from_above_sample :
    ∃ s' keys t, (genesis sampleRules).applyTransaction sampleRules .zero sampleShop = .ok s' ∧
      sampleShop.verifiedKeys sampleRules.chainId = .ok keys ∧
      (genesis sampleRules).applyMessages sampleRules .zero keys [sampleHiring] = .ok t ∧
      ∃ a d, t.account? "init0" = some a ∧ t.Declared keys sampleTill "init0" d ∧
        a.Outranks d "till" ∧ ("till" ∉ a.permissions → a.Covers d "clerk") := by
  obtain ⟨s', h⟩ := sampleShop_applies
  obtain ⟨keys, verified, changes⟩ := permission_changed_from_above Reached.genesis h
  obtain ⟨t, t', first, step, changed⟩ := changes [sampleHiring] sampleTill [] rfl
  have done := execute_of_applyMessage step sampleTill_carries
  obtain ⟨-, a, -, found, -⟩ := updateAuthority_eq_ok.mp done
  obtain ⟨a', -, changed⟩ := changed "init0" a found
  obtain ⟨d, declared, outranks, placed⟩ := (changed "till").2 (.inl ⟨_, _, sampleTill_carries⟩)
  exact ⟨s', keys, t, h, verified, first, a, d, found, declared, outranks,
    placed _ _ sampleTill_carries⟩

end sample

/-- An accepted update is declared by who covers the place it names, unless it takes the
permission away from under its present parent: then it is enough to cover that one. -/
theorem permission_placed_from_above [Crypto] {trx : SignedTransaction} (reached : Reached rules s)
    (accepted : s.applyTransaction rules now trx = .ok s') :
    ∃ keys, trx.verifiedKeys rules.chainId = .ok keys ∧
      ∀ before m after, trx.transaction.messages = before ++ m :: after →
        ∀ name permission parent authority,
          m.nativeAction? rules = some (.updateAuthority name permission parent authority) →
          permission ≠ owner →
          ∃ t a d, s.applyMessages rules now keys before = .ok t ∧ t.account? name = some a ∧
            t.Declared keys m name d ∧
            (a.Covers d parent ∨
              ∃ present, a.parent? permission = some present ∧ a.Covers d present ∧
                ¬ a.Covers present parent) := by
  obtain ⟨-, -, -, keys, verified, u, run, -⟩ := applyTransaction_eq_ok.mp accepted
  refine ⟨keys, verified, ?_⟩
  intro before m after split name permission parent authority carries lower
  obtain ⟨t, t', first, step, trees⟩ := reached.exists_applyMessage run split
  have done := execute_of_applyMessage step carries
  obtain ⟨-, a, -, found, -⟩ := updateAuthority_eq_ok.mp done
  have tree := trees name a found
  obtain ⟨d, declared, -, placed, stays⟩ :=
    exists_declared_of_updateAuthority tree (applyMessage_eq_ok.mp step).1 found done
  refine ⟨t, a, d, first, found, declared, ?_⟩
  by_cases there : permission ∈ a.permissions
  · obtain ⟨present, -, hangs⟩ := tree.parent_mem permission there lower
    have hangs := Account.parent?_eq_some_iff.mpr hangs
    by_cases below : a.Covers present parent
    · exact .inl (below.trans (stays present hangs))
    · exact .inr ⟨present, hangs, stays present hangs, below⟩
  · exact .inl (placed there)

section sample

attribute [local instance] checksum

theorem permission_placed_from_above_sample :
    ∃ s' keys t a d, (genesis sampleRules).applyTransaction sampleRules .zero sampleShop = .ok s' ∧
      sampleShop.verifiedKeys sampleRules.chainId = .ok keys ∧
      (genesis sampleRules).applyMessages sampleRules .zero keys [sampleHiring] = .ok t ∧
      t.account? "init0" = some a ∧ t.Declared keys sampleTill "init0" d ∧
      (a.Covers d "clerk" ∨
        ∃ present, a.parent? "till" = some present ∧ a.Covers d present ∧
          ¬ a.Covers present "clerk") := by
  obtain ⟨s', h⟩ := sampleShop_applies
  obtain ⟨keys, verified, placed⟩ := permission_placed_from_above Reached.genesis h
  obtain ⟨t, a, d, placed⟩ :=
    placed [sampleHiring] sampleTill [] rfl _ _ _ _ sampleTill_carries (by decide)
  exact ⟨s', keys, t, a, d, h, verified, placed⟩

def sampleMove : Message :=
  (Action.updateAuthority "init0" "till" owner (.ofKey sampleClerk)).toMessage "eos"
    ((∅ : LevelSet).insert ⟨"init0", "clerk"⟩)

def sampleTakeover : SignedTransaction :=
  ⟨⟨⟨100⟩, 0, (genesis sampleRules).head.id.refTag, [sampleMove]⟩,
    [(sampleClerk, ⟨Bytes.zero 64⟩)]⟩

/-- Somebody who covers no more than the present parent of a permission takes it to `owner`,
out of reach of everything in between. -/
theorem permission_placed_out_of_reach :
    ∃ s s' keys a, Reached sampleRules s ∧
      s.applyTransaction sampleRules .zero sampleTakeover = .ok s' ∧
      sampleTakeover.verifiedKeys sampleRules.chainId = .ok keys ∧
      sampleTakeover.transaction.messages = [sampleMove] ∧
      sampleMove.nativeAction? sampleRules =
        some (.updateAuthority "init0" "till" owner (.ofKey sampleClerk)) ∧
      "till" ≠ owner ∧ s.account? "init0" = some a ∧
      ∀ d, s.Declared keys sampleMove "init0" d → ¬ a.Covers d owner := by
  obtain ⟨u, h⟩ : ∃ u, (genesis sampleRules).applyTransactions sampleRules .zero
      [sampleShop, sampleTakeover] = .ok u := exists_eq_ok_iff.mpr (by decide +kernel)
  have carries : sampleMove.nativeAction? sampleRules =
      some (.updateAuthority "init0" "till" owner (.ofKey sampleClerk)) := by
    decide +kernel
  obtain ⟨s, shop, h⟩ := applyTransactions_cons_eq_ok.mp h
  obtain ⟨s', takeover, -⟩ := applyTransactions_cons_eq_ok.mp h
  have reached : Reached sampleRules s := Reached.genesis.applyTransaction shop
  obtain ⟨-, -, -, keys, verified, v, run, -⟩ := applyTransaction_eq_ok.mp takeover
  have split : sampleTakeover.transaction.messages = [] ++ sampleMove :: [] := rfl
  obtain ⟨t, t', first, step, -⟩ := reached.exists_applyMessage run split
  cases first
  have done := execute_of_applyMessage step carries
  obtain ⟨-, a, -, found, -⟩ := updateAuthority_eq_ok.mp done
  refine ⟨s, s', keys, a, reached, takeover, verified, rfl, carries, by decide, found, ?_⟩
  rintro d ⟨declared, -⟩ covers
  cases Account.eq_owner_of_covers (reached.trees "init0" a found) covers
  exact absurd declared (by decide +kernel)

end sample

end ChainState

end ChainLab
