import ChainLab.Proofs.MoreSignatures
import ChainLab.Proofs.PermissionChanges
import ChainLab.Proofs.UnstakeDelay

/-!
# Delegations outlive what they point at

An authority is stored only if all permissions it delegates to are there. They may be removed
later: whoever removes a permission of its own is asked about its children and its links, not about
who delegates to it. So a delegation leads somewhere, unless what it points at was removed while it
stood, and an evaluation meets an unknown permission nowhere else.
-/

namespace ChainLab

open PermissionName (owner active)

namespace Resolver

/-- The authority of one permission has an entry for another. -/
def Delegates (resolver : Resolver) (holder target : Level) : Prop :=
  ∃ authority, resolver.find? holder = some authority ∧
    ∃ entry ∈ authority.accounts, entry.level = target

variable {resolver : Resolver} {signatures : KeySet} {path : List Level} {level missing : Level}

theorem exists_of_credit_eq_error {entries : List LevelWeight} {error : AuthorityError}
    (h : resolver.credit signatures path entries = .error error) :
    ∃ entry ∈ entries, resolver.judge signatures path entry.level = .error error := by
  induction entries with
  | nil => simp at h
  | cons entry rest ih =>
    rw [credit_cons] at h
    cases judged : resolver.judge signatures path entry.level with
    | error first =>
      rw [judged] at h
      cases h
      exact ⟨entry, List.mem_cons_self, judged⟩
    | ok met =>
      cases credited : resolver.credit signatures path rest with
      | error later =>
        rw [judged, credited] at h
        cases h
        obtain ⟨other, mem, failed⟩ := ih credited
        exact ⟨other, List.mem_cons_of_mem entry mem, failed⟩
      | ok more =>
        rw [judged, credited] at h
        cases h

/-- What an error says of the permission that it names: it is not there, or it delegates back to
itself. -/
inductive Blames (resolver : Resolver) : AuthorityError → Level → Prop
  | missing {level : Level} (unknown : resolver.find? level = none) :
    Blames resolver (.unknownLevel level) level
  | returning {level : Level} {path : List Level}
    (returns : Relation.TransGen resolver.Delegates level level) :
    Blames resolver (.cycle level path) level

/-- What is at fault is met at the end of a chain of delegations, unless the chain came back to
where the path had been. -/
theorem chain_of_judge_eq_error {error : AuthorityError}
    (h : resolver.judge signatures path level = .error error) :
    ∃ blamed, Relation.ReflTransGen resolver.Delegates level blamed ∧
      (blamed ∈ path ∧ (∃ way, error = .cycle blamed way) ∨ resolver.Blames error blamed) := by
  induction path, level using resolver.judge_induction with
  | cyclic path level mem =>
    rw [judge_of_mem mem] at h
    cases h
    exact ⟨level, .refl, .inl ⟨mem, _, rfl⟩⟩
  | unknown path level off unknown =>
    rw [judge_of_unknown off unknown] at h
    cases h
    exact ⟨level, .refl, .inr (.missing unknown)⟩
  | found path level authority off found ih =>
    rw [judge_of_found off found] at h
    cases credited : resolver.credit signatures (path ++ [level]) authority.accounts with
    | ok gained =>
      rw [credited] at h
      cases h
    | error first =>
      rw [credited] at h
      cases h
      obtain ⟨entry, mem, failed⟩ := exists_of_credit_eq_error credited
      obtain ⟨blamed, chain, fault⟩ := ih entry.level failed
      have delegates : resolver.Delegates level entry.level := ⟨authority, found, entry, mem, rfl⟩
      refine ⟨blamed, .head delegates chain, ?_⟩
      rcases fault with ⟨mem, way, rfl⟩ | blames
      · rcases List.mem_append.mp mem with earlier | here
        · exact .inl ⟨earlier, way, rfl⟩
        · cases List.mem_singleton.mp here
          exact .inr (.returning (.head' delegates chain))
      · exact .inr blames

theorem chain_of_judge_eq_unknown
    (h : resolver.judge signatures path level = .error (.unknownLevel missing)) :
    resolver.find? missing = none ∧ Relation.ReflTransGen resolver.Delegates level missing := by
  obtain ⟨blamed, chain, ⟨-, way, cyclic⟩ | blames⟩ := chain_of_judge_eq_error h
  · cases cyclic
  · cases blames with
    | missing unknown => exact ⟨unknown, chain⟩

end Resolver

namespace ChainState

/-- By the messages that were carried out, the last one first, a permission was removed to which
another one delegated, and since then neither the permission came back nor the other one was
given a new authority. -/
inductive Orphaned (rules : Rules) (holder target : Level) : List Deed → Prop
  | deleted {d : Deed} {earlier : List Deed}
      (deletes : d.message.nativeAction? rules =
        some (.deleteAuthority target.actor target.permission))
      (custom : target.permission ≠ owner ∧ target.permission ≠ active)
      (there : (d.before.authority? target).isSome)
      (delegates : d.before.resolver.Delegates holder target)
      (gone : d.after.authority? target = none)
      (kept : d.after.authority? holder = d.before.authority? holder) :
      Orphaned rules holder target (d :: earlier)
  | last {d : Deed} {earlier : List Deed} (orphaned : Orphaned rules holder target earlier)
      (gone : d.after.authority? target = none)
      (kept : d.after.authority? holder = d.before.authority? holder) :
      Orphaned rules holder target (d :: earlier)

/-- What a state delegates to is there, unless it was removed while it was delegated to. -/
def Founded (rules : Rules) (log : List Deed) (s : ChainState) : Prop :=
  ∀ holder target, s.resolver.Delegates holder target → s.authority? target = none →
    (∃ a, s.account? target.actor = some a) ∧ Orphaned rules holder target log

variable {rules : Rules} {now : Time} {keys : KeySet} {s s' t : ChainState} {m : Message}
  {action : Action} {holder target : Level} {authority : Authority} {log : List Deed}

theorem authority?_eq_some : s.authority? target = some authority ↔
    ∃ a, s.account? target.actor = some a ∧ a.authority? target.permission = some authority :=
  Option.bind_eq_some_iff

theorem isSome_of_validateDelegations {entries : List LevelWeight}
    (valid : s.validateDelegations entries = .ok ()) :
    ∀ entry ∈ entries, (s.authority? entry.level).isSome := by
  induction entries with
  | nil => exact List.forall_mem_nil _
  | cons entry rest ih =>
    simp only [validateDelegations, bind_eq_ok, ensure_eq_ok, exists_unit] at valid
    exact List.forall_mem_cons.mpr ⟨valid.1, ih valid.2⟩

theorem isSome_of_validateAuthority (valid : s.validateAuthority authority = .ok ()) :
    ∀ entry ∈ authority.accounts, (s.authority? entry.level).isSome := by
  simp only [validateAuthority, bind_eq_ok, ensure_eq_ok, exists_unit] at valid
  exact isSome_of_validateDelegations valid.2

/-- The authorities of an account that an action edits were there before, or come from the
action. -/
theorem authority?_of_edits {name : AccountName} {a a' : Account}
    (edits : Edits rules now action name a a') {permission : PermissionName}
    (found : a'.authority? permission = some authority) :
    a.authority? permission = some authority ∨
      ∃ parent, action = .updateAuthority name permission parent authority := by
  induction edits with
  | refl => exact .inl found
  | @tail b c _ last ih =>
    cases last with
    | @authorized _ touched parent new above =>
      simp only [Account.authority?, Std.ExtTreeMap.getElem?_insert] at found
      split at found
      next here =>
        obtain rfl := Std.LawfulEqOrd.eq_of_compare here
        cases found
        exact .inr ⟨parent, rfl⟩
      next => exact ih found
    | @dismissed _ touched =>
      simp only [Account.authority?, Std.ExtTreeMap.getElem?_erase] at found
      split at found
      next => cases found
      next => exact ih found
    | _ => exact ih found

section

variable [Crypto]

/-- What is stored new has been checked, and nothing is removed then. -/
theorem authority?_of_execute (h : s.execute rules now m action = .ok s')
    (found : s'.authority? holder = some authority) :
    s.authority? holder = some authority ∨
      (s.validateAuthority authority = .ok () ∧
        ∀ name permission, action ≠ .deleteAuthority name permission) := by
  obtain ⟨a', found', stored⟩ := authority?_eq_some.mp found
  have record := became_execute h holder.actor
  rw [found'] at record
  generalize before : s.account? holder.actor = r at record
  cases record with
  | opened opens =>
    right
    subst opens
    simp only [execute, Action.kind, ActionKind.managesAuthority, Bool.not_false, if_true,
      bind_eq_ok, exists_unit] at h
    obtain ⟨-, -, validOwner, validActive, validRecovery, -⟩ := newAccount_eq_ok.mp h.2
    refine ⟨?_, fun _ _ deletes => by cases deletes⟩
    simp only [Account.authority?, Account.make, Std.ExtTreeMap.getElem?_insert] at stored
    split at stored
    next =>
      cases stored
      exact validRecovery
    next =>
      split at stored
      next =>
        cases stored
        exact validActive
      next =>
        split at stored
        next =>
          cases stored
          exact validOwner
        next => simp at stored
  | @edited a _ edits =>
    rcases authority?_of_edits edits stored with old | ⟨parent, updates⟩
    · exact .inl (authority?_eq_some.mpr ⟨a, before, old⟩)
    · right
      subst updates
      obtain ⟨-, b, above, -, -, -, valid, -⟩ := updateAuthority_eq_ok.mp h
      exact ⟨valid, fun _ _ deletes => by cases deletes⟩

theorem authority?_of_applyMessage (h : s.applyMessage rules now keys m = .ok s')
    (found : s'.authority? holder = some authority) :
    s.authority? holder = some authority ∨
      (s.validateAuthority authority = .ok () ∧
        ∀ name permission, m.nativeAction? rules ≠ some (.deleteAuthority name permission)) := by
  rcases became_applyMessage h with ⟨-, rfl⟩ | ⟨action, carries, -⟩
  · exact .inl found
  · refine (authority?_of_execute (execute_of_applyMessage h carries) found).imp_right ?_
    rintro ⟨valid, keeps⟩
    refine ⟨valid, fun name permission deletes => keeps name permission ?_⟩
    exact Option.some.inj (carries.symm.trans deletes)

/-- No message but the one that removes it makes a permission vanish. -/
theorem deletes_of_vanished (h : s.applyMessage rules now keys m = .ok s')
    (there : (s.authority? target).isSome) (gone : s'.authority? target = none) :
    m.nativeAction? rules = some (.deleteAuthority target.actor target.permission) ∧
      target.permission ≠ owner ∧ target.permission ≠ active := by
  obtain ⟨authority, there⟩ := Option.isSome_iff_exists.mp there
  obtain ⟨a, found, stored⟩ := authority?_eq_some.mp there
  obtain ⟨a', found', spared⟩ := exists_permissions_of_applyMessage h found
  by_cases rewrites : m.Rewrites rules target.actor target.permission
  · rcases rewrites with ⟨parent, new, carries⟩ | carries
    · obtain ⟨-, b, above, -, -, -, -, rfl⟩ :=
        updateAuthority_eq_ok.mp (execute_of_applyMessage h carries)
      simp [authority?, account?_setAccount_self, Account.authority?] at gone
    · obtain ⟨notOwner, notActive, -⟩ :=
        deleteAuthority_eq_ok.mp (execute_of_applyMessage h carries)
      exact ⟨carries, notOwner, notActive⟩
  · have kept : a'.authority? target.permission = some authority := by
      rw [Account.authority?, spared _ rewrites]
      exact stored
    rw [authority?_eq_some.mpr ⟨a', found', kept⟩] at gone
    cases gone

theorem Founded.message (h : Founded rules log s)
    (done : s.applyMessage rules now keys m = .ok s') :
    Founded rules (⟨now, m, s, s'⟩ :: log) s' := by
  rintro holder target ⟨authority, found, entry, mem, rfl⟩ gone
  -- An authority that was there before lost its target now or earlier. A new one was checked
  -- against the state before the message, and a message that stores one removes nothing.
  rcases authority?_of_applyMessage done found with old | ⟨valid, keeps⟩
  · have delegates : s.resolver.Delegates holder entry.level := ⟨authority, old, entry, mem, rfl⟩
    have kept : s'.authority? holder = s.authority? holder := found.trans old.symm
    cases there : s.authority? entry.level with
    | none =>
      obtain ⟨⟨a, known⟩, orphaned⟩ := h holder entry.level delegates there
      obtain ⟨a', known', -⟩ := exists_permissions_of_applyMessage done known
      exact ⟨⟨a', known'⟩, .last orphaned gone kept⟩
    | some pointed =>
      obtain ⟨a, known, -⟩ := authority?_eq_some.mp there
      obtain ⟨a', known', -⟩ := exists_permissions_of_applyMessage done known
      have there : (s.authority? entry.level).isSome := Option.isSome_of_eq_some there
      obtain ⟨deletes, custom⟩ := deletes_of_vanished done there gone
      exact ⟨⟨a', known'⟩, .deleted deletes custom there delegates gone kept⟩
  · have there := isSome_of_validateAuthority valid entry mem
    exact absurd (deletes_of_vanished done there gone).1 (keeps _ _)

omit [Crypto] in
theorem Founded.of_accounts_eq (h : Founded rules log s) (same : t.accounts = s.accounts) :
    Founded rules log t := by
  have authorities : t.authority? = s.authority? := by
    funext level
    rw [authority?, authority?, account?, account?, same]
  rintro holder target ⟨authority, found, pointed⟩ gone
  have delegates : s.resolver.Delegates holder target :=
    ⟨authority, (congrFun authorities holder).symm.trans found, pointed⟩
  obtain ⟨known, orphaned⟩ := h holder target delegates (authorities ▸ gone)
  refine ⟨?_, orphaned⟩
  rw [account?, same]
  exact known

/-- The messages of the transactions that led from genesis to a state, the last one first. -/
inductive Course (rules : Rules) : List Deed → ChainState → Prop
  | genesis : Course rules [] (genesis rules)
  | transaction {now : Time} {log : List Deed} {s s' : ChainState} {trx : SignedTransaction}
      {keys : KeySet} (course : Course rules log s)
      (verified : trx.verifiedKeys rules.chainId = .ok keys)
      (applies : s.applyTransaction rules now trx = .ok s') :
      Course rules (ChainState.record rules now keys s log trx.transaction.messages) s'
  | head {log : List Deed} {s : ChainState} (course : Course rules log s) (header : BlockHeader) :
      Course rules log (s.advance header)

/-- What holds at genesis and each message keeps holds all along, if it is about neither the digests
of the applied transactions nor the head. -/
theorem Course.induction {kept : List Deed → ChainState → Prop}
    (start : kept [] (ChainState.genesis rules))
    (message : ∀ {now : Time} {keys : KeySet} {m : Message} {log : List Deed} {s s' : ChainState},
      kept log s → s.applyMessage rules now keys m = .ok s' → kept (⟨now, m, s, s'⟩ :: log) s')
    (applied : ∀ {log : List Deed} {s : ChainState} (digests : Std.ExtTreeSet Digest),
      kept log s → kept log { s with applied := digests })
    (advance : ∀ {log : List Deed} {s : ChainState} (header : BlockHeader),
      kept log s → kept log (s.advance header))
    (course : Course rules log s) : kept log s := by
  induction course with
  | genesis => exact start
  | transaction _ verified applies ih =>
    obtain ⟨-, -, -, keys, verified', t, run, rfl⟩ := applyTransaction_eq_ok.mp applies
    cases verified.symm.trans verified'
    exact applied _ (record_induction message ih run)
  | head _ header ih => exact advance header ih

/-- The one account of the genesis state is owned by a key. -/
theorem founded_genesis : Founded rules [] (genesis rules) := by
  rintro holder target ⟨authority, found, entry, mem, -⟩ -
  obtain ⟨a, opened, stored⟩ := authority?_eq_some.mp found
  have keyed : authority = .ofKey rules.config.genesisAccount.publicKey := by
    simp only [account?, genesis, Std.ExtTreeMap.getElem?_insert] at opened
    split at opened
    next =>
      cases opened
      simp only [Account.authority?, Account.make, Std.ExtTreeMap.getElem?_insert] at stored
      split at stored
      next => exact (Option.some.inj stored).symm
      next =>
        split at stored
        next => exact (Option.some.inj stored).symm
        next => simp at stored
    next => simp at opened
  simp [keyed, Authority.ofKey] at mem

theorem Course.founded (course : Course rules log s) : Founded rules log s :=
  course.induction founded_genesis Founded.message (fun _ h => h.of_accounts_eq rfl)
    fun _ h => h.of_accounts_eq rfl

theorem exists_course_of_applyTransactions {trxs : List SignedTransaction}
    (course : Course rules log s) (applies : s.applyTransactions rules now trxs = .ok s') :
    ∃ log', Course rules log' s' := by
  induction trxs generalizing log s with
  | nil =>
    cases applies
    exact ⟨log, course⟩
  | cons trx rest ih =>
    obtain ⟨t, once, applies⟩ := applyTransactions_cons_eq_ok.mp applies
    obtain ⟨-, -, -, keys, verified, -⟩ := applyTransaction_eq_ok.mp once
    exact ih (course.transaction verified once) applies

theorem Course.exists_change (course : Course rules log s) (c : Change) :
    ∃ log', Course rules log' (s.change rules c) := by
  cases c with
  | transaction now trx =>
    simp only [change]
    split
    next t applies =>
      obtain ⟨-, -, -, keys, verified, -⟩ := applyTransaction_eq_ok.mp applies
      exact ⟨_, course.transaction verified applies⟩
    next => exact ⟨log, course⟩
  | block b =>
    simp only [change]
    split
    next t applies =>
      obtain ⟨u, run, rfl⟩ := (follows_of_applyBlock applies).executes
      obtain ⟨log', course⟩ := exists_course_of_applyTransactions course run
      exact ⟨log', course.head b.header⟩
    next => exact ⟨log, course⟩
  | production maker time queue =>
    obtain ⟨log', course⟩ :=
      exists_course_of_applyTransactions course (applyTransactions_takeValid queue)
    exact ⟨log', course.head _⟩

theorem Course.exists_run (course : Course rules log s) (changes : List Change) :
    ∃ log', Course rules log' (s.run rules changes) := by
  induction changes generalizing log s with
  | nil => exact ⟨log, course⟩
  | cons c rest ih =>
    obtain ⟨log', course⟩ := course.exists_change c
    exact ih course

/-- Delegations dangle only where a permission was removed from under them. In every state that a
run of a chain can reach, whatever messages led there, an authority delegates to permissions that
are there, except for those that were removed while the very authority delegated to them. And the
evaluation of a permission that is there meets no unknown one but such. -/
theorem delegations_founded (reached : Reached rules s) :
    (∃ log, Course rules log s) ∧ ∀ log, Course rules log s → Founded rules log s ∧
      ∀ keys level missing, (s.authority? level).isSome →
        level.evaluate s.resolver keys = .error (.unknownLevel missing) →
        ∃ holder, Relation.ReflTransGen s.resolver.Delegates level holder ∧
          s.resolver.Delegates holder missing ∧ Orphaned rules holder missing log := by
  constructor
  · obtain ⟨changes, rfl⟩ := reached
    exact Course.genesis.exists_run changes
  · intro log course
    refine ⟨course.founded, fun keys level missing there fails => ?_⟩
    rw [Level.evaluate_eq] at fails
    obtain ⟨unknown, chain⟩ := Resolver.chain_of_judge_eq_unknown fails
    rcases Relation.ReflTransGen.cases_tail chain with same | ⟨holder, way, delegates⟩
    · rw [same] at unknown
      rw [show s.authority? level = none from unknown] at there
      cases there
    · exact ⟨holder, way, delegates, (course.founded holder missing delegates unknown).2⟩

end

section sample

attribute [local instance] checksum

def sampleTarget : Level := ⟨"init0", "till"⟩

def sampleHolder : Level := ⟨"bob", owner⟩

/-- One account enters a permission, and another account is opened that is owned by it. -/
def sampleReliance : List Message :=
  let asked := (∅ : LevelSet).insert (Level.active "init0")
  let key := Authority.ofKey sampleClerk
  let pointing : Authority := ⟨1, [], [⟨sampleTarget, 1⟩]⟩
  [(Action.updateAuthority "init0" "till" active key).toMessage "eos" asked,
    (Action.newAccount "init0" "bob" pointing key key ⟨5⟩).toMessage "eos" asked]

def sampleRemoval : Message :=
  (Action.deleteAuthority "init0" "till").toMessage "eos"
    ((∅ : LevelSet).insert (Level.active "init0"))

/-- The permission is removed by the one account, and the other one is not asked. -/
def sampleDangling : ChainState :=
  (genesis sampleRules).run sampleRules
    [.transaction .zero (sampleSigned sampleReliance),
      .transaction .zero (sampleSigned [sampleRemoval])]

theorem reached_sampleDangling : Reached sampleRules sampleDangling := ⟨_, rfl⟩

theorem sampleDangling_evaluate :
    (sampleDangling.authority? sampleHolder).map (·.accounts) = some [⟨sampleTarget, 1⟩] ∧
      sampleHolder.evaluate sampleDangling.resolver ∅ = .error (.unknownLevel sampleTarget) := by
  decide +kernel

/-- The new account is owned by a permission that was removed from under it. -/
theorem delegations_founded_sample :
    Reached sampleRules sampleDangling ∧
      ∃ log holder, Course sampleRules log sampleDangling ∧
        sampleDangling.resolver.Delegates holder sampleTarget ∧
        Orphaned sampleRules holder sampleTarget log := by
  obtain ⟨⟨log, course⟩, founded⟩ := delegations_founded reached_sampleDangling
  obtain ⟨entries, fails⟩ := sampleDangling_evaluate
  obtain ⟨authority, stored, -⟩ := Option.map_eq_some_iff.mp entries
  obtain ⟨holder, -, delegates, orphaned⟩ :=
    (founded log course).2 ∅ _ _ (Option.isSome_of_eq_some stored) fails
  exact ⟨reached_sampleDangling, log, holder, course, delegates, orphaned⟩

/-- Its authority names a permission that is not there, and its evaluation ends in an error. -/
theorem delegation_outlives_target :
    Reached sampleRules sampleDangling ∧
      sampleDangling.resolver.Delegates sampleHolder sampleTarget ∧
      sampleDangling.authority? sampleTarget = none ∧
      sampleHolder.evaluate sampleDangling.resolver ∅ = .error (.unknownLevel sampleTarget) := by
  obtain ⟨entries, fails⟩ := sampleDangling_evaluate
  obtain ⟨authority, stored, entries⟩ := Option.map_eq_some_iff.mp entries
  have entry : ⟨sampleTarget, 1⟩ ∈ authority.accounts := by simp [entries]
  have unknown := fails
  rw [Level.evaluate_eq] at unknown
  exact ⟨reached_sampleDangling, ⟨authority, stored, _, entry, rfl⟩,
    (Resolver.chain_of_judge_eq_unknown unknown).1, fails⟩

end sample

end ChainState

end ChainLab
