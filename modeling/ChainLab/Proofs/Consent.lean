import ChainLab.Proofs.ActionEffects
import ChainLab.Proofs.Preimage
import Mathlib.Logic.Relation

/-!
# Accounts change by consent

Whoever is not the actor of an action can only gain from it, and whoever is has
consented: some declared permission of the actor is met, and covers the message.
-/

namespace ChainLab

namespace Account

/-- `above` is the permission itself or one of its ancestors. -/
def Covers (a : Account) (above permission : PermissionName) : Prop :=
  Relation.ReflTransGen (fun child parent => a.parent? child = some parent) permission above

variable {a : Account}

theorem covers_of_reaches {declared permission : PermissionName} {bound : Nat}
    (h : a.reaches declared bound (some permission) = true) : a.Covers declared permission := by
  induction bound generalizing permission with
  | zero => cases h
  | succ bound ih =>
    simp only [reaches, Bool.or_eq_true, decide_eq_true_eq] at h
    rcases h with rfl | higher
    · exact .refl
    · cases parent : a.parent? permission with
      | none =>
        rw [parent] at higher
        cases bound <;> cases higher
      | some next =>
        rw [parent] at higher
        exact .head parent (ih higher)

end Account

theorem Action.kind_of_ofJson? {kind : ActionKind} {json : Json} {action : Action}
    (h : Action.ofJson? kind json = some action) : action.kind = kind := by
  cases kind <;> simp only [ofJson?, bind, Option.bind_eq_some_iff] at h <;>
    obtain ⟨fields, -, h⟩ := h <;> split at h <;>
    simp only [Option.bind_eq_some_iff, Option.some.injEq, reduceCtorEq] at h
  all_goals grind [Action.kind]

/-- Whether a message manages authority can be told from the action it carries. -/
theorem managesAuthority_of_nativeAction? {rules : Rules} {m : Message} {action : Action}
    (h : m.nativeAction? rules = some action) :
    ChainState.managesAuthority rules m = action.kind.managesAuthority := by
  unfold Message.nativeAction? at h
  split at h
  next native =>
    obtain ⟨kind, hkind, h⟩ := Option.bind_eq_some_iff.mp h
    obtain ⟨json, -, h⟩ := Option.bind_eq_some_iff.mp h
    simp [ChainState.managesAuthority, native, hkind, Action.kind_of_ofJson? h]
  next => cases h

namespace ChainState

/-- The actor of an action has agreed to the message: it declared a permission that it
has, that the keys meet, and that covers what the message requires, unless the action
chooses its requirement by itself. -/
def Consented (keys : KeySet) (m : Message) (action : Action) (s : ChainState) : Prop :=
  ∃ a p, s.account? action.actor = some a ∧ ⟨action.actor, p⟩ ∈ m.authorizations ∧
    p ∈ a.permissions ∧ Level.evaluate s.resolver keys ⟨action.actor, p⟩ = .ok true ∧
    (action.kind.managesAuthority = false → a.Covers p (a.minimumPermission m.contract m.type))

/-- An account that is there stays, has at most gained, and its producer entry is the same. -/
def Spared (name : AccountName) (s s' : ChainState) : Prop :=
  ∀ a, s.account? name = some a →
    (∃ a', s'.account? name = some a' ∧ a.Gained a') ∧ s'.producer? name = s.producer? name

variable {rules : Rules} {now : Time} {keys : KeySet} {s s' t : ChainState} {m : Message}
  {name other : AccountName} {a : Account} {action : Action}

theorem Spared.refl : Spared name s s := fun a ha => ⟨⟨a, ha, .refl⟩, rfl⟩

theorem Spared.trans (h : Spared name s t) (h' : Spared name t s') : Spared name s s' := by
  intro a ha
  obtain ⟨⟨b, hb, gained⟩, producer⟩ := h a ha
  obtain ⟨⟨c, hc, further⟩, producer'⟩ := h' b hb
  exact ⟨⟨c, hc, gained.trans further⟩, producer'.trans producer⟩

theorem spared_setAccount_of_ne (h : name ≠ other) : Spared other s (s.setAccount name a) :=
  fun b hb => ⟨⟨b, (account?_setAccount_of_ne h).trans hb, .refl⟩, rfl⟩

theorem spared_setAccount_of_gained {b : Account} (hb : s.account? name = some b)
    (gained : b.Gained a) : Spared other s (s.setAccount name a) := by
  by_cases same : name = other
  · subst same
    intro c hc
    cases hb.symm.trans hc
    exact ⟨⟨a, account?_setAccount_self, gained⟩, rfl⟩
  · exact spared_setAccount_of_ne same

theorem spared_setProducer {producer : Producer} (apart : name ≠ other) :
    Spared other s (s.setProducerEntry name producer) := by
  intro a ha
  refine ⟨⟨a, ha, .refl⟩, ?_⟩
  simp [producer?, setProducerEntry, Std.ExtTreeMap.getElem?_insert, apart]

/-- Whoever is not the actor is spared by what is written. -/
theorem Written.spared (h : Written name s s') (apart : name ≠ other) : Spared other s s' := by
  induction h with
  | nothing => exact .refl
  | own _ _ ih => exact ih.trans (spared_setAccount_of_ne apart)
  | gain _ found gained ih => exact ih.trans (spared_setAccount_of_gained found gained)
  | @opened _ fresh a _ free ih =>
    by_cases same : fresh = other
    · intro b hb
      rw [← same, free] at hb
      cases hb
    · exact ih.trans (spared_setAccount_of_ne same)
  | produces _ _ ih => exact ih.trans (spared_setProducer apart)

theorem checkLevel_eq_ok {level : Level} :
    checkLevel rules keys m s level = .ok () ↔
      ∃ a, s.account? level.actor = some a ∧ level.permission ∈ a.permissions ∧
        (managesAuthority rules m = true ∨
          a.satisfies level.permission (a.minimumPermission m.contract m.type) = true) ∧
        level.evaluate s.resolver keys = .ok true := by
  simp only [checkLevel, bind_eq_ok, requireAccount_eq_ok]
  refine exists_congr fun a => and_congr_right fun _ => ?_
  by_cases known : level.permission ∈ a.permissions
  · cases manages : managesAuthority rules m <;>
      cases covers : a.satisfies level.permission (a.minimumPermission m.contract m.type) <;>
      rcases verdict : level.evaluate s.resolver keys with e | met | met <;>
      simp [known]
  · simp [known]

theorem checkAuthorization_eq_ok :
    checkAuthorization rules keys m s = .ok () ↔
      ∀ level ∈ m.authorizations, checkLevel rules keys m s level = .ok () := by
  have each : ∀ levels, checkLevels rules keys m s levels = .ok () ↔
      ∀ level ∈ levels, checkLevel rules keys m s level = .ok () := by
    intro levels
    induction levels with
    | nil => simp [checkLevels]
    | cons level rest ih => simp [checkLevels, ih]
  simp only [checkAuthorization, each, Std.ExtTreeSet.mem_toList]

section

variable [Crypto]

/-- An action is only carried out for an actor that declared a level, either because
the action asks for one or because it asks for a permission. -/
theorem declared_of_execute (h : s.execute rules now m action = .ok s') :
    ∃ level ∈ m.authorizations, level.actor = action.actor := by
  have asked : ∀ {actor}, requireActor m actor = .ok () →
      ∃ level ∈ m.authorizations, level.actor = actor := by
    intro actor h
    unfold requireActor at h
    split at h
    next declared => simpa using declared
    next => cases h
  have required : ∀ {actor permission}, requirePermission m s actor permission = .ok () →
      ∃ level ∈ m.authorizations, level.actor = actor := by
    intro actor permission h
    obtain ⟨a, -, level, declared, same, -⟩ := requirePermission_eq_ok.mp h
    exact ⟨level, declared, same⟩
  cases action <;>
    simp only [execute, Action.kind, ActionKind.managesAuthority, Action.actor, Bool.not_true,
      Bool.not_false, Bool.false_eq_true, if_false, if_true, bind_eq_ok, exists_unit] at h ⊢
  case updateAuthority account permission parent authority =>
    obtain ⟨-, a, _, -, -, h, -⟩ := updateAuthority_eq_ok.mp h
    exact required h
  case deleteAuthority account permission =>
    obtain ⟨-, -, a, _, -, -, -, h, -⟩ := deleteAuthority_eq_ok.mp h
    exact required h
  case linkAuthority account contract type requirement =>
    exact required (linkAuthority_eq_ok.mp h).1
  case unlinkAuthority account contract type =>
    exact required (unlinkAuthority_eq_ok.mp h).1
  all_goals exact asked h.1

theorem consented_of_applyMessage (h : s.applyMessage rules now keys m = .ok s')
    (carries : m.nativeAction? rules = some action) : s.Consented keys m action := by
  obtain ⟨checked, h⟩ := applyMessage_eq_ok.mp h
  rcases dispatch_eq_ok.mp h with ⟨foreign, -⟩ | ⟨action', carries', h⟩
  · simp [Message.nativeAction?, foreign] at carries
  · cases carries.symm.trans carries'
    obtain ⟨level, declared, same⟩ := declared_of_execute h
    obtain ⟨a, ha, known, covers, met⟩ :=
      checkLevel_eq_ok.mp (checkAuthorization_eq_ok.mp checked level declared)
    obtain ⟨actor, p⟩ := level
    subst same
    refine ⟨a, p, ha, declared, known, met, fun asks => ?_⟩
    rw [managesAuthority_of_nativeAction? carries, asks] at covers
    exact Account.covers_of_reaches (covers.resolve_left (by simp))

theorem spared_applyMessage (h : s.applyMessage rules now keys m = .ok s')
    (apart : ∀ action, m.nativeAction? rules = some action → action.actor ≠ name) :
    Spared name s s' := by
  rcases dispatch_eq_ok.mp (applyMessage_eq_ok.mp h).2 with ⟨-, -, rfl⟩ | ⟨action, carries, h⟩
  · exact .refl
  · exact (written_execute h).spared (apart action carries)

theorem spared_applyMessages {messages : List Message}
    (h : s.applyMessages rules now keys messages = .ok s')
    (apart : ∀ m ∈ messages, ∀ action, m.nativeAction? rules = some action → action.actor ≠ name) :
    Spared name s s' := by
  induction messages generalizing s with
  | nil =>
    cases h
    exact .refl
  | cons m rest ih =>
    simp only [applyMessages, bind_eq_ok] at h
    obtain ⟨t, first, h⟩ := h
    exact (spared_applyMessage first (apart m List.mem_cons_self)).trans
      (ih h fun m' hm' => apart m' (List.mem_cons_of_mem m hm'))

/-- An accepted transaction spares every account that acts in none of its native messages,
and whoever acts in one has consented in the state just before it. -/
theorem applyTransaction_needs_consent {trx : SignedTransaction}
    (h : s.applyTransaction rules now trx = .ok s') :
    (∀ name, (∀ m ∈ trx.transaction.messages, ∀ action,
        m.nativeAction? rules = some action → action.actor ≠ name) → Spared name s s') ∧
      ∃ keys, trx.verifiedKeys rules.chainId = .ok keys ∧
        ∀ before m after action, trx.transaction.messages = before ++ m :: after →
          m.nativeAction? rules = some action →
          ∃ t, s.applyMessages rules now keys before = .ok t ∧ t.Consented keys m action := by
  obtain ⟨-, -, -, keys, verified, t, run, rfl⟩ := applyTransaction_eq_ok.mp h
  refine ⟨fun name apart a ha => spared_applyMessages run apart a ha, keys, verified, ?_⟩
  intro before m after action split carries
  rw [split] at run
  obtain ⟨u, reached, run⟩ := applyMessages_append.mp run
  simp only [applyMessages, bind_eq_ok] at run
  obtain ⟨v, step, -⟩ := run
  exact ⟨u, reached, consented_of_applyMessage step carries⟩

end

section sample

attribute [local instance] checksum

def sampleRules : Rules := ⟨Bytes.zero 32, sampleConfig⟩

def sampleKey : Authority := .ofKey sampleConfig.genesisAccount.publicKey

def sampleStart : ChainState :=
  (genesis sampleRules).setAccount "bob" (Account.make "bob" sampleKey sampleKey .zero)

def sampleOpening : Message :=
  (Action.newAccount "init0" "alice" sampleKey sampleKey sampleKey ⟨100⟩).toMessage "eos"
    ((∅ : LevelSet).insert (Level.owner "init0"))

def sampleRent : Message :=
  (Action.transfer "alice" "bob" ⟨5⟩ "rent").toMessage "eos"
    ((∅ : LevelSet).insert (Level.active "alice"))

/-- An account is opened and pays a third one, in one transaction. -/
def sampleDeal : SignedTransaction :=
  ⟨⟨⟨100⟩, 0, sampleStart.head.id.refTag, [sampleOpening, sampleRent]⟩,
    [(sampleConfig.genesisAccount.publicKey, ⟨Bytes.zero 64⟩)]⟩

theorem applyTransaction_needs_consent_sample :
    ∃ s', sampleStart.applyTransaction sampleRules .zero sampleDeal = .ok s' ∧
      Spared "bob" sampleStart s' ∧
      ∃ keys t, sampleStart.applyMessages sampleRules .zero keys [sampleOpening] = .ok t ∧
        t.Consented keys sampleRent (.transfer "alice" "bob" ⟨5⟩ "rent") := by
  have accepted : (sampleStart.applyTransaction sampleRules .zero sampleDeal).isOk = true := by
    decide +kernel
  cases h : sampleStart.applyTransaction sampleRules .zero sampleDeal with
  | error error =>
    rw [h] at accepted
    cases accepted
  | ok s' =>
    obtain ⟨spares, keys, -, consents⟩ := applyTransaction_needs_consent h
    have opening : sampleOpening.nativeAction? sampleRules =
        some (.newAccount "init0" "alice" sampleKey sampleKey sampleKey ⟨100⟩) := by
      decide +kernel
    have rent : sampleRent.nativeAction? sampleRules =
        some (.transfer "alice" "bob" ⟨5⟩ "rent") := by
      decide +kernel
    refine ⟨s', rfl, spares "bob" ?_, keys, consents [sampleOpening] sampleRent [] _ rfl rent⟩
    intro m hm action carries
    simp only [sampleDeal, List.mem_cons, List.not_mem_nil, or_false] at hm
    rcases hm with rfl | rfl
    · cases opening.symm.trans carries
      decide
    · cases rent.symm.trans carries
      decide

end sample

end ChainState

end ChainLab
