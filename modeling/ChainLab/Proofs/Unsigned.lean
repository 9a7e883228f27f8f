import ChainLab.Proofs.Consent
import ChainLab.Proofs.ReachedState

/-!
# Nothing without a signature

A delegation only passes on what keys have met somewhere. As long as no authority has enough
weight from keys alone, all verdicts of a walk are against, so no authority on its stack ever
gains anything, whatever the delegations look like. Authorities that are stored ask for
something, so without keys this is always so.

A transaction without signatures can then declare no level, and every action asks for one.
-/

namespace ChainLab

variable {resolver : Resolver} {signatures : KeySet}

/-- The keys alone meet no authority. -/
def Resolver.OutOfReach (resolver : Resolver) (signatures : KeySet) : Prop :=
  ∀ level authority, resolver.find? level = some authority →
    authority.keyWeight signatures < authority.threshold.toNat

@[simp] theorem Authority.keyWeight_empty (authority : Authority) :
    authority.keyWeight ∅ = 0 := by
  simp [keyWeight, total]

namespace Walk

/-- No authority on the stack has enough weight, and no permission was found to be met. -/
structure Unmet (walk : Walk) : Prop where
  short : ∀ f ∈ walk.stack, f.satisfied < f.authority.threshold.toNat
  refused : ∀ (level : Level) (met : Bool), walk.verdicts[level]? = some met → met = false

/-- The walk goes on like this, or it ends with a refusal or an error. -/
def Outcome.Unmet : Outcome → Prop
  | .running next => next.Unmet
  | .finished met => met = false
  | .failed _ => True

@[simp] theorem credit_false {weight : UInt32} {f : Frame} : credit false weight f = f := rfl

theorem Unmet.start {level : Option Level} {root : Authority}
    (short : root.keyWeight signatures < root.threshold.toNat) :
    (start signatures level root).Unmet where
  short f mem := by
    cases List.mem_singleton.mp mem
    exact short
  refused level met found := by simp [Walk.start] at found

theorem Unmet.step {walk : Walk} (apart : resolver.OutOfReach signatures) (h : walk.Unmet) :
    (walk.step resolver signatures).Unmet := by
  obtain ⟨stack, onPath, verdicts⟩ := walk
  obtain ⟨short, refused⟩ := h
  cases stack with
  | nil => rfl
  | cons top below =>
    obtain ⟨short, rest⟩ := List.forall_mem_cons.mp short
    cases next : top.remaining with
    | cons entry remaining =>
      have skipped : ∀ f ∈ { top with remaining := remaining } :: below,
          f.satisfied < f.authority.threshold.toNat := List.forall_mem_cons.mpr ⟨short, rest⟩
      simp only [Walk.step, next]
      split
      case isTrue cyclic => trivial
      case isFalse off =>
        split
        next met verdict =>
          cases refused _ _ verdict
          exact ⟨skipped, refused⟩
        next =>
          split
          · trivial
          next authority found =>
            exact ⟨List.forall_mem_cons.mpr ⟨apart _ _ found, skipped⟩, refused⟩
    | nil =>
      -- An authority is left with the weight that it was entered with.
      have unmet : decide (top.authority.threshold.toNat ≤ top.satisfied) = false :=
        decide_eq_false (Nat.not_le.mpr short)
      simp only [Walk.step, next, unmet]
      cases below with
      | nil => rfl
      | cons parent below =>
        cases top.level with
        | none => exact ⟨rest, refused⟩
        | some left =>
          refine ⟨rest, ?_⟩
          intro level met found
          rw [Std.ExtTreeMap.getElem?_insert] at found
          split at found
          · cases found
            rfl
          · exact refused level met found

theorem Unmet.run {walk : Walk} {fuel : Nat} (apart : resolver.OutOfReach signatures)
    (h : walk.Unmet) : walk.run resolver signatures fuel ≠ .ok true := by
  induction fuel generalizing walk with
  | zero => simp [Walk.run]
  | succ fuel ih =>
    have outcome := h.step apart
    rw [Walk.run]
    generalize walk.step resolver signatures = o at outcome
    cases o with
    | running next => exact ih outcome
    | finished met =>
      cases outcome
      simp
    | failed error => simp

end Walk

/-- Where no authority is met by keys alone, none is met by way of delegations. -/
theorem Level.evaluate_ne_true {level : Level} (apart : resolver.OutOfReach signatures) :
    level.evaluate resolver signatures ≠ .ok true := by
  rw [evaluate]
  split
  · simp
  next root found => exact (Walk.Unmet.start (apart level root found)).run apart

namespace ChainState

variable {rules : Rules} {now : Time} {s s' : ChainState} {m : Message}

theorem Trees.outOfReach (trees : s.Trees) : s.resolver.OutOfReach ∅ := by
  intro level authority found
  obtain ⟨a, account, found⟩ := Option.bind_eq_some_iff.mp found
  obtain ⟨p, permission, rfl⟩ := Option.map_eq_some_iff.mp found
  have positive := (trees level.actor a account).threshold_pos level.permission p permission
  rw [Authority.keyWeight_empty]
  exact positive

section

variable [Crypto]

/-- Without keys a message can declare nothing, and then it does nothing. -/
theorem eq_of_applyMessage_unsigned (trees : s.Trees)
    (h : s.applyMessage rules now ∅ m = .ok s') : s' = s := by
  obtain ⟨checked, done⟩ := applyMessage_eq_ok.mp h
  rcases dispatch_eq_ok.mp done with ⟨-, -, same⟩ | ⟨action, -, done⟩
  · exact same
  · obtain ⟨level, declared, -⟩ := declared_of_execute done
    obtain ⟨-, -, -, -, met⟩ :=
      checkLevel_eq_ok.mp (checkAuthorization_eq_ok.mp checked level declared)
    exact absurd met (Level.evaluate_ne_true trees.outOfReach)

theorem eq_of_applyMessages_unsigned {messages : List Message} (trees : s.Trees)
    (h : s.applyMessages rules now ∅ messages = .ok s') : s' = s := by
  induction messages generalizing s with
  | nil =>
    cases h
    rfl
  | cons m rest ih =>
    simp only [applyMessages, bind_eq_ok] at h
    obtain ⟨t, once, later⟩ := h
    cases eq_of_applyMessage_unsigned trees once
    exact ih trees later

/-- In a reached state no level is met without signatures, and an accepted transaction that
has none leaves everything as it was, but for its digest among those applied. -/
theorem nothing_without_signature (reached : Reached rules s) :
    (∀ level : Level, level.evaluate s.resolver ∅ ≠ .ok true) ∧
      ∀ now trx s', trx.signatures = [] → s.applyTransaction rules now trx = .ok s' →
        s' = { s with applied := s.applied.insert trx.digest } := by
  refine ⟨fun level => Level.evaluate_ne_true reached.trees.outOfReach, ?_⟩
  intro now trx s' unsigned accepted
  obtain ⟨-, -, -, keys, verified, t, run, rfl⟩ := applyTransaction_eq_ok.mp accepted
  rw [SignedTransaction.verifiedKeys, unsigned] at verified
  cases verified
  cases eq_of_applyMessages_unsigned reached.trees run
  rfl

end

section sample

attribute [local instance] checksum

/-- A visit to a contract that nobody has declared. -/
def sampleVisit : SignedTransaction :=
  ⟨⟨⟨100⟩, 0, (genesis sampleRules).head.id.refTag, [⟨"init0", ∅, "visit", []⟩]⟩, []⟩

theorem nothing_without_signature_sample :
    Reached sampleRules (genesis sampleRules) ∧
      (Level.owner "init0").evaluate (genesis sampleRules).resolver ∅ ≠ .ok true ∧
      ∃ s', (genesis sampleRules).applyTransaction sampleRules .zero sampleVisit = .ok s' ∧
        s' = { genesis sampleRules with
          applied := (genesis sampleRules).applied.insert sampleVisit.digest } := by
  obtain ⟨s', accepted⟩ : ∃ s',
      (genesis sampleRules).applyTransaction sampleRules .zero sampleVisit = .ok s' :=
    exists_eq_ok_iff.mpr (by decide +kernel)
  have reached : Reached sampleRules (genesis sampleRules) := .genesis
  obtain ⟨unmet, unchanged⟩ := nothing_without_signature reached
  exact ⟨reached, unmet _, s', accepted, unchanged _ _ _ rfl accepted⟩

end sample

end ChainState

end ChainLab
