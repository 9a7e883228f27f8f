import ChainLab.Proofs.Branch
import ChainLab.Proofs.Consent
import ChainLab.Proofs.WalkAgreement

/-!
# More signatures

An evaluation visits every entry and only adds weight, whoever has signed. With more keys it fails
where it failed before, and otherwise its verdict can only turn from unmet to met. What a message
does never depends on the keys, so a transaction that is accepted is still accepted, with the same
outcome, when it carries further signatures.
-/

namespace ChainLab

/-- Two evaluations that fail alike, or the second of which answers at least what the first does. -/
inductive Raises {ε α : Type} [LE α] : Except ε α → Except ε α → Prop
  | failed (e : ε) : Raises (.error e) (.error e)
  | answered {a b : α} (le : a ≤ b) : Raises (.ok a) (.ok b)

theorem Raises.bind {ε α β : Type} [LE α] [LE β] {x y : Except ε α} {f g : α → Except ε β}
    (h : Raises x y) (next : ∀ {a b : α}, a ≤ b → Raises (f a) (g b)) :
    Raises (x >>= f) (y >>= g) := by
  cases h with
  | failed e => exact .failed e
  | answered le => exact next le

theorem Raises.eq_ok_true {ε : Type} {x y : Except ε Bool} (h : Raises x y) (met : x = .ok true) :
    y = .ok true := by
  subst met
  cases h with
  | answered le => rw [le rfl]

theorem Raises.eq_error_iff {ε α : Type} [LE α] {x y : Except ε α} (h : Raises x y) {e : ε} :
    x = .error e ↔ y = .error e := by
  cases h with
  | failed => rfl
  | answered => simp

variable {resolver : Resolver} {few many : KeySet}

theorem Authority.keyWeight_mono (more : ∀ key ∈ few, key ∈ many) (authority : Authority) :
    authority.keyWeight few ≤ authority.keyWeight many := by
  have kept : ∀ entry : KeyWeight, few.contains entry.key = true →
      many.contains entry.key = true := fun _ signed =>
    Std.ExtTreeSet.contains_iff_mem.mpr (more _ (Std.ExtTreeSet.contains_iff_mem.mp signed))
  exact ((authority.keys.monotone_filter_right kept).map _).sum_le_sum fun _ _ => Nat.zero_le _

theorem Authority.raises_reached (more : ∀ key ∈ few, key ∈ many) (authority : Authority)
    {gained gained' : Nat} (le : gained ≤ gained') :
    Raises (ε := AuthorityError)
      (.ok (decide (authority.threshold.toNat ≤ authority.keyWeight few + gained)))
      (.ok (decide (authority.threshold.toNat ≤ authority.keyWeight many + gained'))) := by
  refine .answered fun met => ?_
  have weight := authority.keyWeight_mono more
  have reached := of_decide_eq_true met
  exact decide_eq_true (by omega)

namespace Resolver

/-- Entries whose verdicts can only turn to met gain no less. -/
theorem raises_credit {path : List Level} {entries : List LevelWeight}
    (each : ∀ entry ∈ entries,
      Raises (resolver.judge few path entry.level) (resolver.judge many path entry.level)) :
    Raises (resolver.credit few path entries) (resolver.credit many path entries) := by
  induction entries with
  | nil => simpa using Raises.answered (Nat.le_refl 0)
  | cons entry rest ih =>
    obtain ⟨first, later⟩ := List.forall_mem_cons.mp each
    rw [credit_cons, credit_cons]
    refine first.bind fun {met met'} turned => (ih later).bind fun gained => .answered ?_
    have weighed : (if met then entry.weight.toNat else 0) ≤
        if met' then entry.weight.toNat else 0 := by
      cases met with
      | false => simp
      | true => simp [turned rfl]
    omega

theorem raises_judge (more : ∀ key ∈ few, key ∈ many) (path : List Level) (level : Level) :
    Raises (resolver.judge few path level) (resolver.judge many path level) := by
  induction path, level using resolver.judge_induction with
  | cyclic path level mem =>
    rw [judge_of_mem mem, judge_of_mem mem]
    exact .failed _
  | unknown path level off unknown =>
    rw [judge_of_unknown off unknown, judge_of_unknown off unknown]
    exact .failed _
  | found path level authority off found below =>
    rw [judge_of_found off found, judge_of_found off found]
    have entries := raises_credit fun entry (_ : entry ∈ authority.accounts) => below entry.level
    exact entries.bind fun le => authority.raises_reached more le

end Resolver

theorem Authority.raises_judge (more : ∀ key ∈ few, key ∈ many) (root : Authority) :
    Raises (root.judge resolver few) (root.judge resolver many) := by
  rw [judge_eq, judge_eq]
  have below : ∀ entry ∈ root.accounts,
      Raises (resolver.judge few [] entry.level) (resolver.judge many [] entry.level) :=
    fun entry _ => Resolver.raises_judge more [] entry.level
  exact (Resolver.raises_credit below).bind fun le => root.raises_reached more le

/-- With more keys an evaluation fails with the same error, or is met if it was. -/
theorem Level.raises_evaluate (more : ∀ key ∈ few, key ∈ many) (level : Level) :
    Raises (level.evaluate resolver few) (level.evaluate resolver many) := by
  rw [evaluate_eq, evaluate_eq]
  exact Resolver.raises_judge more [] level

theorem Authority.raises_evaluate (more : ∀ key ∈ few, key ∈ many) (root : Authority) :
    Raises (root.evaluate resolver few) (root.evaluate resolver many) := by
  rw [evaluate_eq, evaluate_eq]
  exact root.raises_judge more

namespace ChainState

variable {rules : Rules} {now : Time} {s s' : ChainState} {m : Message}

theorem checkAuthorization_mono (more : ∀ key ∈ few, key ∈ many)
    (h : checkAuthorization rules few m s = .ok ()) :
    checkAuthorization rules many m s = .ok () := by
  refine checkAuthorization_eq_ok.mpr fun level declared => ?_
  obtain ⟨a, found, known, covers, met⟩ :=
    checkLevel_eq_ok.mp (checkAuthorization_eq_ok.mp h level declared)
  exact checkLevel_eq_ok.mpr
    ⟨a, found, known, covers, (level.raises_evaluate more).eq_ok_true met⟩

section

variable [Crypto]

theorem applyMessages_mono {messages : List Message} (more : ∀ key ∈ few, key ∈ many)
    (h : s.applyMessages rules now few messages = .ok s') :
    s.applyMessages rules now many messages = .ok s' := by
  induction messages generalizing s with
  | nil => exact h
  | cons m rest ih =>
    simp only [applyMessages, bind_eq_ok, applyMessage_eq_ok] at h ⊢
    obtain ⟨t, ⟨checked, done⟩, later⟩ := h
    exact ⟨t, ⟨checkAuthorization_mono more checked, done⟩, ih later⟩

/-- Of two signed copies of a transaction whose signatures all verify, the one with more signers is
accepted wherever the other is, and leads to the same state. -/
theorem applyTransaction_of_more_signatures {x y : SignedTransaction}
    (same : x.transaction = y.transaction)
    (fewer : x.verifiedKeys rules.chainId = .ok few)
    (further : y.verifiedKeys rules.chainId = .ok many)
    (more : ∀ key ∈ few, key ∈ many)
    (accepted : s.applyTransaction rules now x = .ok s') :
    s.applyTransaction rules now y = .ok s' := by
  obtain ⟨fresh, alive, bound, keys, verified, t, run, rfl⟩ := applyTransaction_eq_ok.mp accepted
  cases fewer.symm.trans verified
  have digests : x.digest = y.digest := congrArg Transaction.digest same
  rw [same] at alive bound run
  rw [digests] at fresh ⊢
  exact applyTransaction_eq_ok.mpr
    ⟨fresh, alive, bound, many, further, t, applyMessages_mono more run, rfl⟩

end

section sample

attribute [local instance] checksum

/-- The same deal with a further signature, by a key that nothing asks for. -/
def sampleSignedDeal : SignedTransaction :=
  { sampleDeal with
    signatures := sampleDeal.signatures ++ [(⟨Vector.replicate 32 1⟩, ⟨Bytes.zero 64⟩)] }

theorem applyTransaction_of_more_signatures_sample :
    ∃ few many s', sampleDeal.verifiedKeys sampleRules.chainId = .ok few ∧
      sampleSignedDeal.verifiedKeys sampleRules.chainId = .ok many ∧
      (∀ key ∈ few, key ∈ many) ∧ few ≠ many ∧
      sampleStart.applyTransaction sampleRules .zero sampleDeal = .ok s' ∧
      sampleStart.applyTransaction sampleRules .zero sampleSignedDeal = .ok s' := by
  obtain ⟨s', accepted⟩ :
      ∃ s', sampleStart.applyTransaction sampleRules .zero sampleDeal = .ok s' :=
    exists_eq_ok_iff.mpr (by decide +kernel)
  obtain ⟨few, fewer⟩ : ∃ few, sampleDeal.verifiedKeys sampleRules.chainId = .ok few := ⟨_, rfl⟩
  obtain ⟨many, further⟩ : ∃ many, sampleSignedDeal.verifiedKeys sampleRules.chainId = .ok many :=
    ⟨_, rfl⟩
  have more : ∀ key ∈ few, key ∈ many := by
    cases fewer
    cases further
    exact fun key signed => Std.ExtTreeSet.mem_insert.mpr (.inr signed)
  have apart : few ≠ many := by
    cases fewer
    cases further
    intro same
    have member := congrArg (·.contains ⟨Vector.replicate 32 1⟩) same
    revert member
    decide +kernel
  have same : sampleDeal.transaction = sampleSignedDeal.transaction := rfl
  exact ⟨few, many, s', fewer, further, more, apart, accepted,
    applyTransaction_of_more_signatures same fewer further more accepted⟩

end sample

end ChainState

end ChainLab
