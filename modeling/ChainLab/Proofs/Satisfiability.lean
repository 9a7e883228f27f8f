import ChainLab.Proofs.MapSum
import ChainLab.Proofs.SoughtKeys

/-!
# Who can meet an authority

An authority is called satisfiable if the weights of all its entries reach its threshold. No entry
counts twice, however often the walk comes across what it points at, so an authority that is met is
satisfiable. The converse needs more than the authority itself: if whatever its account entries
lead to is there, leads to no cycle and is satisfiable, all keys listed on the way meet it.
-/

namespace ChainLab

open Relation (ReflTransGen)

variable {resolver : Resolver} {signatures : KeySet} {path : List Level}

namespace Authority

variable {a root : Authority}

theorem satisfiable_eq_true :
    a.satisfiable = true ↔ 0 < a.threshold ∧ a.threshold.toNat ≤ a.totalWeight := by
  simp [satisfiable]

/-- A key entry counts at most once. -/
theorem keyWeight_le (a : Authority) (signatures : KeySet) :
    a.keyWeight signatures ≤ (a.keys.map (·.weight.toNat)).sum :=
  (List.filter_sublist.map _).sum_le_sum fun _ _ => Nat.zero_le _

theorem keyWeight_of_signed (signed : ∀ key, a.Lists key → key ∈ signatures) :
    a.keyWeight signatures = (a.keys.map (·.weight.toNat)).sum := by
  have all : (a.keys.filter fun entry => signatures.contains entry.key) = a.keys := by
    apply List.filter_eq_self.mpr
    intro entry mem
    exact Std.ExtTreeSet.contains_iff_mem.mpr (signed entry.key ⟨entry, mem, rfl⟩)
  rw [keyWeight, all, total_eq_sum]

/-- How many entries an authority has. -/
def size (a : Authority) : Nat := a.keys.length + a.accounts.length

/-- No weight takes more than 32 bits, so 64 bits hold the sum of all of them. -/
theorem totalWeight_lt (few : a.size < UInt32.size) : a.totalWeight < UInt64.size := by
  have keys := List.sum_le_card_nsmul (a.keys.map (·.weight.toNat)) (UInt32.size - 1)
    (List.forall_mem_map.mpr fun entry _ => Nat.le_sub_one_of_lt entry.weight.toNat_lt)
  have accounts := List.sum_le_card_nsmul (a.accounts.map (·.weight.toNat)) (UInt32.size - 1)
    (List.forall_mem_map.mpr fun entry _ => Nat.le_sub_one_of_lt entry.weight.toNat_lt)
  rw [List.length_map, Nat.nsmul_eq_mul] at keys accounts
  simp only [size, UInt32.size] at few keys accounts
  simp only [totalWeight, total_eq_sum, UInt64.size]
  omega

end Authority

namespace Resolver

variable {level : Level} {entries : List LevelWeight}

/-- An account entry counts at most once. -/
theorem credit_le {gained : Nat} (h : resolver.credit signatures path entries = .ok gained) :
    gained ≤ (entries.map (·.weight.toNat)).sum := by
  induction entries generalizing gained with
  | nil =>
    rw [credit_nil] at h
    cases h
    exact Nat.le_refl 0
  | cons entry rest ih =>
    simp only [credit_cons, bind_eq_ok, pure_eq_ok] at h
    obtain ⟨met, -, more, credited, rfl⟩ := h
    have later := ih credited
    rw [List.map_cons, List.sum_cons]
    split <;> omega

theorem credit_of_met
    (met : ∀ entry ∈ entries, resolver.judge signatures path entry.level = .ok true) :
    resolver.credit signatures path entries = .ok (entries.map (·.weight.toNat)).sum := by
  induction entries with
  | nil => exact credit_nil
  | cons entry rest ih =>
    obtain ⟨first, later⟩ := List.forall_mem_cons.mp met
    rw [credit_cons, first, ih later]
    rfl

/-- With all of its keys signed and all of its account entries met, a satisfiable authority is
met. -/
theorem reached_of_met {a : Authority} (satisfiable : a.satisfiable = true)
    (signed : ∀ key, a.Lists key → key ∈ signatures)
    (met : ∀ entry ∈ a.accounts, resolver.judge signatures path entry.level = .ok true) :
    (do
      let gained ← resolver.credit signatures path a.accounts
      return decide (a.threshold.toNat ≤ a.keyWeight signatures + gained)) = Except.ok true := by
  obtain ⟨-, enough⟩ := Authority.satisfiable_eq_true.mp satisfiable
  rw [credit_of_met met, Authority.keyWeight_of_signed signed]
  exact congrArg Except.ok (decide_eq_true enough)

/-- The permission and all that account entries lead to from it are satisfiable. -/
def Satisfiable (resolver : Resolver) (level : Level) : Prop :=
  ∀ reached authority, ReflTransGen resolver.Delegates level reached →
    resolver.find? reached = some authority → authority.satisfiable = true

/-- What can be judged at all is met by the keys it asks for. -/
theorem judge_of_satisfiable {met : Bool} (judged : resolver.judge signatures path level = .ok met)
    (satisfiable : resolver.Satisfiable level)
    (signed : ∀ key, resolver.Seeks level key → key ∈ signatures) :
    resolver.judge signatures path level = .ok true := by
  induction path, level using resolver.judge_induction generalizing met with
  | cyclic path level mem =>
    rw [judge_of_mem mem] at judged
    cases judged
  | unknown path level off unknown =>
    rw [judge_of_unknown off unknown] at judged
    cases judged
  | found path level authority off found below =>
    rw [judge_of_found off found] at judged ⊢
    obtain ⟨gained, credited, -⟩ := bind_eq_ok.mp judged
    apply reached_of_met (satisfiable level authority .refl found)
    · intro key lists
      exact signed key ⟨level, authority, .refl, found, lists⟩
    · intro entry mem
      obtain ⟨met, judged⟩ := exists_of_credit_eq_ok credited entry mem
      have delegates : resolver.Delegates level entry.level := ⟨authority, found, entry, mem, rfl⟩
      apply below entry.level judged
      · exact fun reached other chain => satisfiable reached other (.head delegates chain)
      · exact fun key seeks => signed key (seeks_of_entry found mem seeks)

end Resolver

namespace Authority

variable {root : Authority}

theorem satisfiable_of_judge_eq_true (positive : 0 < root.threshold)
    (met : root.judge resolver signatures = .ok true) : root.satisfiable = true := by
  rw [judge_eq] at met
  obtain ⟨gained, credited, enough⟩ := bind_eq_ok.mp met
  have reached : root.threshold.toNat ≤ root.keyWeight signatures + gained :=
    of_decide_eq_true (pure_eq_ok.mp enough)
  have keys := root.keyWeight_le signatures
  have accounts := Resolver.credit_le credited
  apply satisfiable_eq_true.mpr
  refine ⟨positive, ?_⟩
  rw [totalWeight, total_eq_sum, total_eq_sum]
  omega

theorem judge_of_satisfiable
    (sound : ∀ level, root.Reaches resolver level → ¬ resolver.Malformed level)
    (satisfiable : root.satisfiable = true)
    (below : ∀ level authority, root.Reaches resolver level →
      resolver.find? level = some authority → authority.satisfiable = true)
    (signed : ∀ key, root.Seeks resolver key → key ∈ signatures) :
    root.judge resolver signatures = .ok true := by
  rw [judge_eq]
  apply Resolver.reached_of_met satisfiable
  · exact fun key lists => signed key (.inl lists)
  · intro entry mem
    have leads : ∀ level, ReflTransGen resolver.Delegates entry.level level →
        root.Reaches resolver level := fun level chain => ⟨entry, mem, chain⟩
    cases judged : resolver.judge signatures [] entry.level with
    | error error =>
      obtain ⟨level, chain, malformed⟩ := Resolver.judge_eq_error_iff.mp ⟨error, judged⟩
      exact absurd malformed (sound level (leads level chain))
    | ok met =>
      rw [← judged]
      apply Resolver.judge_of_satisfiable judged
      · exact fun level authority chain => below level authority (leads level chain)
      · rintro key ⟨level, authority, chain, found, lists⟩
        exact signed key (.inr ⟨level, authority, leads level chain, found, lists⟩)

end Authority

namespace Walk

variable {walk next : Walk} {verdicts : Std.ExtTreeMap Level Bool} {walked : List LevelWeight}
  {stack : List Frame}

/-- One walk comes a step after another one. -/
def Goes (resolver : Resolver) (signatures : KeySet) (walk next : Walk) : Prop :=
  walk.step resolver signatures = .running next

theorem Sound.goes (h : Sound resolver signatures walk)
    (goes : Goes resolver signatures walk next) : Sound resolver signatures next := by
  have right := step_right h
  rw [goes] at right
  exact right.1

theorem Sound.goesOn (h : Sound resolver signatures walk)
    (goes : ReflTransGen (Goes resolver signatures) walk next) :
    Sound resolver signatures next := by
  induction goes with
  | refl => exact h
  | tail _ last ih => exact ih.goes last

theorem gained_le {entry : LevelWeight} : gained verdicts entry ≤ entry.weight.toNat := by
  unfold gained
  split
  · exact Nat.le_refl _
  · exact Nat.zero_le _

/-- What an authority on the stack has gained comes from entries that it has visited, each of them
once. -/
theorem Explained.satisfied_le (h : Explained resolver signatures verdicts walked stack) :
    ∀ f ∈ stack, f.satisfied ≤ f.authority.totalWeight := by
  induction stack generalizing walked with
  | nil => exact List.forall_mem_nil _
  | cons f below ih =>
    obtain ⟨⟨visited, accounts, -, satisfied⟩, rest⟩ := h
    refine List.forall_mem_cons.mpr ⟨?_, ?_⟩
    · have keys := f.authority.keyWeight_le signatures
      have entries : (visited.map (gained verdicts)).sum ≤
          (visited.map (·.weight.toNat)).sum := List.sum_le_sum fun _ _ => gained_le
      rw [satisfied, Authority.totalWeight, total_eq_sum, total_eq_sum, accounts]
      simp only [List.map_append, List.sum_append]
      omega
    · split at rest
      next => exact rest ▸ List.forall_mem_nil _
      next => exact ih rest.2

end Walk

/-- An authority that is met by some signatures is satisfiable, if it asks for anything at all.
Conversely, if everything that its account entries lead to is there and leads to no cycle, and all
of that and the authority itself are satisfiable, then the authority is met by all signatures that
cover the keys listed. At no step of the walk has an authority gained more than the total weight of
its entries, a number of 64 bits if they are fewer than 32 bits can count. -/
theorem evaluate_matches_satisfiable (resolver : Resolver) (root : Authority) :
    (0 < root.threshold → ∀ signatures,
      root.evaluate resolver signatures = .ok true → root.satisfiable = true) ∧
    ((∀ level, root.Reaches resolver level → ¬ resolver.Malformed level) →
      root.satisfiable = true →
      (∀ level authority, root.Reaches resolver level →
        resolver.find? level = some authority → authority.satisfiable = true) →
      ∀ signatures : KeySet, (∀ key, root.Seeks resolver key → key ∈ signatures) →
        root.evaluate resolver signatures = .ok true) ∧
    ∀ signatures walk,
      ReflTransGen (Walk.Goes resolver signatures) (Walk.start signatures none root) walk →
      ∀ f ∈ walk.stack, f.satisfied ≤ f.authority.totalWeight ∧
        (f.authority.size < UInt32.size → f.authority.totalWeight < UInt64.size) := by
  refine ⟨fun positive signatures met => ?_, fun sound satisfiable below signatures signed => ?_,
    fun signatures walk goes f mem => ?_⟩
  · rw [Authority.evaluate_eq] at met
    exact Authority.satisfiable_of_judge_eq_true positive met
  · rw [Authority.evaluate_eq]
    exact Authority.judge_of_satisfiable sound satisfiable below signed
  · have started : Walk.Sound resolver signatures (Walk.start signatures none root) :=
      Walk.sound_start (by simp)
    exact ⟨(started.goesOn goes).explained.satisfied_le f mem, Authority.totalWeight_lt⟩

section sample

theorem sampleDiamond_authority {level : Level} {authority : Authority}
    (found : (sampleDiamond sampleEither).find? level = some authority) :
    authority = sampleEither ∨ authority = .ofAccount "c" := by
  simp only [sampleDiamond, Resolver.ofMap, Std.ExtTreeMap.getElem?_insert] at found
  split at found
  · exact .inl (Option.some.inj found).symm
  · split at found
    · exact .inr (Option.some.inj found).symm
    · split at found
      · exact .inr (Option.some.inj found).symm
      · simp at found

/-- Three account entries that end at one permission with two keys: both keys meet the authority,
and that it is met shows that it is satisfiable. -/
theorem evaluate_matches_satisfiable_sample :
    let resolver := sampleDiamond sampleEither
    let signatures : KeySet := .ofList [sampleSigner 1, sampleSigner 2]
    (∀ level, sampleTriple.Reaches resolver level → ¬ resolver.Malformed level) ∧
      (∀ key, sampleTriple.Seeks resolver key → key ∈ signatures) ∧
      sampleTriple.evaluate resolver signatures = .ok true ∧ sampleTriple.satisfiable = true ∧
      ∀ f ∈ (Walk.start signatures none sampleTriple).stack,
        f.satisfied ≤ f.authority.totalWeight ∧ f.authority.totalWeight < UInt64.size := by
  intro resolver signatures
  obtain ⟨necessary, enough, bounded⟩ := evaluate_matches_satisfiable resolver sampleTriple
  have unsigned : sampleTriple.evaluate resolver ∅ = .ok false := by decide +kernel
  have sound : ∀ level, sampleTriple.Reaches resolver level → ¬ resolver.Malformed level := by
    intro level reaches malformed
    rw [Authority.evaluate_eq] at unsigned
    have fails : ∃ error, sampleTriple.judge resolver ∅ = .error error :=
      Authority.judge_eq_error_iff.mpr ⟨level, reaches, malformed⟩
    obtain ⟨error, failed⟩ := fails
    cases unsigned.symm.trans failed
  have satisfiable : ∀ level authority, sampleTriple.Reaches resolver level →
      resolver.find? level = some authority → authority.satisfiable = true := by
    intro level authority _ found
    rcases sampleDiamond_authority found with rfl | rfl <;> decide
  have signed : ∀ key, sampleTriple.Seeks resolver key → key ∈ signatures := by
    have listed : ∀ entry ∈ sampleEither.keys, entry.key ∈ signatures := by decide +kernel
    rintro key (⟨entry, mem, -⟩ | ⟨level, authority, -, found, entry, mem, rfl⟩)
    · cases mem
    · rcases sampleDiamond_authority found with rfl | rfl
      · exact listed entry mem
      · cases mem
  have met := enough sound (by decide) satisfiable signatures signed
  have gains := bounded signatures _ .refl
  refine ⟨sound, signed, met, necessary (by decide) signatures met, fun f mem => ?_⟩
  obtain ⟨gained, small⟩ := gains f mem
  cases List.mem_singleton.mp mem
  exact ⟨gained, small (by decide)⟩

end sample

end ChainLab
