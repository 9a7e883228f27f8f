import ChainLab.Proofs.Delegation

/-!
# Errors are malformed graphs

An evaluation never stops early, so it comes by everything that account entries lead to. It ends in
an error exactly if one of the permissions it would come by is not there, or leads back to itself.
Keys decide nothing but what is met: all sets of signatures give the same error or none.
-/

namespace ChainLab

open Relation (ReflTransGen TransGen)

namespace Resolver

variable {resolver : Resolver} {signatures : KeySet} {path : List Level} {level : Level}

/-- The permission is not there, or account entries lead from it back to it. -/
def Malformed (resolver : Resolver) (level : Level) : Prop :=
  resolver.find? level = none ∨ TransGen resolver.Delegates level level

theorem Blames.malformed {error : AuthorityError} (h : resolver.Blames error level) :
    resolver.Malformed level := by
  cases h with
  | missing unknown => exact .inl unknown
  | returning returns => exact .inr returns

theorem exists_of_credit_eq_ok {entries : List LevelWeight} {gained : Nat}
    (h : resolver.credit signatures path entries = .ok gained) :
    ∀ entry ∈ entries, ∃ met, resolver.judge signatures path entry.level = .ok met := by
  induction entries generalizing gained with
  | nil => exact List.forall_mem_nil _
  | cons entry rest ih =>
    simp only [credit_cons, bind_eq_ok] at h
    obtain ⟨met, judged, more, credited, -⟩ := h
    exact List.forall_mem_cons.mpr ⟨⟨met, judged⟩, ih credited⟩

/-- What can be judged leads neither to the path nor to a malformed permission. The permission
itself is on the path of all that it leads to, so nothing leads back to it. -/
theorem wellFormed_of_judge_eq_ok {met : Bool}
    (h : resolver.judge signatures path level = .ok met) :
    ∀ reached, ReflTransGen resolver.Delegates level reached →
      reached ∉ path ∧ ¬ resolver.Malformed reached := by
  induction path, level using resolver.judge_induction generalizing met with
  | cyclic path level mem =>
    rw [judge_of_mem mem] at h
    cases h
  | unknown path level off unknown =>
    rw [judge_of_unknown off unknown] at h
    cases h
  | found path level authority off found ih =>
    rw [judge_of_found off found] at h
    obtain ⟨gained, credited, -⟩ := bind_eq_ok.mp h
    have below : ∀ next, resolver.Delegates level next → ∀ reached,
        ReflTransGen resolver.Delegates next reached →
          reached ∉ path ++ [level] ∧ ¬ resolver.Malformed reached := by
      rintro next ⟨authority', found', entry, mem, rfl⟩
      cases found.symm.trans found'
      obtain ⟨met, judged⟩ := exists_of_credit_eq_ok credited entry mem
      exact ih entry.level judged
    intro reached chain
    rcases ReflTransGen.cases_head chain with rfl | ⟨next, delegates, chain⟩
    · refine ⟨off, ?_⟩
      rintro (unknown | returns)
      · cases found.symm.trans unknown
      · obtain ⟨next, delegates, back⟩ := TransGen.head'_iff.mp returns
        exact (below next delegates level back).1 (by simp)
    · obtain ⟨off, sound⟩ := below next delegates reached chain
      exact ⟨fun mem => off (List.mem_append_left _ mem), sound⟩

theorem judge_eq_error_iff :
    (∃ error, resolver.judge signatures [] level = .error error) ↔
      ∃ reached, ReflTransGen resolver.Delegates level reached ∧ resolver.Malformed reached := by
  constructor
  · rintro ⟨error, failed⟩
    obtain ⟨blamed, chain, ⟨mem, -⟩ | blames⟩ := chain_of_judge_eq_error failed
    · cases mem
    · exact ⟨blamed, chain, blames.malformed⟩
  · rintro ⟨reached, chain, malformed⟩
    cases judged : resolver.judge signatures [] level with
    | error error => exact ⟨error, rfl⟩
    | ok met => exact absurd malformed (wellFormed_of_judge_eq_ok judged reached chain).2

end Resolver

namespace Authority

variable {resolver : Resolver} {signatures : KeySet} {root : Authority}

/-- Account entries lead from the authority to the permission. -/
def Reaches (resolver : Resolver) (root : Authority) (level : Level) : Prop :=
  ∃ entry ∈ root.accounts, ReflTransGen resolver.Delegates entry.level level

theorem judge_eq_error_iff :
    (∃ error, root.judge resolver signatures = .error error) ↔
      ∃ level, root.Reaches resolver level ∧ resolver.Malformed level := by
  constructor
  · rintro ⟨error, failed⟩
    have credited : resolver.credit signatures [] root.accounts = .error error := by
      rcases bind_eq_error.mp failed with credited | ⟨gained, -, done⟩
      · exact credited
      · cases done
    obtain ⟨entry, mem, judged⟩ := Resolver.exists_of_credit_eq_error credited
    obtain ⟨level, chain, malformed⟩ := Resolver.judge_eq_error_iff.mp ⟨error, judged⟩
    exact ⟨level, ⟨entry, mem, chain⟩, malformed⟩
  · rintro ⟨level, ⟨entry, mem, chain⟩, malformed⟩
    cases judged : root.judge resolver signatures with
    | error error => exact ⟨error, rfl⟩
    | ok met =>
      obtain ⟨gained, credited, -⟩ := bind_eq_ok.mp judged
      obtain ⟨met, sound⟩ := Resolver.exists_of_credit_eq_ok credited entry mem
      exact absurd malformed (Resolver.wellFormed_of_judge_eq_ok sound level chain).2

/-- Whoever has signed, an error is the one that nobody's signature gives. -/
theorem evaluate_eq_error_iff {error : AuthorityError} :
    root.evaluate resolver signatures = .error error ↔
      root.evaluate resolver ∅ = .error error :=
  have grows := root.raises_evaluate fun _ signed => absurd signed Std.ExtTreeSet.not_mem_empty
  grows.eq_error_iff.symm

end Authority

theorem Level.evaluate_eq_error_iff {resolver : Resolver} {signatures : KeySet} {level : Level}
    {error : AuthorityError} :
    level.evaluate resolver signatures = .error error ↔
      level.evaluate resolver ∅ = .error error :=
  have grows := level.raises_evaluate fun _ signed => absurd signed Std.ExtTreeSet.not_mem_empty
  grows.eq_error_iff.symm

/-- An evaluation fails exactly if account entries lead to a permission that is not there or that
leads back to itself; a permission that is evaluated by its name counts as one that is led to. It
fails with one set of signatures as with any other, with the same error. -/
theorem evaluate_fails_iff_malformed (resolver : Resolver) (signatures signatures' : KeySet) :
    (∀ root : Authority,
      ((∃ error, root.evaluate resolver signatures = .error error) ↔
        ∃ level, root.Reaches resolver level ∧ resolver.Malformed level) ∧
      ∀ error, root.evaluate resolver signatures = .error error ↔
        root.evaluate resolver signatures' = .error error) ∧
    ∀ start : Level,
      ((∃ error, start.evaluate resolver signatures = .error error) ↔
        ∃ level, ReflTransGen resolver.Delegates start level ∧ resolver.Malformed level) ∧
      ∀ error, start.evaluate resolver signatures = .error error ↔
        start.evaluate resolver signatures' = .error error := by
  refine ⟨fun root => ⟨?_, fun error => ?_⟩, fun start => ⟨?_, fun error => ?_⟩⟩
  · rw [Authority.evaluate_eq]
    exact Authority.judge_eq_error_iff
  · exact Authority.evaluate_eq_error_iff.trans Authority.evaluate_eq_error_iff.symm
  · rw [Level.evaluate_eq]
    exact Resolver.judge_eq_error_iff
  · exact Level.evaluate_eq_error_iff.trans Level.evaluate_eq_error_iff.symm

end ChainLab
