import ChainLab.Authority.Evaluation

/-!
# Evaluation by plain recursion

The meaning of an authority, said without stack and without remembered verdicts.
Keys count if they have signed. Account entries are visited in their order, a permission
that leads back to the path is a cycle, and the first error ends the evaluation. The
recursion goes down because the path only grows by permissions that resolve.
-/

namespace ChainLab

/-- The weight of the keys that have signed, one entry after the other. -/
def signedWeight (signatures : KeySet) : List KeyWeight → Nat
  | [] => 0
  | entry :: rest =>
    (if entry.key ∈ signatures then entry.weight.toNat else 0) + signedWeight signatures rest

namespace Resolver

/-- The listed permissions that a path does not go through. -/
def offPath (resolver : Resolver) (path : List Level) : List Level :=
  resolver.levels.filter fun level => level ∉ path

theorem length_offPath_lt {resolver : Resolver} {path : List Level} {level : Level}
    {authority : Authority} (off : level ∉ path) (found : resolver.find? level = some authority) :
    (resolver.offPath (path ++ [level])).length < (resolver.offPath path).length := by
  have narrower : resolver.offPath (path ++ [level]) =
      (resolver.offPath path).filter fun l => l ≠ level := by
    simp [offPath, List.filter_filter, and_comm]
  rw [narrower, List.length_filter_lt_length_iff_exists]
  exact ⟨level, by simpa [offPath] using ⟨resolver.mem_levels found, off⟩, by simp⟩

variable (resolver : Resolver) (signatures : KeySet)

mutual

/-- The weight of the entries that are satisfied, visited in their order. -/
def credit (path : List Level) : List LevelWeight → Except AuthorityError Nat
  | [] => .ok 0
  | entry :: rest => do
    let met ← judge path entry.level
    let more ← credit path rest
    return (if met then entry.weight.toNat else 0) + more
termination_by entries => ((resolver.offPath path).length, entries.length + 1)

/-- Whether the authority of a permission is met, reached over the permissions on `path`. -/
def judge (path : List Level) (level : Level) : Except AuthorityError Bool :=
  if _ : level ∈ path then .error (.cycle level (path ++ [level]))
  else
    match _ : resolver.find? level with
    | none => .error (.unknownLevel level)
    | some authority => do
      let gained ← credit (path ++ [level]) authority.accounts
      return authority.threshold.toNat ≤ signedWeight signatures authority.keys + gained
termination_by ((resolver.offPath path).length, 0)
decreasing_by exact .left _ _ (length_offPath_lt ‹_› ‹_›)

end

end Resolver

/-- Whether an authority is met, by plain recursion. -/
def Authority.judge (resolver : Resolver) (signatures : KeySet) (root : Authority) :
    Except AuthorityError Bool := do
  let gained ← resolver.credit signatures [] root.accounts
  return root.threshold.toNat ≤ signedWeight signatures root.keys + gained

theorem Authority.signedWeight_keys (authority : Authority) (signatures : KeySet) :
    signedWeight signatures authority.keys = authority.keyWeight signatures := by
  rw [keyWeight]
  induction authority.keys with
  | nil => rfl
  | cons entry rest ih =>
    rw [signedWeight, ih, List.filter_cons]
    by_cases signed : entry.key ∈ signatures
    · rw [if_pos signed, if_pos (Std.ExtTreeSet.contains_iff_mem.mpr signed)]
      rfl
    · rw [if_neg signed, if_neg (mt Std.ExtTreeSet.contains_iff_mem.mp signed), Nat.zero_add]

theorem Authority.judge_eq {resolver : Resolver} {signatures : KeySet} {root : Authority} :
    root.judge resolver signatures = (do
      let gained ← resolver.credit signatures [] root.accounts
      return decide (root.threshold.toNat ≤ root.keyWeight signatures + gained)) := by
  rw [judge, signedWeight_keys]

namespace Resolver

variable {resolver : Resolver} {signatures : KeySet} {path : List Level} {level : Level}

@[simp] theorem credit_nil : resolver.credit signatures path [] = .ok 0 := by
  rw [credit]

theorem credit_cons {entry : LevelWeight} {rest : List LevelWeight} :
    resolver.credit signatures path (entry :: rest) = (do
      let met ← resolver.judge signatures path entry.level
      let more ← resolver.credit signatures path rest
      return (if met then entry.weight.toNat else 0) + more) := by
  rw [credit]

theorem judge_of_mem (h : level ∈ path) :
    resolver.judge signatures path level = .error (.cycle level (path ++ [level])) := by
  rw [judge, dif_pos h]

theorem judge_of_unknown (off : level ∉ path) (unknown : resolver.find? level = none) :
    resolver.judge signatures path level = .error (.unknownLevel level) := by
  rw [judge, dif_neg off]
  split
  · rfl
  next found => cases unknown.symm.trans found

theorem judge_of_found {authority : Authority} (off : level ∉ path)
    (found : resolver.find? level = some authority) :
    resolver.judge signatures path level = (do
      let gained ← resolver.credit signatures (path ++ [level]) authority.accounts
      return decide (authority.threshold.toNat ≤ authority.keyWeight signatures + gained)) := by
  rw [judge, dif_neg off]
  split
  next unknown => cases unknown.symm.trans found
  next found' =>
    cases found.symm.trans found'
    rw [Authority.signedWeight_keys]

/-- Induction along the recursion, which goes from a permission that resolves to any other one,
with the permission on the path. -/
theorem judge_induction (resolver : Resolver) {motive : List Level → Level → Prop}
    (cyclic : ∀ path level, level ∈ path → motive path level)
    (unknown : ∀ path level, level ∉ path → resolver.find? level = none → motive path level)
    (found : ∀ path level authority, level ∉ path → resolver.find? level = some authority →
      (∀ next, motive (path ++ [level]) next) → motive path level)
    (path : List Level) (level : Level) : motive path level := by
  induction size : (resolver.offPath path).length using Nat.strongRecOn
    generalizing path level with
  | ind n ih =>
    by_cases mem : level ∈ path
    · exact cyclic path level mem
    · cases resolves : resolver.find? level with
      | none => exact unknown path level mem resolves
      | some authority =>
        refine found path level authority mem resolves fun next => ?_
        exact ih _ (size ▸ length_offPath_lt mem resolves) _ next rfl

end Resolver

end ChainLab
