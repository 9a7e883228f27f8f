import ChainLab.Proofs.MalformedGraph

/-!
# The keys that an evaluation asks for

An authority asks for the keys that it lists, and for those listed by the authorities that its
account entries lead to, over any number of steps. Signatures of other keys are never looked at:
the outcome is the same with them and without them, and so is an error. Among the keys that are
asked for, more of them never hurt.
-/

namespace ChainLab

open Relation (ReflTransGen)

/-- The authority has an entry for the key. -/
def Authority.Lists (authority : Authority) (key : PublicKey) : Prop :=
  ∃ entry ∈ authority.keys, entry.key = key

/-- The key is listed by the permission or by one that account entries lead to from it. -/
def Resolver.Seeks (resolver : Resolver) (level : Level) (key : PublicKey) : Prop :=
  ∃ reached authority, ReflTransGen resolver.Delegates level reached ∧
    resolver.find? reached = some authority ∧ authority.Lists key

/-- The key is listed by the authority or by a permission that account entries lead to from it. -/
def Authority.Seeks (resolver : Resolver) (root : Authority) (key : PublicKey) : Prop :=
  root.Lists key ∨ ∃ reached authority, root.Reaches resolver reached ∧
    resolver.find? reached = some authority ∧ authority.Lists key

variable {resolver : Resolver} {signatures signatures' : KeySet} {path : List Level}
  {level : Level} {root authority : Authority}

theorem Authority.keyWeight_congr
    (agree : ∀ key, authority.Lists key → (key ∈ signatures ↔ key ∈ signatures')) :
    authority.keyWeight signatures = authority.keyWeight signatures' := by
  refine congrArg (total _) (List.filter_congr fun entry mem => ?_)
  rw [Bool.eq_iff_iff, Std.ExtTreeSet.contains_iff_mem, Std.ExtTreeSet.contains_iff_mem]
  exact agree entry.key ⟨entry, mem, rfl⟩

namespace Resolver

theorem seeks_of_entry {key : PublicKey} (found : resolver.find? level = some authority)
    {entry : LevelWeight} (mem : entry ∈ authority.accounts)
    (seeks : resolver.Seeks entry.level key) : resolver.Seeks level key := by
  obtain ⟨reached, other, chain, resolves, lists⟩ := seeks
  exact ⟨reached, other, .head ⟨authority, found, entry, mem, rfl⟩ chain, resolves, lists⟩

theorem credit_congr {entries : List LevelWeight}
    (each : ∀ entry ∈ entries, resolver.judge signatures path entry.level =
      resolver.judge signatures' path entry.level) :
    resolver.credit signatures path entries = resolver.credit signatures' path entries := by
  induction entries with
  | nil => rw [credit_nil, credit_nil]
  | cons entry rest ih =>
    obtain ⟨first, later⟩ := List.forall_mem_cons.mp each
    rw [credit_cons, credit_cons, first, ih later]

theorem judge_congr
    (agree : ∀ key, resolver.Seeks level key → (key ∈ signatures ↔ key ∈ signatures')) :
    resolver.judge signatures path level = resolver.judge signatures' path level := by
  induction path, level using resolver.judge_induction with
  | cyclic path level mem => rw [judge_of_mem mem, judge_of_mem mem]
  | unknown path level off unknown =>
    rw [judge_of_unknown off unknown, judge_of_unknown off unknown]
  | found path level authority off found below =>
    have own : authority.keyWeight signatures = authority.keyWeight signatures' :=
      Authority.keyWeight_congr fun key lists => agree key ⟨level, authority, .refl, found, lists⟩
    have entries : ∀ entry ∈ authority.accounts,
        resolver.judge signatures (path ++ [level]) entry.level =
          resolver.judge signatures' (path ++ [level]) entry.level :=
      fun entry mem => below entry.level fun key seeks => agree key (seeks_of_entry found mem seeks)
    rw [judge_of_found off found, judge_of_found off found, own, credit_congr entries]

end Resolver

/-- Two sets of signatures that agree on the keys asked for are as good as each other. -/
theorem Level.evaluate_congr
    (agree : ∀ key, resolver.Seeks level key → (key ∈ signatures ↔ key ∈ signatures')) :
    level.evaluate resolver signatures = level.evaluate resolver signatures' := by
  rw [evaluate_eq, evaluate_eq]
  exact Resolver.judge_congr agree

theorem Authority.evaluate_congr
    (agree : ∀ key, root.Seeks resolver key → (key ∈ signatures ↔ key ∈ signatures')) :
    root.evaluate resolver signatures = root.evaluate resolver signatures' := by
  have own : root.keyWeight signatures = root.keyWeight signatures' :=
    keyWeight_congr fun key lists => agree key (.inl lists)
  have entries : ∀ entry ∈ root.accounts, resolver.judge signatures [] entry.level =
      resolver.judge signatures' [] entry.level := by
    refine fun entry mem => Resolver.judge_congr fun key seeks => agree key (.inr ?_)
    obtain ⟨reached, authority, chain, found, lists⟩ := seeks
    exact ⟨reached, authority, ⟨entry, mem, chain⟩, found, lists⟩
  rw [evaluate_eq, evaluate_eq, judge_eq, judge_eq, own, Resolver.credit_congr entries]

/-- The signatures by keys of some kind. -/
theorem exists_keySet (signatures : KeySet) (kind : PublicKey → Prop) :
    ∃ kept : KeySet, ∀ key, key ∈ kept ↔ key ∈ signatures ∧ kind key := by
  classical
  refine ⟨signatures.filter fun key => decide (kind key), fun key => ?_⟩
  simp [Std.ExtTreeSet.mem_filter]

/-- Whoever meets an authority meets it with further signatures too. And what an evaluation comes
to, a verdict or an error, is what it comes to with those signatures only whose keys are listed by
the authority or by one that its account entries lead to. The same holds of a permission that is
evaluated by its name. -/
theorem evaluate_of_keys_sought (resolver : Resolver) (signatures : KeySet) :
    (∀ root : Authority,
      (∀ more : KeySet, (∀ key ∈ signatures, key ∈ more) →
        root.evaluate resolver signatures = .ok true → root.evaluate resolver more = .ok true) ∧
      ∃ sought : KeySet, (∀ key, key ∈ sought ↔ key ∈ signatures ∧ root.Seeks resolver key) ∧
        root.evaluate resolver signatures = root.evaluate resolver sought) ∧
    ∀ start : Level,
      (∀ more : KeySet, (∀ key ∈ signatures, key ∈ more) →
        start.evaluate resolver signatures = .ok true → start.evaluate resolver more = .ok true) ∧
      ∃ sought : KeySet, (∀ key, key ∈ sought ↔ key ∈ signatures ∧ resolver.Seeks start key) ∧
        start.evaluate resolver signatures = start.evaluate resolver sought := by
  refine ⟨fun root => ⟨fun more sub => (root.raises_evaluate sub).eq_ok_true, ?_⟩,
    fun start => ⟨fun more sub => (start.raises_evaluate sub).eq_ok_true, ?_⟩⟩
  · obtain ⟨sought, member⟩ := exists_keySet signatures (root.Seeks resolver)
    refine ⟨sought, member, Authority.evaluate_congr fun key seeks => ?_⟩
    rw [member, and_iff_left seeks]
  · obtain ⟨sought, member⟩ := exists_keySet signatures (resolver.Seeks start)
    refine ⟨sought, member, Level.evaluate_congr fun key seeks => ?_⟩
    rw [member, and_iff_left seeks]

section sample

/-- A key that is told apart by one byte. -/
def sampleSigner (byte : UInt8) : PublicKey := ⟨Vector.replicate 32 byte⟩

/-- Both `a` and `b` delegate to `c`, which has the given authority. -/
def sampleDiamond (shared : Authority) : Resolver :=
  let graph : Std.ExtTreeMap Level Authority := ∅
  .ofMap (((graph.insert (Level.active "a") (.ofAccount "c")).insert
    (Level.active "b") (.ofAccount "c")).insert (Level.active "c") shared)

/-- Two keys, one of them worth nothing. -/
def sampleEither : Authority := ⟨1, [⟨sampleSigner 1, 1⟩, ⟨sampleSigner 2, 0⟩], []⟩

/-- Delegates to `a` twice and to `b`, and needs all three. -/
def sampleTriple : Authority :=
  ⟨3, [], [⟨Level.active "a", 1⟩, ⟨Level.active "b", 1⟩, ⟨Level.active "a", 1⟩]⟩

theorem evaluate_of_keys_sought_sample :
    let resolver := sampleDiamond sampleEither
    let few : KeySet := .ofList [sampleSigner 1, sampleSigner 9]
    let more := few.insert (sampleSigner 2)
    (∀ key ∈ few, key ∈ more) ∧ sampleTriple.evaluate resolver few = .ok true ∧
      sampleTriple.evaluate resolver more = .ok true ∧
      ∃ sought : KeySet, (∀ key, key ∈ sought ↔ key ∈ few ∧ sampleTriple.Seeks resolver key) ∧
        sampleTriple.evaluate resolver sought = .ok true := by
  intro resolver few more
  have sub : ∀ key ∈ few, key ∈ more := fun _ signed => Std.ExtTreeSet.mem_insert.mpr (.inr signed)
  have met : sampleTriple.evaluate resolver few = .ok true := by decide +kernel
  obtain ⟨monotone, sought, member, same⟩ := (evaluate_of_keys_sought resolver few).1 sampleTriple
  exact ⟨sub, met, monotone more sub met, sought, member, same.symm.trans met⟩

end sample

end ChainLab
