import ChainLab.Proofs.MapSum
import ChainLab.Proofs.SoughtKeys

/-!
# The order of entries carries no meaning

The entries of an authority are visited in the order in which they are listed, so the order decides
what is walked first, what is remembered by the time it is met again, and which error comes first.
It does not decide whether there is an error, nor the verdict if there is none: an evaluation comes
to the sum of what each entry comes to by itself.
-/

namespace ChainLab

/-- The same authority, with its entries in some order. -/
structure Authority.Reordered (a b : Authority) : Prop where
  threshold : a.threshold = b.threshold
  keys : a.keys.Perm b.keys
  accounts : a.accounts.Perm b.accounts

/-- The same permissions, the authority of each with its entries in some order. -/
def Resolver.Reordered (resolver resolver' : Resolver) : Prop :=
  ∀ level, Option.Rel Authority.Reordered (resolver.find? level) (resolver'.find? level)

theorem toOption_bind {ε α β : Type} {x : Except ε α} {f : α → Except ε β} :
    (x >>= f).toOption = x.toOption.bind fun a => (f a).toOption := by
  cases x <;> rfl

variable {resolver resolver' : Resolver} {signatures : KeySet} {path : List Level}

namespace Resolver

theorem toOption_credit_cons {entry : LevelWeight} {rest : List LevelWeight} :
    (resolver.credit signatures path (entry :: rest)).toOption =
      (resolver.judge signatures path entry.level).toOption.bind fun met =>
        (resolver.credit signatures path rest).toOption.map fun more =>
          (if met then entry.weight.toNat else 0) + more := by
  rw [credit_cons, toOption_bind]
  refine congrArg _ (funext fun met => ?_)
  rw [toOption_bind]
  cases (resolver.credit signatures path rest).toOption <;> rfl

/-- What the entries gain together does not depend on which of them is visited first. -/
theorem toOption_credit_of_perm {entries entries' : List LevelWeight}
    (perm : entries.Perm entries') :
    (resolver.credit signatures path entries).toOption =
      (resolver.credit signatures path entries').toOption := by
  induction perm with
  | nil => rfl
  | cons entry _ ih => rw [toOption_credit_cons, toOption_credit_cons, ih]
  | swap first second rest =>
    simp only [toOption_credit_cons]
    cases (resolver.judge signatures path first.level).toOption <;>
      cases (resolver.judge signatures path second.level).toOption <;>
      cases (resolver.credit signatures path rest).toOption <;> simp [Nat.add_left_comm]
  | trans _ _ ih ih' => exact ih.trans ih'

theorem toOption_credit_congr {entries : List LevelWeight}
    (each : ∀ level, (resolver.judge signatures path level).toOption =
      (resolver'.judge signatures path level).toOption) :
    (resolver.credit signatures path entries).toOption =
      (resolver'.credit signatures path entries).toOption := by
  induction entries with
  | nil => rw [credit_nil, credit_nil]
  | cons entry rest ih => rw [toOption_credit_cons, toOption_credit_cons, each, ih]

end Resolver

theorem Authority.Reordered.keyWeight_eq {a b : Authority} (h : a.Reordered b) :
    a.keyWeight signatures = b.keyWeight signatures :=
  ((h.keys.filter _).map _).sum_eq

/-- Whether an authority is reached is settled by the same sum for both orders of its entries. -/
theorem Authority.Reordered.toOption_reached {a b : Authority} (h : a.Reordered b)
    (each : ∀ level, (resolver.judge signatures path level).toOption =
      (resolver'.judge signatures path level).toOption) :
    (do
      let gained ← resolver.credit signatures path a.accounts
      return decide (a.threshold.toNat ≤ a.keyWeight signatures + gained)).toOption =
    (do
      let gained ← resolver'.credit signatures path b.accounts
      return decide (b.threshold.toNat ≤ b.keyWeight signatures + gained)).toOption := by
  have gains : (resolver.credit signatures path a.accounts).toOption =
      (resolver'.credit signatures path b.accounts).toOption :=
    (Resolver.toOption_credit_of_perm h.accounts).trans (Resolver.toOption_credit_congr each)
  rw [toOption_bind, toOption_bind, gains, h.threshold, h.keyWeight_eq]

namespace Resolver.Reordered

variable {level : Level}

theorem unknown (h : resolver.Reordered resolver') (unknown : resolver.find? level = none) :
    resolver'.find? level = none := by
  have entry := h level
  rw [unknown] at entry
  generalize resolver'.find? level = other at entry
  cases entry with
  | none => rfl

theorem exists_found (h : resolver.Reordered resolver') {a : Authority}
    (found : resolver.find? level = some a) :
    ∃ b, resolver'.find? level = some b ∧ a.Reordered b := by
  have entry := h level
  rw [found] at entry
  generalize resolver'.find? level = other at entry
  cases entry with
  | @some _ b reordered => exact ⟨b, rfl, reordered⟩

theorem toOption_judge (h : resolver.Reordered resolver') (path : List Level) (level : Level) :
    (resolver.judge signatures path level).toOption =
      (resolver'.judge signatures path level).toOption := by
  induction path, level using resolver.judge_induction with
  | cyclic path level mem => rw [judge_of_mem mem, judge_of_mem mem]
  | unknown path level off unknown =>
    rw [judge_of_unknown off unknown, judge_of_unknown off (h.unknown unknown)]
  | found path level authority off found below =>
    obtain ⟨authority', found', reordered⟩ := h.exists_found found
    rw [judge_of_found off found, judge_of_found off found']
    exact reordered.toOption_reached below

end Resolver.Reordered

/-- The entries of an authority, and of every permission that it can lead to, may be listed in any
other order: an evaluation gives the same verdict, or an error if it gave one. -/
theorem evaluate_of_reordered (permissions : resolver.Reordered resolver') (signatures : KeySet) :
    (∀ root root' : Authority, root.Reordered root' →
      (root.evaluate resolver signatures).toOption =
        (root'.evaluate resolver' signatures).toOption) ∧
    ∀ start : Level,
      (start.evaluate resolver signatures).toOption =
        (start.evaluate resolver' signatures).toOption := by
  refine ⟨fun root root' reordered => ?_, fun start => ?_⟩
  · rw [Authority.evaluate_eq, Authority.evaluate_eq, Authority.judge_eq, Authority.judge_eq]
    exact reordered.toOption_reached (permissions.toOption_judge [])
  · rw [Level.evaluate_eq, Level.evaluate_eq]
    exact permissions.toOption_judge [] start

section sample

theorem reordered_sampleDiamond {shared shared' : Authority}
    (reordered : shared.Reordered shared') :
    (sampleDiamond shared).Reordered (sampleDiamond shared') := by
  intro level
  simp only [sampleDiamond, Resolver.ofMap, Std.ExtTreeMap.getElem?_insert]
  split
  · exact .some reordered
  · split
    · exact .some ⟨rfl, .refl _, .refl _⟩
    · split
      · exact .some ⟨rfl, .refl _, .refl _⟩
      · simp

/-- The keys of the permission at the bottom and the entries of the authority at the top are
listed the other way round. -/
theorem evaluate_of_reordered_sample :
    let signatures : KeySet := .ofList [sampleSigner 1]
    let bottom : Authority := ⟨1, sampleEither.keys.reverse, []⟩
    let top : Authority := ⟨3, [], sampleTriple.accounts.reverse⟩
    (sampleDiamond sampleEither).Reordered (sampleDiamond bottom) ∧ sampleTriple.Reordered top ∧
      sampleTriple.evaluate (sampleDiamond sampleEither) signatures = .ok true ∧
      (top.evaluate (sampleDiamond bottom) signatures).toOption = some true := by
  intro signatures bottom top
  have permissions : (sampleDiamond sampleEither).Reordered (sampleDiamond bottom) :=
    reordered_sampleDiamond ⟨rfl, (List.reverse_perm _).symm, .refl _⟩
  have reordered : sampleTriple.Reordered top := ⟨rfl, .refl _, (List.reverse_perm _).symm⟩
  have met : sampleTriple.evaluate (sampleDiamond sampleEither) signatures = .ok true := by
    decide +kernel
  refine ⟨permissions, reordered, met, ?_⟩
  rw [← (evaluate_of_reordered permissions signatures).1 sampleTriple top reordered, met]
  rfl

/-- Which error it is does depend on the order. -/
example :
    let x : LevelWeight := ⟨Level.active "x", 1⟩
    let y : LevelWeight := ⟨Level.active "y", 1⟩
    let resolver := sampleDiamond sampleEither
    Authority.evaluate resolver ∅ ⟨1, [], [x, y]⟩ = .error (.unknownLevel (Level.active "x")) ∧
      Authority.evaluate resolver ∅ ⟨1, [], [y, x]⟩ = .error (.unknownLevel (Level.active "y")) := by
  decide +kernel

end sample

end ChainLab
