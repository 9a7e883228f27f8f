import ChainLab.Proofs.Satisfiability
import Mathlib.Data.List.Dedup

/-!
# How long a walk is

A walk enters no permission a second time: one that was entered is either still on the path, where
meeting it again is a cycle, or it has its verdict, which is used instead. So every permission that
resolves is entered and left at most once, and each of its entries is visited at most once, however
many ways of delegation lead to it. The stack never gets empty, since the walk ends when it is done
with the authority at the bottom.
-/

namespace ChainLab

namespace Resolver

variable {resolver : Resolver}

/-- The permissions that resolve, each of them once. -/
def known (resolver : Resolver) : List Level :=
  (resolver.levels.filter fun level => (resolver.find? level).isSome).dedup

theorem mem_known {level : Level} {authority : Authority}
    (found : resolver.find? level = some authority) : level ∈ resolver.known := by
  simp [known, resolver.mem_levels found, found]

/-- A resolver that lists no permission in vain. -/
def pruned (resolver : Resolver) : Resolver where
  find? := resolver.find?
  levels := resolver.known
  mem_levels := mem_known

end Resolver

namespace Walk

variable {resolver : Resolver} {signatures : KeySet} {first walk next : Walk} {level : Level}
  {entered new : List Level} {n : Nat}

/-- The permission on top of the stack, if a step made the stack longer. -/
def pushed (walk next : Walk) : List Level :=
  if walk.stack.length < next.stack.length then (next.stack.head?.bind (·.level)).toList else []

/-- From the first walk it is so many steps to the last one, and they pushed these permissions
onto the stack. -/
inductive Gone (resolver : Resolver) (signatures : KeySet) (first : Walk) :
    (entered : List Level) → (steps : Nat) → Walk → Prop
  | none : Gone resolver signatures first [] 0 first
  | more {entered : List Level} {n : Nat} {walk next : Walk} :
    Gone resolver signatures first entered n walk → Goes resolver signatures walk next →
      Gone resolver signatures first (entered ++ pushed walk next) (n + 1) next

/-- The next step of the walk is its last one and gives the answer. -/
inductive Ends (resolver : Resolver) (signatures : KeySet) (walk : Walk) :
    Except AuthorityError Bool → Prop
  | finished {met : Bool} : walk.step resolver signatures = .finished met →
    Ends resolver signatures walk (.ok met)
  | failed {error : AuthorityError} : walk.step resolver signatures = .failed error →
    Ends resolver signatures walk (.error error)

/-- What a step that goes on does to the path and to the verdicts, and what it pushes. -/
inductive Turn (walk next : Walk) : List Level → Prop
  | reuse (onPath : next.onPath = walk.onPath) (verdicts : next.verdicts = walk.verdicts) :
    Turn walk next []
  | enter (level : Level) (off : level ∉ walk.onPath) (undecided : level ∉ walk.verdicts)
      (onPath : next.onPath = walk.onPath.insert level)
      (verdicts : next.verdicts = walk.verdicts) :
    Turn walk next [level]
  | leave (level : Level) (met : Bool) (onPath : next.onPath = walk.onPath.erase level)
      (verdicts : next.verdicts = walk.verdicts.insert level met) :
    Turn walk next []

theorem undecided_iff {verdicts : Std.ExtTreeMap Level Bool} :
    level ∉ verdicts ↔ verdicts[level]? = none := by
  rw [Std.ExtTreeMap.mem_iff_isSome_getElem?, Option.not_isSome_iff_eq_none]

theorem Sound.turn (h : Sound resolver signatures walk)
    (goes : Goes resolver signatures walk next) : Turn walk next (pushed walk next) := by
  obtain ⟨stack, onPath, verdicts⟩ := walk
  cases stack with
  | nil => exact absurd rfl h.nonempty
  | cons top below =>
    cases rest : top.remaining with
    | cons entry remaining =>
      simp only [Goes, step, rest] at goes
      split at goes
      case isTrue => cases goes
      case isFalse off =>
        split at goes
        next met verdict =>
          cases goes
          rw [pushed, if_neg (by simp)]
          exact .reuse rfl rfl
        next verdict =>
          split at goes
          next => cases goes
          next authority found =>
            cases goes
            rw [pushed, if_pos (by simp)]
            exact .enter entry.level off (undecided_iff.mpr verdict) rfl rfl
    | nil =>
      cases below with
      | nil => simp [Goes, step, rest] at goes
      | cons parent others =>
        obtain ⟨-, explained⟩ := h.explained
        cases named : top.level with
        | none => simp [named] at explained
        | some level =>
          simp only [Goes, step, rest, named] at goes
          cases goes
          rw [pushed, if_neg (by simp)]
          exact .leave level _ rfl rfl

/-- A permission that was entered is on the path until it is decided. -/
def Entered (walk : Walk) (level : Level) : Prop :=
  level ∈ walk.onPath ∨ level ∈ walk.verdicts

theorem Turn.keeps (turn : Turn walk next new) (there : walk.Entered level) :
    next.Entered level := by
  cases turn with
  | reuse onPath verdicts => simpa [Entered, onPath, verdicts] using there
  | enter other off undecided onPath verdicts =>
    simp only [Entered, onPath, verdicts, Std.ExtTreeSet.mem_insert]
    exact there.imp_left .inr
  | leave other met onPath verdicts =>
    simp only [Entered, onPath, verdicts, Std.ExtTreeSet.mem_erase, Std.ExtTreeMap.mem_insert,
      Std.compare_eq_iff_eq, ne_eq]
    by_cases same : other = level
    · exact .inr (.inl same)
    · exact there.imp (⟨same, ·⟩) .inr

theorem Turn.enters (turn : Turn walk next new) (mem : level ∈ new) : next.Entered level := by
  cases turn with
  | reuse | leave => cases mem
  | enter other off undecided onPath verdicts =>
    obtain rfl := List.mem_singleton.mp mem
    exact .inl (onPath ▸ Std.ExtTreeSet.mem_insert_self)

theorem Turn.not_entered (turn : Turn walk next new) (mem : level ∈ new) :
    ¬ walk.Entered level := by
  cases turn with
  | reuse | leave => cases mem
  | enter other off undecided onPath verdicts =>
    obtain rfl := List.mem_singleton.mp mem
    exact fun there => there.elim off undecided

theorem Turn.nodup (turn : Turn walk next new) : new.Nodup := by
  cases turn with
  | reuse | leave => exact List.nodup_nil
  | enter => exact List.nodup_singleton _

namespace Gone

theorem sound (gone : Gone resolver signatures first entered n walk)
    (h : Sound resolver signatures first) : Sound resolver signatures walk := by
  induction gone with
  | none => exact h
  | more _ goes ih => exact ih.goes goes

theorem pruned (gone : Gone resolver signatures first entered n walk) :
    Gone resolver.pruned signatures first entered n walk := by
  induction gone with
  | none => exact .none
  | more _ goes ih => exact ih.more goes

/-- Every step is paid for. -/
theorem budget_add_le (gone : Gone resolver signatures first entered n walk)
    (h : Sound resolver signatures first) : budget resolver walk + n ≤ budget resolver first := by
  induction gone with
  | none => exact Nat.le_refl _
  | more gone goes ih =>
    have right := step_right (gone.sound h)
    rw [goes] at right
    obtain ⟨-, less, -⟩ := right
    omega

/-- Nothing is entered that was entered before, so nothing is pushed again. -/
theorem once (gone : Gone resolver signatures first entered n walk)
    (h : Sound resolver signatures first) {begun : List Level} (nodup : begun.Nodup)
    (there : ∀ l ∈ begun, first.Entered l) :
    (begun ++ entered).Nodup ∧ ∀ l ∈ begun ++ entered, walk.Entered l := by
  induction gone with
  | none => simpa using ⟨nodup, there⟩
  | more gone goes ih =>
    obtain ⟨nodup, there⟩ := ih
    -- Whatever has been pushed stays entered, and a step pushes only what is not.
    have turn := (gone.sound h).turn goes
    rw [← List.append_assoc]
    refine ⟨nodup.append turn.nodup ?_, fun l mem => ?_⟩
    · exact fun l old new => turn.not_entered new (there l old)
    · exact (List.mem_append.mp mem).elim (fun old => turn.keeps (there l old)) turn.enters

/-- A walk that is run with enough fuel ends before the fuel does. -/
theorem exists_ends {fuel : Nat} (gone : Gone resolver signatures first entered n walk)
    (h : Sound resolver signatures walk) (enough : budget resolver walk ≤ fuel) :
    ∃ entered n last, Gone resolver signatures first entered n last ∧
      last.Ends resolver signatures (walk.run resolver signatures fuel) := by
  induction fuel generalizing entered n walk with
  | zero => exact absurd enough (Nat.not_le.mpr h.budget_pos)
  | succ fuel ih =>
    have right := step_right h
    unfold run
    cases outcome : walk.step resolver signatures with
    | running next =>
      rw [outcome] at right
      obtain ⟨sound, less, -⟩ := right
      exact ih (gone.more outcome) sound (by omega)
    | finished met => exact ⟨entered, n, walk, gone, .finished outcome⟩
    | failed error => exact ⟨entered, n, walk, gone, .failed outcome⟩

end Gone

/-- What holds of a walk from an authority, under the name given or none, when it has made some
steps and is to make one more: the stack is not empty, the steps are no more than there are
permissions to enter and entries to visit, and what is on the path are the permissions named on the
stack, none of which is decided. -/
structure InBounds (resolver : Resolver) (level : Option Level) (root : Authority)
    (entered : List Level) (steps : Nat) (walk : Walk) : Prop where
  nonempty : walk.stack ≠ []
  steps_lt : steps < 1 + root.accounts.length + (resolver.known.map resolver.visits).sum
  nodup : (level.toList ++ entered).Nodup
  mem_onPath : ∀ l, l ∈ walk.onPath ↔ ∃ f ∈ walk.stack, f.level = some l
  undecided : ∀ l ∈ walk.onPath, l ∉ walk.verdicts

/-- A walk that begins like this stays within its bounds, and it ends with the answer. -/
structure Bounded (resolver : Resolver) (signatures : KeySet) (level : Option Level)
    (root : Authority) (answer : Except AuthorityError Bool) : Prop where
  inBounds : ∀ entered steps walk,
    Gone resolver signatures (start signatures level root) entered steps walk →
      InBounds resolver level root entered steps walk
  ends : ∃ entered steps last,
    Gone resolver signatures (start signatures level root) entered steps last ∧
      last.Ends resolver signatures answer

section start

variable {level : Option Level} {root : Authority}
  (found : ∀ l ∈ level, resolver.find? l = some root)

include found

theorem Gone.inBounds
    (gone : Gone resolver signatures (start signatures level root) entered n walk) :
    InBounds resolver level root entered n walk := by
  have started : Sound resolver signatures (start signatures level root) := sound_start found
  have sound := gone.sound started
  constructor
  · exact sound.nonempty
  · -- The walk does not see what the resolver lists, so the budget may be taken without repeats.
    have started' : Sound resolver.pruned signatures (start signatures level root) :=
      sound_start found
    have paid := gone.pruned.budget_add_le started'
    have left := (gone.pruned.sound started').budget_pos
    have most : budget resolver.pruned (start signatures level root) ≤
      1 + root.accounts.length + (resolver.known.map resolver.visits).sum := budget_start_le
    omega
  · have single : level.toList.Nodup := by cases level <;> simp
    have named : ∀ l ∈ level.toList, (start signatures level root).Entered l := fun l mem =>
      .inl (by simpa [start, Std.ExtTreeSet.mem_ofList] using mem)
    exact (gone.once started single named).1
  · intro l
    rw [sound.mem_onPath, path, List.mem_reverse, List.mem_filterMap]
  · intro l on
    exact undecided_iff.mpr (sound.undecided l ((sound.mem_onPath l).mp on))

theorem bounded_run : Bounded resolver signatures level root
    ((start signatures level root).run resolver signatures (enough resolver root)) where
  inBounds _ _ _ gone := gone.inBounds found
  ends := Gone.none.exists_ends (sound_start found) budget_start_le

end start

end Walk

/-- Every evaluation ends, that of an authority as well as that of a permission by its name. It
takes at most one step, one more for each account entry of the authority it begins with and, for
each permission that resolves, one and one for each of its account entries. No permission is pushed
onto the stack twice, the one evaluated by its name included, and the stack never gets empty. -/
theorem evaluation_bounded (resolver : Resolver) (signatures : KeySet) :
    (∀ root : Authority,
      Walk.Bounded resolver signatures none root (root.evaluate resolver signatures)) ∧
    ∀ (level : Level) (root : Authority), resolver.find? level = some root →
      Walk.Bounded resolver signatures (some level) root
        (level.evaluate resolver signatures) := by
  constructor
  · intro root
    exact Walk.bounded_run (by simp)
  · intro level root found
    rw [Level.evaluate, found]
    exact Walk.bounded_run (by simp [found])

section sample

/-- Two ways lead to `a` and two lead to `c`, but each of them is walked once. -/
theorem evaluation_bounded_sample :
    let resolver := sampleDiamond sampleEither
    let signatures : KeySet := .ofList [sampleSigner 1]
    resolver.find? (Level.active "a") = some (.ofAccount "c") ∧
      Walk.Bounded resolver signatures (some (Level.active "a")) (.ofAccount "c") (.ok true) ∧
      ∀ entered n walk,
        Walk.Gone resolver signatures (Walk.start signatures none sampleTriple) entered n walk →
          entered.Nodup ∧ n < 9 := by
  intro resolver signatures
  obtain ⟨given, named⟩ := evaluation_bounded resolver signatures
  have found : resolver.find? (Level.active "a") = some (.ofAccount "c") := by decide +kernel
  have met : (Level.active "a").evaluate resolver signatures = .ok true := by decide +kernel
  have size : 1 + sampleTriple.accounts.length + (resolver.known.map resolver.visits).sum = 9 := by
    decide +kernel
  refine ⟨found, met ▸ named _ _ found, fun entered n walk gone => ?_⟩
  have within := (given sampleTriple).inBounds entered n walk gone
  exact ⟨within.nodup, size ▸ within.steps_lt⟩

end sample

end ChainLab
