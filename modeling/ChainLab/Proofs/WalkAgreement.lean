import ChainLab.Proofs.Execution
import ChainLab.Proofs.MapSum
import ChainLab.Proofs.PlainEvaluation

/-!
# The walk with a stack agrees with plain recursion

At every step the stack says what plain recursion still has to do: the innermost
authority is finished first, then the one that delegated to it, and so on. A
remembered verdict may be used because everything below a decided permission is
decided too, while nothing on the path is, so the path cannot be reached from it.
-/

namespace ChainLab

namespace Walk

/-- What a stack answers, by plain recursion, when the innermost authority has gained
some more weight. -/
def answer (resolver : Resolver) (signatures : KeySet) (gain : Nat) :
    List Frame → Except AuthorityError Bool
  | [] => .ok false
  | top :: below => do
    let more ← resolver.credit signatures (path (top :: below)) top.remaining
    let met : Bool := top.authority.threshold.toNat ≤ top.satisfied + gain + more
    if below.isEmpty then return met
    else answer resolver signatures (if met then top.weight.toNat else 0) below

/-- What an entry contributes according to the verdicts. -/
def gained (verdicts : Std.ExtTreeMap Level Bool) (entry : LevelWeight) : Nat :=
  if verdicts[entry.level]? = some true then entry.weight.toNat else 0

/-- The entries of every authority on the stack are those visited, whose verdicts are
known, the one being walked, and those that remain. -/
def Explained (resolver : Resolver) (signatures : KeySet) (verdicts : Std.ExtTreeMap Level Bool) :
    (walked : List LevelWeight) → List Frame → Prop
  | _, [] => True
  | walked, f :: below =>
    (∃ visited, f.authority.accounts = visited ++ walked ++ f.remaining ∧
      (∀ entry ∈ visited, verdicts[entry.level]? ≠ none) ∧
      f.satisfied = f.authority.keyWeight signatures + (visited.map (gained verdicts)).sum) ∧
    match f.level with
    | none => below = []
    | some level =>
      resolver.find? level = some f.authority ∧
        Explained resolver signatures verdicts [⟨level, f.weight⟩] below

/-- What holds between two steps of a walk. -/
structure Sound (resolver : Resolver) (signatures : KeySet) (walk : Walk) : Prop where
  nonempty : walk.stack ≠ []
  nodup : (path walk.stack).Nodup
  mem_onPath : ∀ level, level ∈ walk.onPath ↔ level ∈ path walk.stack
  undecided : ∀ level ∈ path walk.stack, walk.verdicts[level]? = none
  /-- A verdict is right on every path that goes through no decided permission. -/
  settled : ∀ level met, walk.verdicts[level]? = some met →
    ∀ p : List Level, (∀ l ∈ p, walk.verdicts[l]? = none) →
      resolver.judge signatures p level = .ok met
  explained : Explained resolver signatures walk.verdicts [] walk.stack

variable {resolver : Resolver} {signatures : KeySet} {verdicts : Std.ExtTreeMap Level Bool}

@[simp] theorem credit_remaining {met : Bool} {weight : UInt32} {f : Frame} :
    (credit met weight f).remaining = f.remaining := rfl

@[simp] theorem frame_remaining {level : Option Level} {authority : Authority} {weight : UInt32} :
    (frame signatures level authority weight).remaining = authority.accounts := rfl

theorem path_cons {f : Frame} {below : List Frame} :
    path (f :: below) = path below ++ f.level.toList := by
  cases h : f.level <;> simp [path, h]

theorem answer_credit {gain : Nat} {met : Bool} {weight : UInt32} {f : Frame}
    {below : List Frame} :
    answer resolver signatures gain (credit met weight f :: below) =
      answer resolver signatures ((if met then weight.toNat else 0) + gain) (f :: below) := by
  have samePath : path (credit met weight f :: below) = path (f :: below) := by
    simp [path_cons, credit]
  simp only [answer, samePath]
  simp only [credit, Nat.add_assoc]

theorem gained_of_verdict {entry : LevelWeight} {met : Bool}
    (h : verdicts[entry.level]? = some met) :
    gained verdicts entry = if met then entry.weight.toNat else 0 := by
  cases met <;> simp [gained, h]

theorem gained_insert {level : Level} {met : Bool} {entry : LevelWeight}
    (fresh : verdicts[level]? = none) (known : verdicts[entry.level]? ≠ none) :
    gained (verdicts.insert level met) entry = gained verdicts entry := by
  have other : level ≠ entry.level := by
    rintro rfl
    exact known fresh
  simp [gained, Std.ExtTreeMap.getElem?_insert, other]

/-- A further verdict does not disturb what the earlier ones explain. -/
theorem Explained.insert {level : Level} (met : Bool) (fresh : verdicts[level]? = none)
    {walked : List LevelWeight} {stack : List Frame}
    (h : Explained resolver signatures verdicts walked stack) :
    Explained resolver signatures (verdicts.insert level met) walked stack := by
  induction stack generalizing walked with
  | nil => trivial
  | cons f below ih =>
    obtain ⟨⟨visited, accounts, known, satisfied⟩, rest⟩ := h
    refine ⟨⟨visited, accounts, fun entry hentry => ?_, ?_⟩, ?_⟩
    · rw [Std.ExtTreeMap.getElem?_insert]
      split
      · simp
      · exact known entry hentry
    · rw [satisfied,
        List.map_congr_left fun entry hentry => gained_insert fresh (known entry hentry)]
    · split at rest
      next hlevel => simpa [hlevel] using rest
      next hlevel => simpa [hlevel] using ⟨rest.1, ih rest.2⟩

/-- Entries with known verdicts are worth what the verdicts say, on any path free of
decided permissions. -/
theorem credit_of_decided {visited : List LevelWeight} {p : List Level}
    (settled : ∀ level met, verdicts[level]? = some met →
      resolver.judge signatures p level = .ok met)
    (known : ∀ entry ∈ visited, verdicts[entry.level]? ≠ none) :
    resolver.credit signatures p visited = .ok (visited.map (gained verdicts)).sum := by
  induction visited with
  | nil => exact Resolver.credit_nil
  | cons entry visited ih =>
    obtain ⟨met, hmet⟩ := Option.ne_none_iff_exists'.mp (known entry List.mem_cons_self)
    rw [Resolver.credit_cons, settled _ _ hmet, ih fun e he => known e (List.mem_cons_of_mem _ he)]
    rw [List.map_cons, List.sum_cons, gained_of_verdict hmet]
    rfl

/-- How many steps a walk can still make: what remains on the stack, and a visit of
every permission that is neither on the path nor decided. -/
def budget (resolver : Resolver) (walk : Walk) : Nat :=
  (walk.stack.map fun f => 1 + f.remaining.length).sum +
    ((resolver.levels.filter fun level =>
      level ∉ path walk.stack ∧ walk.verdicts[level]? = none).map resolver.visits).sum

/-- A narrower filter that loses an item loses its measure. -/
theorem sum_filter_add_le {α : Type} {f : α → Nat} {p q : α → Bool} {l : List α} {a : α}
    (sub : ∀ x, q x = true → p x = true) (mem : a ∈ l) (hp : p a = true) (hq : q a = false) :
    ((l.filter q).map f).sum + f a ≤ ((l.filter p).map f).sum := by
  have less : ∀ part : List α, ((part.filter q).map f).sum ≤ ((part.filter p).map f).sum :=
    fun part => ((part.monotone_filter_right sub).map f).sum_le_sum fun _ _ => Nat.zero_le _
  obtain ⟨before, after, rfl⟩ := List.append_of_mem mem
  have first := less before
  have last := less after
  simp only [List.filter_append, List.filter_cons, hp, hq, List.map_append, List.sum_append,
    List.map_cons, List.sum_cons, Bool.false_eq_true, if_false, if_true]
  omega

section steps

variable {top : Frame} {below : List Frame} {onPath : LevelSet} {entry : LevelWeight}
  {remaining : List LevelWeight}

/-- An entry whose verdict is known is counted without being walked. -/
theorem Sound.reuse {met : Bool}
    (h : Sound resolver signatures ⟨top :: below, onPath, verdicts⟩)
    (next : top.remaining = entry :: remaining)
    (verdict : verdicts[entry.level]? = some met) :
    Sound resolver signatures
      ⟨credit met entry.weight { top with remaining := remaining } :: below, onPath, verdicts⟩ := by
  have samePath : path (credit met entry.weight { top with remaining := remaining } :: below) =
      path (top :: below) := by
    simp [path_cons, credit]
  refine ⟨by simp, ?_, ?_, ?_, h.settled, ?_⟩
  · exact samePath ▸ h.nodup
  · exact samePath ▸ h.mem_onPath
  · exact samePath ▸ h.undecided
  · obtain ⟨⟨visited, accounts, known, satisfied⟩, rest⟩ := h.explained
    refine ⟨⟨visited ++ [entry], ?_, ?_, ?_⟩, rest⟩
    · simpa [credit, next] using accounts
    · intro e he
      rcases List.mem_append.mp he with old | new
      · exact known e old
      · simp [List.mem_singleton.mp new, verdict]
    · simp only [credit] at satisfied ⊢
      rw [satisfied, List.map_append, List.sum_append, ← gained_of_verdict verdict]
      simp [Nat.add_assoc]

/-- A permission that is neither on the path nor decided is entered. -/
theorem Sound.enter {authority : Authority}
    (h : Sound resolver signatures ⟨top :: below, onPath, verdicts⟩)
    (next : top.remaining = entry :: remaining)
    (off : entry.level ∉ onPath) (verdict : verdicts[entry.level]? = none)
    (found : resolver.find? entry.level = some authority) :
    Sound resolver signatures
      ⟨frame signatures (some entry.level) authority entry.weight ::
        { top with remaining := remaining } :: below, onPath.insert entry.level, verdicts⟩ := by
  have longer : path (frame signatures (some entry.level) authority entry.weight ::
      { top with remaining := remaining } :: below) =
      path (top :: below) ++ [entry.level] := by
    simp [path_cons, frame]
  have offPath := mt (h.mem_onPath entry.level).mpr off
  refine ⟨by simp, ?_, ?_, ?_, h.settled, ?_⟩
  · rw [longer, List.nodup_append]
    refine ⟨h.nodup, by simp, ?_⟩
    rintro a ha b hb rfl
    exact offPath (List.mem_singleton.mp hb ▸ ha)
  · intro level
    rw [longer, Std.ExtTreeSet.mem_insert, h.mem_onPath, Std.compare_eq_iff_eq, List.mem_append,
      List.mem_singleton, @eq_comm _ level]
    exact or_comm
  · intro level hlevel
    rw [longer] at hlevel
    rcases List.mem_append.mp hlevel with old | new
    · exact h.undecided level old
    · exact List.mem_singleton.mp new ▸ verdict
  · obtain ⟨⟨visited, accounts, known, satisfied⟩, rest⟩ := h.explained
    refine ⟨⟨[], by simp [frame], by simp, by simp [frame]⟩, found, ?_, rest⟩
    exact ⟨visited, by simpa [frame, next] using accounts, known, satisfied⟩

/-- When nothing remains of a permission its verdict is settled for good: everything it
delegates to is decided, so it can be judged on any path that avoids it and them. -/
theorem judge_of_finished {level : Level}
    (h : Sound resolver signatures ⟨top :: below, onPath, verdicts⟩) (done : top.remaining = [])
    (named : top.level = some level) {p : List Level} (off : level ∉ p)
    (free : ∀ l ∈ p, verdicts[l]? = none) :
    resolver.judge signatures p level =
      .ok (decide (top.authority.threshold.toNat ≤ top.satisfied)) := by
  obtain ⟨⟨visited, accounts, known, satisfied⟩, rest⟩ := h.explained
  simp only [named] at rest
  obtain rfl : top.authority.accounts = visited := by simpa [done] using accounts
  have undecided : verdicts[level]? = none := h.undecided level (by simp [path_cons, named])
  have longer : ∀ l ∈ p ++ [level], verdicts[l]? = none := by
    intro l hl
    rcases List.mem_append.mp hl with old | new
    · exact free l old
    · exact List.mem_singleton.mp new ▸ undecided
  rw [Resolver.judge_of_found off rest.1,
    credit_of_decided (fun l met hmet => h.settled l met hmet _ longer) known, satisfied]
  rfl

section leave

variable {parent : Frame} {rest : List Frame} {level : Level} {met : Bool}

/-- With the permission that is left, all verdicts are right on the paths that avoid them. -/
theorem Sound.settled_leave
    (h : Sound resolver signatures ⟨top :: below, onPath, verdicts⟩) (done : top.remaining = [])
    (named : top.level = some level)
    (hmet : met = decide (top.authority.threshold.toNat ≤ top.satisfied)) :
    ∀ l found, (verdicts.insert level met)[l]? = some found →
      ∀ p : List Level, (∀ x ∈ p, (verdicts.insert level met)[x]? = none) →
        resolver.judge signatures p l = .ok found := by
  intro l found hfound p free
  have old : ∀ x ∈ p, x ≠ level ∧ verdicts[x]? = none := by
    intro x hx
    have := free x hx
    simp only [Std.ExtTreeMap.getElem?_insert, Std.compare_eq_iff_eq] at this
    split at this
    · cases this
    next other => exact ⟨fun same => other same.symm, this⟩
  simp only [Std.ExtTreeMap.getElem?_insert, Std.compare_eq_iff_eq] at hfound
  split at hfound
  next same =>
    cases hfound
    subst same
    rw [judge_of_finished h done named (fun hl => (old level hl).1 rfl) fun x hx => (old x hx).2,
      hmet]
  · exact h.settled l found hfound p fun x hx => (old x hx).2

/-- The entry that led to the permission that is left counts as visited from now on. -/
theorem Sound.explained_leave
    (h : Sound resolver signatures ⟨top :: parent :: rest, onPath, verdicts⟩)
    (named : top.level = some level) (undecided : verdicts[level]? = none) :
    Explained resolver signatures (verdicts.insert level met) []
      (credit met top.weight parent :: rest) := by
  obtain ⟨-, left⟩ := h.explained
  simp only [named] at left
  obtain ⟨⟨visited, accounts, known, satisfied⟩, deeper⟩ := left.2.insert met undecided
  refine ⟨⟨visited ++ [⟨level, top.weight⟩], ?_, ?_, ?_⟩, deeper⟩
  · simpa [credit] using accounts
  · intro e he
    rcases List.mem_append.mp he with old | new
    · exact known e old
    · simp [List.mem_singleton.mp new]
  · have worth : gained (verdicts.insert level met) ⟨level, top.weight⟩ =
        if met then top.weight.toNat else 0 := gained_of_verdict (by simp)
    simp only [credit] at satisfied ⊢
    rw [satisfied, List.map_append, List.sum_append, ← worth]
    simp [Nat.add_assoc]

/-- A finished permission leaves the path and is decided. -/
theorem Sound.leave
    (h : Sound resolver signatures ⟨top :: parent :: rest, onPath, verdicts⟩)
    (done : top.remaining = []) (named : top.level = some level)
    (hmet : met = decide (top.authority.threshold.toNat ≤ top.satisfied)) :
    Sound resolver signatures
      ⟨credit met top.weight parent :: rest, onPath.erase level, verdicts.insert level met⟩ := by
  have shorter : path (top :: parent :: rest) =
      path (credit met top.weight parent :: rest) ++ [level] := by
    simp [path_cons, credit, named]
  have nodup := h.nodup
  simp only [shorter, List.nodup_append] at nodup
  obtain ⟨nodup, -, apart⟩ := nodup
  have off : level ∉ path (credit met top.weight parent :: rest) := fun hl =>
    apart level hl level List.mem_cons_self rfl
  have undecided : verdicts[level]? = none := h.undecided level (by simp [shorter])
  refine ⟨by simp, nodup, ?_, ?_, h.settled_leave done named hmet,
    h.explained_leave named undecided⟩
  · intro l
    rw [Std.ExtTreeSet.mem_erase, h.mem_onPath, shorter, List.mem_append, List.mem_singleton,
      ne_eq, Std.compare_eq_iff_eq]
    constructor
    · rintro ⟨other, below | rfl⟩
      · exact below
      · exact absurd rfl other
    · intro hl
      exact ⟨fun same => off (same ▸ hl), .inl hl⟩
  · intro l hl
    have other : compare level l ≠ .eq := fun same => off (Std.compare_eq_iff_eq.mp same ▸ hl)
    rw [Std.ExtTreeMap.getElem?_insert, if_neg other]
    exact h.undecided l (by simp [shorter, hl])

end leave

end steps

/-- The outcome of a step is right if the answer stays the same while the walk runs, and
is the one given when it ends. -/
def Right (resolver : Resolver) (signatures : KeySet) (walk : Walk) : Outcome → Prop
  | .running next =>
    Sound resolver signatures next ∧ budget resolver next < budget resolver walk ∧
      answer resolver signatures 0 next.stack = answer resolver signatures 0 walk.stack
  | .finished met => answer resolver signatures 0 walk.stack = .ok met
  | .failed error => answer resolver signatures 0 walk.stack = .error error

/-- If the innermost authority fails at its next entry, so does the whole stack. -/
theorem answer_of_entry_error {gain : Nat} {top : Frame} {below : List Frame} {entry : LevelWeight}
    {remaining : List LevelWeight} {error : AuthorityError}
    (next : top.remaining = entry :: remaining)
    (fails : resolver.judge signatures (path (top :: below)) entry.level = .error error) :
    answer resolver signatures gain (top :: below) = .error error := by
  rw [answer, next, Resolver.credit_cons, fails]
  rfl

section answers

variable {top : Frame} {below : List Frame} {onPath : LevelSet} {entry : LevelWeight}
  {remaining : List LevelWeight} {gain : Nat}

theorem answer_reuse {met : Bool} (next : top.remaining = entry :: remaining)
    (judged : resolver.judge signatures (path (top :: below)) entry.level = .ok met) :
    answer resolver signatures gain
        (credit met entry.weight { top with remaining := remaining } :: below) =
      answer resolver signatures gain (top :: below) := by
  have samePath : path ({ top with remaining := remaining } :: below) = path (top :: below) := by
    simp [path_cons]
  rw [answer_credit]
  simp only [answer, samePath, next, Resolver.credit_cons, judged]
  cases resolver.credit signatures (path (top :: below)) remaining with
  | error e => rfl
  | ok more =>
    have regroup : ∀ worth, top.satisfied + (worth + gain) + more =
        top.satisfied + gain + (worth + more) := fun _ => by omega
    simp only [bind, Except.bind, pure, Except.pure, regroup]

theorem answer_enter {authority : Authority} (next : top.remaining = entry :: remaining)
    (off : entry.level ∉ path (top :: below))
    (found : resolver.find? entry.level = some authority) :
    answer resolver signatures 0
        (frame signatures (some entry.level) authority entry.weight ::
          { top with remaining := remaining } :: below) =
      answer resolver signatures 0 (top :: below) := by
  have samePath : path ({ top with remaining := remaining } :: below) = path (top :: below) := by
    simp [path_cons]
  have longer : path (frame signatures (some entry.level) authority entry.weight ::
      { top with remaining := remaining } :: below) = path (top :: below) ++ [entry.level] := by
    rw [path_cons, samePath]
    rfl
  simp only [answer, longer, samePath, frame_remaining, next, Resolver.credit_cons,
    Resolver.judge_of_found off found]
  cases resolver.credit signatures (path (top :: below) ++ [entry.level]) authority.accounts with
  | error e => rfl
  | ok inner =>
    cases resolver.credit signatures (path (top :: below)) remaining with
    | error e => rfl
    | ok more =>
      simp only [frame, bind, Except.bind, pure, Except.pure, Nat.add_assoc, Nat.zero_add,
        List.isEmpty_cons, Bool.false_eq_true, if_false]

theorem answer_leave {parent : Frame} {rest : List Frame} {met : Bool}
    (done : top.remaining = [])
    (hmet : met = decide (top.authority.threshold.toNat ≤ top.satisfied)) :
    answer resolver signatures 0 (credit met top.weight parent :: rest) =
      answer resolver signatures 0 (top :: parent :: rest) := by
  rw [answer_credit]
  conv => rhs; rw [answer]
  simp [done, hmet, bind, Except.bind]

end answers

section budgets

variable {top : Frame} {below : List Frame} {onPath onPath' : LevelSet} {entry : LevelWeight}
  {remaining : List LevelWeight}

theorem budget_reuse {met : Bool} (next : top.remaining = entry :: remaining) :
    budget resolver
        ⟨credit met entry.weight { top with remaining := remaining } :: below, onPath', verdicts⟩ <
      budget resolver ⟨top :: below, onPath, verdicts⟩ := by
  have samePath : path (credit met entry.weight { top with remaining := remaining } :: below) =
      path (top :: below) := by
    simp [path_cons, credit]
  simp only [budget, samePath, List.map_cons, List.sum_cons, credit_remaining, next,
    List.length_cons]
  omega

theorem budget_enter {authority : Authority} (next : top.remaining = entry :: remaining)
    (off : entry.level ∉ path (top :: below)) (verdict : verdicts[entry.level]? = none)
    (found : resolver.find? entry.level = some authority) :
    budget resolver
        ⟨frame signatures (some entry.level) authority entry.weight ::
          { top with remaining := remaining } :: below, onPath', verdicts⟩ <
      budget resolver ⟨top :: below, onPath, verdicts⟩ := by
  have longer : path (frame signatures (some entry.level) authority entry.weight ::
      { top with remaining := remaining } :: below) = path (top :: below) ++ [entry.level] := by
    simp [path_cons, frame]
  have visits : resolver.visits entry.level = 1 + authority.accounts.length := by
    simp [Resolver.visits, found]
  have spent := sum_filter_add_le (f := resolver.visits)
    (p := fun level => level ∉ path (top :: below) ∧ verdicts[level]? = none)
    (q := fun level => level ∉ path (top :: below) ++ [entry.level] ∧ verdicts[level]? = none)
    (by simp +contextual) (resolver.mem_levels found) (by simp [off, verdict]) (by simp)
  simp only [budget, longer, List.map_cons, List.sum_cons, frame_remaining, next, List.length_cons]
  omega

theorem budget_leave {parent : Frame} {rest : List Frame} {level : Level} {met : Bool}
    (named : top.level = some level) :
    budget resolver
        ⟨credit met top.weight parent :: rest, onPath', verdicts.insert level met⟩ <
      budget resolver ⟨top :: parent :: rest, onPath, verdicts⟩ := by
  have shorter : path (top :: parent :: rest) =
      path (credit met top.weight parent :: rest) ++ [level] := by
    simp [path_cons, credit, named]
  have fewer : ∀ l, decide (l ∉ path (credit met top.weight parent :: rest) ∧
        (verdicts.insert level met)[l]? = none) = true →
      decide (l ∉ path (top :: parent :: rest) ∧ verdicts[l]? = none) = true := by
    intro l
    simp only [shorter, Std.ExtTreeMap.getElem?_insert, Std.compare_eq_iff_eq]
    by_cases same : level = l <;> simp +contextual [same, Ne.symm]
  have spent := ((resolver.levels.monotone_filter_right fewer).map resolver.visits).sum_le_sum
    fun _ _ => Nat.zero_le _
  simp only [budget, List.map_cons, List.sum_cons, credit_remaining]
  omega

end budgets

/-- The four things a step can do. -/
theorem step_right {walk : Walk} (h : Sound resolver signatures walk) :
    Right resolver signatures walk (walk.step resolver signatures) := by
  obtain ⟨stack, onPath, verdicts⟩ := walk
  cases stack with
  | nil => exact absurd rfl h.nonempty
  | cons top below =>
    cases next : top.remaining with
    | cons entry remaining =>
      simp only [step, next]
      split
      case isTrue cyclic =>
        exact answer_of_entry_error next (Resolver.judge_of_mem ((h.mem_onPath _).mp cyclic))
      case isFalse off =>
        have offPath := mt (h.mem_onPath entry.level).mpr off
        split
        next met verdict =>
          have judged := h.settled _ _ verdict _ h.undecided
          exact ⟨h.reuse next verdict, budget_reuse next, answer_reuse next judged⟩
        next verdict =>
          split
          next unknown =>
            exact answer_of_entry_error next (Resolver.judge_of_unknown offPath unknown)
          next authority found =>
            exact ⟨h.enter next off verdict found, budget_enter next offPath verdict found,
              answer_enter next offPath found⟩
    | nil =>
      cases below with
      | nil => simp [step, Right, answer, next]
      | cons parent rest =>
        obtain ⟨-, explained⟩ := h.explained
        cases named : top.level with
        | none => simp [named] at explained
        | some level =>
          simp only [step, next, named]
          exact ⟨h.leave next named rfl, budget_leave named, answer_leave next rfl⟩

/-- There is always one more step to make. -/
theorem Sound.budget_pos {walk : Walk} (h : Sound resolver signatures walk) :
    0 < budget resolver walk := by
  obtain ⟨stack, onPath, verdicts⟩ := walk
  cases stack with
  | nil => exact absurd rfl h.nonempty
  | cons top below =>
    simp only [budget, List.map_cons, List.sum_cons]
    omega

/-- A walk with enough fuel ends with its answer. -/
theorem run_eq_answer {fuel : Nat} {walk : Walk} (h : Sound resolver signatures walk)
    (enough : budget resolver walk ≤ fuel) :
    walk.run resolver signatures fuel = answer resolver signatures 0 walk.stack := by
  induction fuel generalizing walk with
  | zero => exact absurd enough (Nat.not_le.mpr h.budget_pos)
  | succ fuel ih =>
    have right := step_right h
    unfold run
    cases outcome : walk.step resolver signatures with
    | running next =>
      rw [outcome] at right
      obtain ⟨sound, less, same⟩ := right
      have left : budget resolver next ≤ fuel := by omega
      exact (ih sound left).trans same
    | finished met => exact (outcome ▸ right : Right _ _ walk (.finished met)).symm
    | failed error => exact (outcome ▸ right : Right _ _ walk (.failed error)).symm

theorem sound_start {level : Option Level} {root : Authority}
    (found : ∀ l ∈ level, resolver.find? l = some root) :
    Sound resolver signatures (start signatures level root) := by
  have single : path (start signatures level root).stack = level.toList := by
    rw [start, path_cons]
    rfl
  refine ⟨by simp [start], ?_, ?_, ?_, ?_, ?_⟩
  · rw [single]
    cases level <;> simp
  · intro l
    rw [single]
    simp [start, Std.ExtTreeSet.mem_ofList]
  · simp [start]
  · simp [start]
  · refine ⟨⟨[], by simp [frame], by simp, by simp [frame]⟩, ?_⟩
    cases level with
    | none => rfl
    | some l => exact ⟨found l rfl, trivial⟩

theorem budget_start_le {level : Option Level} {root : Authority} :
    budget resolver (start signatures level root) ≤ enough resolver root := by
  have within : ((resolver.levels.filter fun l => l ∉ path (start signatures level root).stack ∧
      (start signatures level root).verdicts[l]? = none).map resolver.visits).sum ≤
        (resolver.levels.map resolver.visits).sum :=
    (List.filter_sublist.map resolver.visits).sum_le_sum fun _ _ => Nat.zero_le _
  simp only [budget, start, enough, total_eq_sum, List.map_cons, List.sum_cons, List.map_nil,
    List.sum_nil, frame_remaining] at within ⊢
  omega

end Walk

variable {resolver : Resolver}

theorem Authority.evaluate_eq (signatures : KeySet) (root : Authority) :
    root.evaluate resolver signatures = root.judge resolver signatures := by
  rw [evaluate, Walk.run_eq_answer (Walk.sound_start (by simp)) Walk.budget_start_le, judge_eq]
  simp [Walk.start, Walk.answer, Walk.path, Walk.frame]

theorem Level.evaluate_eq (signatures : KeySet) (level : Level) :
    level.evaluate resolver signatures = resolver.judge signatures [] level := by
  cases found : resolver.find? level with
  | none => simp only [evaluate, found, Resolver.judge_of_unknown List.not_mem_nil found]
  | some root =>
    simp only [evaluate, found]
    rw [Walk.run_eq_answer (Walk.sound_start (by simp [found])) Walk.budget_start_le,
      Resolver.judge_of_found List.not_mem_nil found]
    simp [Walk.start, Walk.answer, Walk.path, Walk.frame]

/-- Sharing permissions, remembering verdicts and the bound on the number of steps never show:
an evaluation gives the verdict, or the error with its path, that plain recursion gives. -/
theorem evaluate_eq_judge (resolver : Resolver) (signatures : KeySet) :
    (∀ root : Authority, root.evaluate resolver signatures = root.judge resolver signatures) ∧
      ∀ level : Level, level.evaluate resolver signatures = resolver.judge signatures [] level :=
  ⟨Authority.evaluate_eq signatures, Level.evaluate_eq signatures⟩

end ChainLab
