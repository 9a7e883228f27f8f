import ChainLab.Proofs.MalformedGraph
import Mathlib.Data.List.Chain

/-!
# A reported cycle is there

An evaluation that comes back to a permission on its path reports the way it went. Every step of
that way is an account entry, and nothing on it is met twice but the permission that it comes back
to. So whoever reads the error can find the cycle in the permissions themselves.
-/

namespace ChainLab

/-- In a chain everything but the last element is related to what comes next. -/
theorem exists_next_of_isChain {α : Type} {r : α → α → Prop} {items : List α} {last a : α}
    (chain : (items ++ [last]).IsChain r) (mem : a ∈ items) : ∃ next, r a next := by
  obtain ⟨before, after, rfl⟩ := List.append_of_mem mem
  rw [List.append_assoc, List.cons_append] at chain
  have rest := chain.right_of_append
  cases after with
  | nil => exact ⟨last, (List.isChain_cons_cons.mp rest).1⟩
  | cons next later => exact ⟨next, (List.isChain_cons_cons.mp rest).1⟩

namespace Resolver

/-- A way along account entries that comes back to where it has been once, and nowhere else. -/
structure Loop (resolver : Resolver) (level : Level) (way : List Level) : Prop where
  ends : way = way.dropLast ++ [level]
  nodup : way.dropLast.Nodup
  once : way.dropLast.count level = 1
  resolves : ∀ visited ∈ way, ∃ authority, resolver.find? visited = some authority
  delegates : way.IsChain resolver.Delegates

variable {resolver : Resolver} {signatures : KeySet} {path way : List Level} {start level : Level}

theorem loop_of_mem (simple : path.Nodup) (mem : level ∈ path)
    (chain : (path ++ [level]).IsChain resolver.Delegates) :
    resolver.Loop level (path ++ [level]) where
  ends := by simp
  nodup := by simpa using simple
  once := by simpa using List.count_eq_one_of_mem simple mem
  resolves := by
    have visited : ∀ l ∈ path, ∃ authority, resolver.find? l = some authority := by
      intro l hl
      obtain ⟨next, authority, found, -⟩ := exists_next_of_isChain chain hl
      exact ⟨authority, found⟩
    exact List.forall_mem_append.mpr ⟨visited, by simpa using visited level mem⟩
  delegates := chain

/-- The induction carries the path along: it repeats nothing, and its steps up to the permission
that is judged next are account entries. -/
theorem loop_of_judge_eq_cycle
    (h : resolver.judge signatures path start = .error (.cycle level way)) (simple : path.Nodup)
    (chain : (path ++ [start]).IsChain resolver.Delegates) :
    resolver.Loop level way ∧ path ++ [start] <+: way := by
  induction path, start using resolver.judge_induction with
  | cyclic path start mem =>
    rw [judge_of_mem mem] at h
    cases h
    exact ⟨loop_of_mem simple mem chain, List.prefix_rfl⟩
  | unknown path start off unknown =>
    rw [judge_of_unknown off unknown] at h
    cases h
  | found path start authority off found below =>
    rw [judge_of_found off found] at h
    rcases bind_eq_error.mp h with credited | ⟨gained, -, done⟩
    · obtain ⟨entry, mem, failed⟩ := exists_of_credit_eq_error credited
      have delegates : resolver.Delegates start entry.level := ⟨authority, found, entry, mem, rfl⟩
      have longer : (path ++ [start]).Nodup :=
        List.nodup_append_comm.mp (List.nodup_cons.mpr ⟨off, simple⟩)
      have further : ((path ++ [start]) ++ [entry.level]).IsChain resolver.Delegates := by
        apply chain.append (.singleton _)
        simpa using delegates
      obtain ⟨loop, within⟩ := below entry.level failed longer further
      exact ⟨loop, (List.prefix_append _ _).trans within⟩
    · cases done

/-- On an empty path the way that is reported begins where the evaluation did. -/
theorem loop_from_of_judge_eq_cycle
    (h : resolver.judge signatures [] start = .error (.cycle level way)) :
    resolver.Loop level way ∧ way.head? = some start := by
  obtain ⟨loop, rest, rfl⟩ := loop_of_judge_eq_cycle h .nil (.singleton _)
  exact ⟨loop, rfl⟩

end Resolver

/-- Whenever an evaluation reports a cycle, it is there: the way that is reported ends in the
permission that is named, which it has been through once before, and otherwise repeats nothing; all
permissions on it resolve, and each has an account entry for the next. It begins with an account
entry of the authority, or with the permission that was evaluated by its name. -/
theorem reported_cycle_is_loop (resolver : Resolver) (signatures : KeySet) (level : Level)
    (way : List Level) :
    (∀ root : Authority,
      root.evaluate resolver signatures = .error (.cycle level way) →
        resolver.Loop level way ∧ ∃ entry ∈ root.accounts, way.head? = some entry.level) ∧
    ∀ start : Level,
      start.evaluate resolver signatures = .error (.cycle level way) →
        resolver.Loop level way ∧ way.head? = some start := by
  constructor
  · intro root failed
    rw [Authority.evaluate_eq] at failed
    rcases bind_eq_error.mp failed with credited | ⟨gained, -, done⟩
    · obtain ⟨entry, mem, judged⟩ := Resolver.exists_of_credit_eq_error credited
      obtain ⟨loop, first⟩ := Resolver.loop_from_of_judge_eq_cycle judged
      exact ⟨loop, entry, mem, first⟩
    · cases done
  · intro start failed
    rw [Level.evaluate_eq] at failed
    exact Resolver.loop_from_of_judge_eq_cycle failed

section sample

/-- From `a` and from `b` account entries lead to `c`, from there to `d`, and back to `c`. -/
def sampleRound : Resolver :=
  let graph : Std.ExtTreeMap Level Authority := ∅
  .ofMap ((((graph.insert (Level.active "a") (.ofAccount "c")).insert
    (Level.active "b") (.ofAccount "c")).insert (Level.active "c") (.ofAccount "d")).insert
    (Level.active "d") (.ofAccount "c"))

/-- The cycle lies below the permission that the way begins with. -/
theorem reported_cycle_is_loop_sample :
    let root : Authority := ⟨1, [], [⟨Level.active "b", 1⟩, ⟨Level.active "a", 1⟩]⟩
    let way := [Level.active "b", Level.active "c", Level.active "d", Level.active "c"]
    root.evaluate sampleRound ∅ = .error (.cycle (Level.active "c") way) ∧
      sampleRound.Loop (Level.active "c") way ∧
      (Level.active "c").evaluate sampleRound ∅ =
        .error (.cycle (Level.active "c") (way.drop 1)) ∧
      sampleRound.Loop (Level.active "c") (way.drop 1) := by
  intro root way
  have below : root.evaluate sampleRound ∅ = .error (.cycle (Level.active "c") way) := by
    decide +kernel
  have whole : (Level.active "c").evaluate sampleRound ∅ =
      .error (.cycle (Level.active "c") (way.drop 1)) := by
    decide +kernel
  obtain ⟨loop, -⟩ := (reported_cycle_is_loop sampleRound ∅ _ way).1 root below
  obtain ⟨loop', -⟩ := (reported_cycle_is_loop sampleRound ∅ _ (way.drop 1)).2 _ whole
  exact ⟨below, loop, whole, loop'⟩

end sample

end ChainLab
