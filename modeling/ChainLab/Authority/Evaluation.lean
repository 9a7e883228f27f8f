import ChainLab.Authority
import Std.Data.ExtTreeMap

/-!
# Evaluating an authority

Delegations form a graph that may share permissions and may contain cycles. The
evaluation is a depth-first walk with an explicit stack: a permission met again
on the current path is a cycle, one that is already decided is not walked again.
Every reachable entry is visited, so a malformed graph is reported no matter
which signatures are present.
-/

namespace ChainLab

/-- Finitely many permissions with their authorities. -/
structure Resolver where
  find? : Level → Option Authority
  /-- Every permission that resolves is listed. -/
  levels : List Level
  mem_levels : ∀ {level : Level} {authority : Authority},
    find? level = some authority → level ∈ levels

namespace Resolver

def ofMap (graph : Std.ExtTreeMap Level Authority) : Resolver where
  find? level := graph[level]?
  levels := graph.keys
  mem_levels h := by
    rw [Std.ExtTreeMap.mem_keys]
    exact Std.ExtTreeMap.mem_iff_isSome_getElem?.mpr (by simp [h])

/-- How many entries the authority of a permission has, plus one for the permission. -/
def visits (resolver : Resolver) (level : Level) : Nat :=
  1 + ((resolver.find? level).map (·.accounts.length)).getD 0

end Resolver

/-- An authority whose entries are being visited. -/
structure Frame where
  /-- The permission that led here, none for an authority given directly. -/
  level : Option Level
  authority : Authority
  remaining : List LevelWeight
  /-- The weight gained so far, never more than the authority's `totalWeight`. -/
  satisfied : Nat
  /-- What the enclosing authority gains if this one is met. -/
  weight : UInt32

structure Walk where
  /-- The innermost authority first. -/
  stack : List Frame
  onPath : LevelSet
  verdicts : Std.ExtTreeMap Level Bool

inductive Walk.Outcome where
  | running (next : Walk)
  | finished (met : Bool)
  | failed (error : AuthorityError)

namespace Walk

def frame (signatures : KeySet) (level : Option Level) (authority : Authority) (weight : UInt32) :
    Frame :=
  ⟨level, authority, authority.accounts, authority.keyWeight signatures, weight⟩

/-- A walk that begins at an authority; its permission, if named, is on the path. -/
def start (signatures : KeySet) (level : Option Level) (root : Authority) : Walk where
  stack := [frame signatures level root 0]
  onPath := Std.ExtTreeSet.ofList level.toList
  verdicts := ∅

/-- The named permissions on the stack, outermost first. -/
def path (stack : List Frame) : List Level := (stack.filterMap (·.level)).reverse

def credit (met : Bool) (weight : UInt32) (f : Frame) : Frame :=
  { f with satisfied := f.satisfied + if met then weight.toNat else 0 }

/-- Visit one entry of the innermost authority, or leave it when none remains. -/
def step (resolver : Resolver) (signatures : KeySet) (walk : Walk) : Outcome :=
  match walk.stack with
  | [] => .finished false
  | top :: below =>
    match top.remaining with
    | entry :: remaining =>
      let top := { top with remaining }
      if entry.level ∈ walk.onPath then
        .failed (.cycle entry.level (path (top :: below) ++ [entry.level]))
      else
        match walk.verdicts[entry.level]? with
        | some met => .running { walk with stack := credit met entry.weight top :: below }
        | none =>
          match resolver.find? entry.level with
          | none => .failed (.unknownLevel entry.level)
          | some authority =>
            .running
              { stack := frame signatures (some entry.level) authority entry.weight :: top :: below
                onPath := walk.onPath.insert entry.level
                verdicts := walk.verdicts }
    | [] =>
      let met : Bool := top.authority.threshold.toNat ≤ top.satisfied
      match below with
      | [] => .finished met
      | parent :: rest =>
        let stack := credit met top.weight parent :: rest
        match top.level with
        | none => .running { walk with stack }
        | some level =>
          .running
            { stack
              onPath := walk.onPath.erase level
              verdicts := walk.verdicts.insert level met }

/-- At most `fuel` steps. -/
def run (resolver : Resolver) (signatures : KeySet) :
    (fuel : Nat) → Walk → Except AuthorityError Bool
  | 0, _ => .ok false
  | fuel + 1, walk =>
    match walk.step resolver signatures with
    | .running next => run resolver signatures fuel next
    | .finished met => .ok met
    | .failed error => .error error

/-- Enough steps for any walk: each permission is entered and left once and each
of its entries is visited once. -/
def enough (resolver : Resolver) (root : Authority) : Nat :=
  1 + root.accounts.length + total resolver.visits resolver.levels

end Walk

/-- Whether an authority is met by the signatures. -/
def Authority.evaluate (resolver : Resolver) (signatures : KeySet) (root : Authority) :
    Except AuthorityError Bool :=
  (Walk.start signatures none root).run resolver signatures (Walk.enough resolver root)

/-- Whether the authority of a permission is met; the permission itself counts as visited. -/
def Level.evaluate (resolver : Resolver) (signatures : KeySet) (level : Level) :
    Except AuthorityError Bool :=
  match resolver.find? level with
  | none => .error (.unknownLevel level)
  | some root =>
    (Walk.start signatures (some level) root).run resolver signatures (Walk.enough resolver root)

end ChainLab
