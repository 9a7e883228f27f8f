import ChainLab.Digest
import ChainLab.Level
import ChainLab.Total

/-!
# Authorities

An authority is met when the weights of its satisfied entries reach its
threshold. A key entry is satisfied by a signature of that key, an account entry
when the authority it points at is met in turn.
-/

namespace ChainLab

abbrev KeySet := Std.ExtTreeSet PublicKey

structure KeyWeight where
  key : PublicKey
  weight : UInt32
  deriving DecidableEq

structure LevelWeight where
  level : Level
  weight : UInt32
  deriving DecidableEq

structure Authority where
  threshold : UInt32
  keys : List KeyWeight
  accounts : List LevelWeight
  deriving DecidableEq

inductive AuthorityError where
  | zeroThreshold
  /-- `path` runs from the first permission visited to the repeated one. -/
  | cycle (level : Level) (path : List Level)
  | unknownLevel (level : Level)
  deriving DecidableEq

namespace AuthorityError

def kind : AuthorityError → String
  | .zeroThreshold => "InvalidThreshold"
  | .cycle _ _ => "CyclicAuthorityReference"
  | .unknownLevel _ => "UnknownAccountOrPermission"

def message : AuthorityError → String
  | .zeroThreshold => "authority threshold must be greater than zero"
  | .cycle level path =>
    let shown := " -> ".intercalate (path.map toString)
    s!"cyclic authority reference to {level} (path: {shown})"
  | .unknownLevel level => s!"unknown account or permission {level}"

end AuthorityError

namespace Authority

/-- One key of weight one. -/
def ofKey (key : PublicKey) : Authority := ⟨1, [⟨key, 1⟩], []⟩

/-- One delegation to the active permission of an account. -/
def ofAccount (account : AccountName) : Authority := ⟨1, [], [⟨Level.active account, 1⟩]⟩

/-- An authority has a positive threshold; whether it can be reached is not asked. -/
def make (threshold : UInt32) (keys : List KeyWeight) (accounts : List LevelWeight) :
    Except AuthorityError Authority :=
  if threshold = 0 then .error .zeroThreshold else .ok ⟨threshold, keys, accounts⟩

/-- The weight of all entries. The weights have 32 bits, so those of fewer than `2 ^ 32` entries
add up below `2 ^ 64`. -/
def totalWeight (a : Authority) : Nat :=
  total (·.weight.toNat) a.keys + total (·.weight.toNat) a.accounts

/-- Whether some set of signers could meet the authority. -/
def satisfiable (a : Authority) : Bool := 0 < a.threshold && a.threshold.toNat ≤ a.totalWeight

/-- The weight of the key entries signed for, a part of `totalWeight`. -/
def keyWeight (a : Authority) (signatures : KeySet) : Nat :=
  total (·.weight.toNat) (a.keys.filter fun entry => signatures.contains entry.key)

end Authority

end ChainLab
