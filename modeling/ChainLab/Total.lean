/-!
# Sums over lists
-/

namespace ChainLab

/-- The sum of a measure over a list, folded over plain numbers. -/
def total {α : Type} (measure : α → Nat) (items : List α) : Nat :=
  (items.map measure).foldr (· + ·) 0

end ChainLab
