import ChainLab.Total
import Mathlib.Algebra.Order.BigOperators.Group.List
import Mathlib.Algebra.Order.Ring.Nat
import Mathlib.Data.List.Nodup
import Std.Data.ExtTreeMap

/-!
# Sums over the entries of a map

What the entries of a map sum up to is what one of them contributes and what the others
sum up to, wherever the map lists that one.
-/

namespace ChainLab

theorem total_eq_sum {α : Type} {measure : α → Nat} {items : List α} :
    total measure items = (items.map measure).sum := rfl

theorem mem_iff_exists_getElem? {α β : Type} [Ord α] [Std.TransOrd α]
    {entries : Std.ExtTreeMap α β} {k : α} : k ∈ entries ↔ ∃ v, entries[k]? = some v := by
  rw [Std.ExtTreeMap.mem_iff_isSome_getElem?, Option.isSome_iff_exists]

variable {α β : Type} [Ord α] [Std.TransOrd α] [Std.LawfulEqOrd α]
  {entries : Std.ExtTreeMap α β} {measure : α × β → Nat} {k : α} {v : β}

/-- A map lists each of its entries and, in some order, what is left without it. -/
theorem toList_perm_of_getElem? (h : entries[k]? = some v) :
    entries.toList.Perm ((k, v) :: (entries.erase k).toList) := by
  have nodup : ∀ m : Std.ExtTreeMap α β, m.toList.Nodup := by
    intro m
    refine m.distinct_keys_toList.imp ?_
    intro x y apart same
    exact apart (same ▸ Std.ReflCmp.compare_self)
  have outside : (k, v) ∉ (entries.erase k).toList := by
    intro mem
    have found := Std.ExtTreeMap.mem_toList_iff_getElem?_eq_some.mp mem
    simp at found
  refine (List.perm_ext_iff_of_nodup (nodup _) ((nodup _).cons outside)).mpr ?_
  rintro ⟨k', v'⟩
  rw [List.mem_cons, Std.ExtTreeMap.mem_toList_iff_getElem?_eq_some,
    Std.ExtTreeMap.mem_toList_iff_getElem?_eq_some, Std.ExtTreeMap.getElem?_erase]
  by_cases same : k = k'
  · subst same
    simp [h, eq_comm]
  · simp [same, Ne.symm same]

/-- What all entries but one sum up to. -/
def sumBut (measure : α × β → Nat) (entries : Std.ExtTreeMap α β) (k : α) : Nat :=
  ((entries.erase k).toList.map measure).sum

theorem sum_of_getElem? (h : entries[k]? = some v) :
    (entries.toList.map measure).sum = measure (k, v) + sumBut measure entries k :=
  ((toList_perm_of_getElem? h).map measure).sum_eq

theorem sum_of_getElem?_eq_none (h : entries[k]? = none) :
    (entries.toList.map measure).sum = sumBut measure entries k := by
  have same : entries.erase k = entries := by
    refine Std.ExtTreeMap.ext_getElem? fun other => ?_
    rw [Std.ExtTreeMap.getElem?_erase]
    by_cases apart : k = other
    · subst apart
      simp [h]
    · simp [apart]
  rw [sumBut, same]

/-- Entering a value leaves the others alone. -/
theorem sum_insert :
    ((entries.insert k v).toList.map measure).sum = measure (k, v) + sumBut measure entries k := by
  have others : (entries.insert k v).erase k = entries.erase k := by
    refine Std.ExtTreeMap.ext_getElem? fun other => ?_
    rw [Std.ExtTreeMap.getElem?_erase, Std.ExtTreeMap.getElem?_erase,
      Std.ExtTreeMap.getElem?_insert]
    by_cases apart : k = other <;> simp [apart]
  rw [sum_of_getElem? (by simp : (entries.insert k v)[k]? = some v), sumBut, others, sumBut]

end ChainLab
