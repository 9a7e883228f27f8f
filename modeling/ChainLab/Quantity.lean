/-!
# Time and money

Chain time saturates at both ends; amounts of the native token are exact, and a
sum or difference out of range is refused.
-/

namespace ChainLab

/-- Chain time in abstract units. -/
structure Time where
  ticks : UInt64
  deriving DecidableEq

namespace Time

def zero : Time := ⟨0⟩

/-- The moment `span` units later, or the last moment there is. -/
def after (t : Time) (span : UInt64) : Time :=
  ⟨UInt64.ofNat (min (t.ticks.toNat + span.toNat) (UInt64.size - 1))⟩

/-- Units elapsed since `earlier`, none if `earlier` lies ahead. -/
def since (t earlier : Time) : UInt64 := UInt64.ofNat (t.ticks.toNat - earlier.ticks.toNat)

instance : LT Time := ⟨fun a b => a.ticks < b.ticks⟩

instance : LE Time := ⟨fun a b => a.ticks ≤ b.ticks⟩

instance (a b : Time) : Decidable (a < b) := inferInstanceAs (Decidable (a.ticks < b.ticks))

instance (a b : Time) : Decidable (a ≤ b) := inferInstanceAs (Decidable (a.ticks ≤ b.ticks))

instance : ToString Time := ⟨fun t => s!"t{t.ticks}"⟩

theorem toNat_after (t : Time) (span : UInt64) :
    (t.after span).ticks.toNat = min (t.ticks.toNat + span.toNat) (UInt64.size - 1) := by
  simp only [after, UInt64.toNat_ofNat']
  exact Nat.mod_eq_of_lt (Nat.lt_of_le_of_lt (Nat.min_le_right _ _) (by decide))

theorem toNat_since (t earlier : Time) :
    (t.since earlier).toNat = t.ticks.toNat - earlier.ticks.toNat := by
  simp only [since, UInt64.toNat_ofNat']
  exact Nat.mod_eq_of_lt (Nat.lt_of_le_of_lt (Nat.sub_le _ _) t.ticks.toNat_lt)

/-- Short of the last moment, time goes on. -/
theorem lt_after {t : Time} {span : UInt64} (positive : 0 < span)
    (early : (t.after span).ticks.toNat < UInt64.size - 1) : t < t.after span := by
  have sum := t.toNat_after span
  have some : 0 < span.toNat := UInt64.lt_iff_toNat_lt.mp positive
  apply UInt64.lt_iff_toNat_lt.mpr
  omega

end Time

/-- A quantity of the native token, in whole units. -/
structure Amount where
  units : UInt64
  deriving DecidableEq

namespace Amount

def zero : Amount := ⟨0⟩

def add? (a b : Amount) : Option Amount :=
  if a.units.toNat + b.units.toNat < UInt64.size then some ⟨a.units + b.units⟩ else none

def sub? (a b : Amount) : Option Amount :=
  if b.units ≤ a.units then some ⟨a.units - b.units⟩ else none

instance : ToString Amount := ⟨fun a => s!"{a.units} units"⟩

theorem toNat_of_add? {a b c : Amount} (h : a.add? b = some c) :
    c.units.toNat = a.units.toNat + b.units.toNat := by
  simp only [add?] at h
  split at h
  · next hlt =>
    cases h
    rw [UInt64.toNat_add]
    exact Nat.mod_eq_of_lt hlt
  · cases h

theorem toNat_of_sub? {a b c : Amount} (h : a.sub? b = some c) :
    c.units.toNat + b.units.toNat = a.units.toNat := by
  simp only [sub?] at h
  split at h
  · next hle =>
    cases h
    have := UInt64.le_iff_toNat_le.mp hle
    rw [UInt64.toNat_sub_of_le _ _ hle]
    omega
  · cases h

end Amount

end ChainLab
