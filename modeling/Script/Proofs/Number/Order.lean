import Script.Number.Basic

/-!
# Equality and order of numbers

Numbers other than NaN are ordered by their keys, and they are equal if their keys are; a NaN is
neither equal to anything nor ordered with it.
-/

namespace Script.Number

variable {x y z : Number}

theorem compare?_eq_some_iff {o : Ordering} : x.compare? y = some o ↔
    x.isNaN = false ∧ y.isNaN = false ∧ Ord.compare x.key y.key = o := by
  unfold compare?
  cases x.isNaN <;> cases y.isNaN <;> simp

theorem compare?_swap (x y : Number) : y.compare? x = (x.compare? y).map Ordering.swap := by
  rw [compare?, compare?, Bool.or_comm]
  split
  · rfl
  · exact congrArg some Std.OrientedOrd.eq_swap

theorem compare?_lt_trans (h : x.compare? y = some .lt) (h' : y.compare? z = some .lt) :
    x.compare? z = some .lt := by
  obtain ⟨hx, -, hlt⟩ := compare?_eq_some_iff.mp h
  obtain ⟨-, hz, hlt'⟩ := compare?_eq_some_iff.mp h'
  exact compare?_eq_some_iff.mpr ⟨hx, hz, Std.TransCmp.lt_trans hlt hlt'⟩

theorem compare?_eq_lt_iff (hx : x.isNaN = false) (hy : y.isNaN = false) :
    x.compare? y = some .lt ↔ x.key < y.key := by
  rw [compare?_eq_some_iff, Int.compare_eq_lt]
  simp only [hx, hy, true_and]

theorem eq_iff_compare? : x.eq y = true ↔ x.compare? y = some .eq := beq_iff_eq

theorem eq_iff : x.eq y = true ↔ x.isNaN = false ∧ y.isNaN = false ∧ x.key = y.key := by
  rw [eq_iff_compare?, compare?_eq_some_iff, Std.compare_eq_iff_eq]

theorem eq_self_iff : x.eq x = true ↔ x.isNaN = false := by
  rw [eq_iff]
  exact ⟨fun h => h.1, fun h => ⟨h, h, rfl⟩⟩

theorem eq_symm (h : x.eq y = true) : y.eq x = true := by
  obtain ⟨hx, hy, hkey⟩ := eq_iff.mp h
  exact eq_iff.mpr ⟨hy, hx, hkey.symm⟩

theorem eq_trans (h : x.eq y = true) (h' : y.eq z = true) : x.eq z = true := by
  obtain ⟨hx, -, hkey⟩ := eq_iff.mp h
  obtain ⟨-, hz, hkey'⟩ := eq_iff.mp h'
  exact eq_iff.mpr ⟨hx, hz, hkey.trans hkey'⟩

end Script.Number
