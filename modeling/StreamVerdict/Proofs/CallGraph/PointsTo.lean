/-
  Points-to sets by their members.

  Adding objects to one set changes that set only, and nothing is ever taken out.
-/
import StreamVerdict.CallGraph.PointsTo
import StreamVerdict.Proofs.Data.OrdSet
import StreamVerdict.Proofs.Data.Order

namespace StreamVerdict
namespace PointsTo

theorem get_set_self (p : PointsTo) (n : Nat) (v : ValueNumber) (s : OrdSet Instance) :
    (p.set n v s).get n v = s := by
  simp [get, set]

theorem get_set_ne (p : PointsTo) {n m : Nat} {v w : ValueNumber} (s : OrdSet Instance)
    (h : (m, w) ≠ (n, v)) : (p.set n v s).get m w = p.get m w := by
  have hb : ((m, w) == (n, v)) = false := beq_false_of_ne h
  rw [get, set, List.lookup_cons, hb, get]
  show ((p.cells.filter fun c => c.1 ≠ (n, v)).lookup (m, w)).getD ∅ = _
  rw [lookup_filter_ne p.cells h]

theorem mem_get_insertAll {p : PointsTo} {n m : Nat} {v w : ValueNumber} {is : List Instance}
    {o : Instance} :
    o ∈ (p.insertAll n v is).get m w ↔ o ∈ p.get m w ∨ (m = n ∧ w = v ∧ o ∈ is) := by
  rw [insertAll]
  by_cases h : (m, w) = (n, v)
  · obtain ⟨rfl, rfl⟩ := Prod.mk.injEq .. ▸ h
    rw [get_set_self, OrdSet.mem_insertAll]
    simp [or_comm]
  · rw [get_set_ne p _ h]
    have hne : ¬ (m = n ∧ w = v) := fun hmw => h (by rw [hmw.1, hmw.2])
    constructor
    · exact Or.inl
    · rintro (ho | ⟨hm, hw, -⟩)
      · exact ho
      · exact absurd ⟨hm, hw⟩ hne

theorem lacks_eq_false {p : PointsTo} {n : Nat} {v : ValueNumber} {is : List Instance} :
    p.lacks n v is = false ↔ ∀ o ∈ is, o ∈ p.get n v := by
  simp [lacks]

theorem mem_union {p : PointsTo} {n : Nat} {vs : List ValueNumber} {o : Instance} :
    o ∈ p.union n vs ↔ ∃ v ∈ vs, o ∈ p.get n v := by
  simp [union]

/-- Every set of `p` is contained in the set of `q` for the same value. -/
instance : LE PointsTo := ⟨fun p q => ∀ n v, p.get n v ⊆ q.get n v⟩

theorem le_refl (p : PointsTo) : p ≤ p := fun _ _ _ h => h

theorem le_of_eq {p q : PointsTo} (hpq : p = q) : p ≤ q := by
  rw [hpq]
  exact le_refl q

theorem le_trans {p q r : PointsTo} (hpq : p ≤ q) (hqr : q ≤ r) : p ≤ r :=
  fun n v o h => hqr n v o (hpq n v o h)

theorem le_insertAll (p : PointsTo) (n : Nat) (v : ValueNumber) (is : List Instance) :
    p ≤ p.insertAll n v is :=
  fun _ _ _ h => mem_get_insertAll.mpr (Or.inl h)

end PointsTo
end StreamVerdict
