/-
  The comparisons of the library decide equality.

  Names, static types, methods, call sites, calling contexts and abstract objects are compared
  field by field.  Each comparison answers "equal" for equal values only, which is what a set
  listed in ascending order needs in order to hold every member that was put into it.
-/
import StreamVerdict.CallGraph.Context
import StreamVerdict.StaticType.Basic
import StreamVerdict.Typestate.Protocol

namespace StreamVerdict

open Std

/-! ### Comparing along a field -/

/-- A comparison that answers "equal" exactly for equal values is lawful. -/
theorem lawfulEqOrd_of_iff {α : Type} [Ord α] (h : ∀ a b : α, compare a b = .eq ↔ a = b) :
    LawfulEqOrd α where
  compare_self := (h _ _).mpr rfl
  eq_of_compare := (h _ _).mp

theorem compareOn_eq_eq {α β : Type} [Ord β] [LawfulEqOrd β] {f : α → β} {a b : α} :
    compareOn f a b = .eq ↔ f a = f b := by
  rw [compareOn, LawfulEqOrd.compare_eq_iff_eq]

/-! ### Types and methods -/

instance : LawfulEqOrd TypeName := by
  apply lawfulEqOrd_of_iff
  intro a b
  rw [TypeName.mk.injEq]
  exact compareOn_eq_eq

instance : LawfulEqOrd Loader := by
  apply lawfulEqOrd_of_iff
  intro a b
  show compareOn Loader.rank a b = .eq ↔ a = b
  rw [compareOn_eq_eq]
  cases a <;> cases b <;> decide

instance : LawfulEqOrd TypeRef := by
  apply lawfulEqOrd_of_iff
  intro a b
  rw [TypeRef.mk.injEq]
  show compareLex _ _ a b = .eq ↔ _
  rw [compareLex_eq_eq, compareOn_eq_eq, compareOn_eq_eq]

/-- The rank tells points from cones, and the type tells those of one kind apart. -/
instance : LawfulEqOrd StaticType := by
  apply lawfulEqOrd_of_iff
  intro a b
  show compareLex _ _ a b = .eq ↔ _
  rw [compareLex_eq_eq, compareOn_eq_eq, compareOn_eq_eq]
  cases a <;> cases b <;> simp [StaticType.rank, StaticType.typeRef?]

instance : LawfulEqOrd MethodRef := by
  apply lawfulEqOrd_of_iff
  intro a b
  rw [MethodRef.mk.injEq]
  show compareLex _ (compareLex _ (compareLex _ _)) a b = .eq ↔ _
  rw [compareLex_eq_eq, compareLex_eq_eq, compareLex_eq_eq, compareOn_eq_eq, compareOn_eq_eq,
    compareOn_eq_eq, compareOn_eq_eq]

instance : LawfulEqOrd Invocation := by
  apply lawfulEqOrd_of_iff
  intro a b
  show compareOn Invocation.rank a b = .eq ↔ a = b
  rw [compareOn_eq_eq]
  cases a <;> cases b <;> decide

instance : LawfulEqOrd CallSite := by
  apply lawfulEqOrd_of_iff
  intro a b
  rw [CallSite.mk.injEq]
  show compareLex _ (compareLex _ _) a b = .eq ↔ _
  rw [compareLex_eq_eq, compareLex_eq_eq, compareOn_eq_eq, compareOn_eq_eq, compareOn_eq_eq]

instance : LawfulEqOrd NewSite := by
  apply lawfulEqOrd_of_iff
  intro a b
  rw [NewSite.mk.injEq]
  show compareLex _ _ a b = .eq ↔ _
  rw [compareLex_eq_eq, compareOn_eq_eq, compareOn_eq_eq]

/-! ### Calling contexts and abstract objects -/

instance : LawfulEqOrd Frame := by
  apply lawfulEqOrd_of_iff
  intro a b
  rw [Frame.mk.injEq]
  show compareLex _ _ a b = .eq ↔ _
  rw [compareLex_eq_eq, compareOn_eq_eq, compareOn_eq_eq]

instance : LawfulEqOrd CallString := by
  apply lawfulEqOrd_of_iff
  intro a b
  rw [CallString.mk.injEq]
  exact compareOn_eq_eq

/-- The rank tells the two kinds of allocation apart; the remaining fields tell allocations
    of one kind apart. -/
instance : LawfulEqOrd Allocation := by
  apply lawfulEqOrd_of_iff
  intro a b
  show compareLex _ (compareLex _ (compareLex _ _)) a b = .eq ↔ _
  rw [compareLex_eq_eq, compareLex_eq_eq, compareLex_eq_eq, compareOn_eq_eq, compareOn_eq_eq,
    compareOn_eq_eq, compareOn_eq_eq]
  cases a <;> cases b <;>
    simp [Allocation.rank, Allocation.method?, Allocation.site?, Allocation.new?, Allocation.type]
  rintro - rfl
  rfl

instance : LawfulEqOrd Instance := by
  apply lawfulEqOrd_of_iff
  intro a b
  rw [Instance.mk.injEq]
  show compareLex _ _ a b = .eq ↔ _
  rw [compareLex_eq_eq, compareOn_eq_eq, compareOn_eq_eq]

/-! ### States -/

instance : LawfulEqOrd State := by
  apply lawfulEqOrd_of_iff
  intro a b
  rw [State.mk.injEq]
  exact compareOn_eq_eq

end StreamVerdict
