/-
  Membership in sets listed in ascending order.

  Every operation on a set is known by its members: insertion keeps every old member and adds
  the new one because the comparison decides equality, and sets with the same members are the
  same.  Tables of sets are association lists in which an entry is replaced by putting
  the new one in front and dropping the old one.
-/
import StreamVerdict.Data.OrdSet

namespace StreamVerdict
namespace OrdSet

open Std

variable {α : Type} [Ord α]

/-- Every member of `s` is one of `t`. -/
instance : HasSubset (OrdSet α) := ⟨fun s t => ∀ a, a ∈ s → a ∈ t⟩

@[simp] theorem mem_toList {a : α} {s : OrdSet α} : a ∈ s.toList ↔ a ∈ s := Iff.rfl

theorem Subset.refl (s : OrdSet α) : s ⊆ s := fun _ h => h

theorem Subset.trans {s t u : OrdSet α} (hst : s ⊆ t) (htu : t ⊆ u) : s ⊆ u :=
  fun a h => htu a (hst a h)

theorem toList_eq_nil_iff {s : OrdSet α} : s.toList = [] ↔ ∀ a, a ∉ s := by
  rw [List.eq_nil_iff_forall_not_mem]
  rfl

theorem mem_filter {a : α} {s : OrdSet α} {p : α → Bool} : a ∈ s.filter p ↔ a ∈ s ∧ p a = true :=
  List.mem_filter

variable [LawfulEqOrd α]

/-- Each member is listed once. -/
theorem nodup (s : OrdSet α) : s.toList.Nodup := by
  refine List.Pairwise.imp ?_ s.ascending
  rintro a b hlt rfl
  rw [compare_self] at hlt
  cases hlt

theorem mem_insertAscending {a b : α} {l : List α} :
    b ∈ insertAscending a l ↔ b = a ∨ b ∈ l := by
  induction l with
  | nil => simp [insertAscending]
  | cons c l ih =>
      rw [insertAscending]
      cases hc : compare a c with
      | lt => simp
      | eq =>
          -- The old member is kept in place of the new one, which is equal to it.
          have hac : a = c := LawfulEqOrd.eq_of_compare hc
          simp [hac]
      | gt =>
          simp only [List.mem_cons, ih]
          rw [or_left_comm]

variable [TransOrd α]

/-- Sets that have the same members are the same. -/
theorem ext {s t : OrdSet α} (h : ∀ a, a ∈ s ↔ a ∈ t) : s = t := by
  have hperm : s.toList.Perm t.toList := (List.perm_ext_iff_of_nodup s.nodup t.nodup).mpr h
  have hlist : s.toList = t.toList := by
    apply List.Perm.eq_of_pairwise ?_ s.ascending t.ascending hperm
    -- No two members are smaller than each other.
    intro a b _ _ hab hba
    rw [OrientedCmp.gt_of_lt hab] at hba
    cases hba
  cases s
  cases t
  rw [OrdSet.mk.injEq]
  exact hlist

@[simp] theorem mem_insert {a b : α} {s : OrdSet α} : b ∈ s.insert a ↔ b = a ∨ b ∈ s :=
  mem_insertAscending

@[simp] theorem mem_insertAll {b : α} {s : OrdSet α} {l : List α} :
    b ∈ s.insertAll l ↔ b ∈ l ∨ b ∈ s := by
  induction l generalizing s with
  | nil => simp [insertAll]
  | cons a l ih =>
      show b ∈ (s.insert a).insertAll l ↔ _
      rw [ih, mem_insert, List.mem_cons]
      rw [or_left_comm, or_assoc]

@[simp] theorem mem_ofList {b : α} {l : List α} : b ∈ ofList l ↔ b ∈ l := by
  rw [ofList, mem_insertAll]
  simp

@[simp] theorem mem_union {b : α} {s t : OrdSet α} : b ∈ s.union t ↔ b ∈ s ∨ b ∈ t := by
  rw [union, mem_insertAll, mem_toList, or_comm]

end OrdSet

/-! ### Tables -/

theorem mem_of_lookup {α β : Type} [BEq α] [LawfulBEq α] {l : List (α × β)} {a : α} {b : β}
    (h : l.lookup a = some b) : (a, b) ∈ l := by
  obtain ⟨before, after, rfl, -⟩ := List.lookup_eq_some_iff.mp h
  exact List.mem_append_right _ List.mem_cons_self

theorem notMem_keys_of_lookup {α β : Type} [BEq α] [LawfulBEq α] {l : List (α × β)} {a : α}
    (h : l.lookup a = none) : a ∉ l.map Prod.fst := by
  intro hmem
  obtain ⟨e, he, rfl⟩ := List.mem_map.mp hmem
  rw [List.lookup_eq_none_iff] at h
  exact absurd (h e he) (by simp)

theorem lookup_cons_of_ne {α β : Type} [BEq α] [LawfulBEq α] {l : List (α × β)} {a c : α} {b : β}
    (h : a ≠ c) : ((c, b) :: l).lookup a = l.lookup a := by
  rw [List.lookup_cons, beq_eq_false_iff_ne.mpr h]

/-- Under distinct keys every entry is found. -/
theorem lookup_of_mem {α β : Type} [BEq α] [LawfulBEq α] {l : List (α × β)} {a : α} {b : β}
    (hkeys : (l.map Prod.fst).Nodup) (h : (a, b) ∈ l) : l.lookup a = some b := by
  induction l with
  | nil => cases h
  | cons e l ih =>
      rw [List.map_cons, List.nodup_cons] at hkeys
      rcases List.mem_cons.mp h with rfl | hmem
      · exact List.lookup_cons_self
      · have hne : a ≠ e.1 := by
          rintro rfl
          exact hkeys.1 (List.mem_map.mpr ⟨(e.1, b), hmem, rfl⟩)
        exact (lookup_cons_of_ne hne).trans (ih hkeys.2 hmem)

/-- Dropping the entries of one key does not change what other keys lead to. -/
theorem lookup_filter_ne {α β : Type} [BEq α] [LawfulBEq α] [DecidableEq α] (l : List (α × β))
    {a b : α} (h : b ≠ a) : (l.filter fun c => c.1 ≠ a).lookup b = l.lookup b := by
  induction l with
  | nil => rfl
  | cons c l ih =>
      by_cases hc : c.1 = a
      · have hbc : (b == c.1) = false := by
          rw [hc]
          exact beq_false_of_ne h
        rw [List.filter_cons_of_neg (by simp [hc]), ih, List.lookup_cons, hbc]
      · rw [List.filter_cons_of_pos (by simp [hc]), List.lookup_cons, List.lookup_cons, ih]

end StreamVerdict
