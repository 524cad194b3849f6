/-
  Finite sets listed in ascending order.

  A set is the list of its members, smallest first and each once, so that two sets with the
  same members are the same list and every walk over a set has one order.  Insertion keeps
  the list in order; it is the only way a member gets in.
-/

namespace StreamVerdict

open Std

/-- A finite set, listed in ascending order without repetition. -/
structure OrdSet (α : Type) [Ord α] where
  toList : List α
  ascending : toList.Pairwise fun a b => compare a b = .lt
deriving DecidableEq

namespace OrdSet

variable {α : Type} [Ord α]

def empty : OrdSet α := ⟨[], .nil⟩

instance : EmptyCollection (OrdSet α) := ⟨empty⟩

instance : Inhabited (OrdSet α) := ⟨empty⟩

instance : Membership α (OrdSet α) := ⟨fun s a => a ∈ s.toList⟩

instance [DecidableEq α] (a : α) (s : OrdSet α) : Decidable (a ∈ s) :=
  inferInstanceAs (Decidable (a ∈ s.toList))

theorem mem_def {a : α} {s : OrdSet α} : a ∈ s ↔ a ∈ s.toList := Iff.rfl

@[simp] theorem not_mem_empty (a : α) : ¬ a ∈ (∅ : OrdSet α) := by
  intro h
  cases h

def size (s : OrdSet α) : Nat := s.toList.length

def isEmpty (s : OrdSet α) : Bool := s.toList.isEmpty

/-- The members that pass a test. -/
def filter (s : OrdSet α) (p : α → Bool) : OrdSet α := ⟨s.toList.filter p, s.ascending.filter p⟩

/-! ### Insertion -/

/-- Insertion into an ascending list; an equal member stays as it is. -/
def insertAscending (a : α) : List α → List α
  | [] => [a]
  | b :: bs =>
    match compare a b with
    | .lt => a :: b :: bs
    | .eq => b :: bs
    | .gt => b :: insertAscending a bs

theorem eq_or_mem_of_mem_insertAscending {a b : α} {l : List α} (h : b ∈ insertAscending a l) :
    b = a ∨ b ∈ l := by
  induction l with
  | nil => exact Or.inl (List.mem_singleton.mp h)
  | cons c l ih =>
      rw [insertAscending] at h
      cases hc : compare a c with
      | lt =>
          rw [hc] at h
          exact List.mem_cons.mp h
      | eq =>
          rw [hc] at h
          exact Or.inr h
      | gt =>
          rw [hc] at h
          rcases List.mem_cons.mp h with rfl | hlater
          · exact Or.inr List.mem_cons_self
          · exact (ih hlater).imp_right (List.mem_cons_of_mem c)

variable [TransOrd α]

theorem pairwise_insertAscending {l : List α} (hl : l.Pairwise fun a b => compare a b = .lt)
    (a : α) : (insertAscending a l).Pairwise fun a b => compare a b = .lt := by
  induction l with
  | nil => exact List.pairwise_singleton _ a
  | cons b l ih =>
      have habove : ∀ c ∈ l, compare b c = .lt := fun c hc => List.rel_of_pairwise_cons hl hc
      rw [insertAscending]
      cases hab : compare a b with
      | lt =>
          -- The new member comes before the first, and so before all.
          refine List.Pairwise.cons ?_ hl
          intro c hc
          rcases List.mem_cons.mp hc with rfl | hlater
          · exact hab
          · exact TransCmp.lt_trans hab (habove c hlater)
      | eq => exact hl
      | gt =>
          refine List.Pairwise.cons ?_ (ih hl.of_cons)
          intro c hc
          rcases eq_or_mem_of_mem_insertAscending hc with rfl | hold
          · exact OrientedCmp.lt_of_gt hab
          · exact habove c hold

def insert (s : OrdSet α) (a : α) : OrdSet α :=
  ⟨insertAscending a s.toList, pairwise_insertAscending s.ascending a⟩

def insertAll (s : OrdSet α) (as : List α) : OrdSet α := as.foldl insert s

def ofList (as : List α) : OrdSet α := insertAll ∅ as

def union (s t : OrdSet α) : OrdSet α := s.insertAll t.toList

end OrdSet

end StreamVerdict
