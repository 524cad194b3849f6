/-
  Following links through a finite graph.

  A graph is given by its links: a list of nodes, each with the nodes it leads to.  `visit`
  follows the links from a frontier, first in first out, and expands each node once, by
  taking its links out of the graph as it goes.  `explore` does the same with a memory of the
  nodes it has met, and passes over those that it meets again.  Class hierarchies (upward, along
  superclasses, along interfaces) and the merges of a method body are walked with the first, the
  subtypes of a class are collected with the second.
-/

namespace StreamVerdict
namespace Reach

variable {κ : Type}

/-- How many nodes and links a graph has. -/
def extent : List (κ × List κ) → Nat
  | [] => 0
  | l :: links => l.2.length + 1 + extent links

variable [DecidableEq κ]

/-- The nodes that `k` leads to, unless it is no node of the graph. -/
def next? (links : List (κ × List κ)) (k : κ) : Option (List κ) :=
  (links.find? (fun l => l.1 = k)).map Prod.snd

/-- The graph without the links of `k`. -/
def without (links : List (κ × List κ)) (k : κ) : List (κ × List κ) :=
  links.filter (fun l => l.1 ≠ k)

theorem without_cons (l : κ × List κ) (links : List (κ × List κ)) (k : κ) :
    without (l :: links) k = if l.1 = k then without links k else l :: without links k := by
  by_cases hl : l.1 = k <;> simp [without, hl]

theorem extent_without_le (links : List (κ × List κ)) (k : κ) :
    extent (without links k) ≤ extent links := by
  induction links with
  | nil => exact Nat.le_refl _
  | cons l links ih =>
    rw [without_cons, extent]
    by_cases hl : l.1 = k
    · rw [if_pos hl]
      omega
    · rw [if_neg hl, extent]
      omega

/-- Expanding a node takes more out of the graph than it adds to the frontier. -/
theorem extent_without_lt {links : List (κ × List κ)} {k : κ} {ks : List κ}
    (h : next? links k = some ks) : extent (without links k) + ks.length < extent links := by
  induction links with
  | nil => simp [next?] at h
  | cons l links ih =>
    rw [without_cons, extent]
    by_cases hl : l.1 = k
    · have hks : l.2 = ks := by simpa [next?, hl] using h
      have hle := extent_without_le links k
      rw [if_pos hl, ← hks]
      omega
    · have hnext : next? links k = some ks := by simpa [next?, hl] using h
      have hlt := ih hnext
      rw [if_neg hl, extent]
      omega

/-- The nodes that `k` leads to; a node that is not in the graph leads nowhere. -/
def follow (links : List (κ × List κ)) (k : κ) : List κ := (next? links k).getD []

/-- The graph without the links of the given nodes. -/
def spent (links : List (κ × List κ)) (ks : List κ) : List (κ × List κ) :=
  links.filter fun l => l.1 ∉ ks

/-- Everything met when the links are followed from `frontier`, in the order of arrival.
    A node that was expanded before, or that has no links, is met without leading on. -/
def visit (links : List (κ × List κ)) (frontier : List κ) : List κ :=
  match frontier with
  | [] => []
  | k :: rest =>
    match _h : next? links k with
    | some ks => k :: visit (without links k) (rest ++ ks)
    | none => k :: visit links rest
termination_by extent links + frontier.length
decreasing_by
  · have hlt := extent_without_lt _h
    simp only [List.length_append, List.length_cons]
    omega
  · simp

/-! ### With a memory -/

/-- A node that is not in the graph has no links to take out. -/
theorem without_of_next?_eq_none {links : List (κ × List κ)} {k : κ} (h : next? links k = none) :
    without links k = links := by
  refine List.filter_eq_self.mpr ?_
  intro l hl
  have hnone : links.find? (fun l => l.1 = k) = none := Option.map_eq_none_iff.mp h
  have hne := List.find?_eq_none.mp hnone l hl
  simpa using hne

theorem extent_without_add_le (links : List (κ × List κ)) (k : κ) :
    extent (without links k) + (follow links k).length ≤ extent links := by
  rw [follow]
  cases hnext : next? links k with
  | none =>
      rw [without_of_next?_eq_none hnext]
      exact Nat.le_refl _
  | some ks =>
      have hlt := extent_without_lt hnext
      exact Nat.le_of_lt hlt

theorem without_spent (links : List (κ × List κ)) (ks : List κ) (k : κ) :
    without (spent links ks) k = spent links (k :: ks) := by
  rw [without, spent, spent, List.filter_filter]
  refine List.filter_congr ?_
  intro l _
  simp

theorem next?_spent (links : List (κ × List κ)) (ks : List κ) (a : κ) :
    next? (spent links ks) a = if a ∈ ks then none else next? links a := by
  induction links with
  | nil => simp [spent, next?]
  | cons l links ih =>
      rw [spent, List.filter_cons]
      by_cases hl : l.1 = a
      · by_cases ha : a ∈ ks
        · rw [if_pos ha] at ih ⊢
          rw [if_neg (by simpa [hl] using ha)]
          exact ih
        · rw [if_pos (by simpa [hl] using ha)]
          simp [next?, hl, ha]
      · have hrest : next? (l :: links) a = next? links a := by simp [next?, hl]
        rw [hrest, ← ih]
        split
        · simp [next?, hl, spent]
        · rfl

theorem follow_spent (links : List (κ × List κ)) (ks : List κ) (a : κ) :
    follow (spent links ks) a = if a ∈ ks then [] else follow links a := by
  rw [follow, next?_spent]
  split <;> rfl

/-- The nodes met when the links are followed from `queue`, in the order of arrival and each
    once; those in `seen` were met before. -/
def explore (links : List (κ × List κ)) (seen queue : List κ) : List κ :=
  match queue with
  | [] => []
  | k :: rest =>
    if k ∈ seen then explore links seen rest
    else k :: explore links (k :: seen) (rest ++ follow links k)
termination_by extent (spent links seen) + queue.length
decreasing_by
  · simp
  · next hk =>
    have hle := extent_without_add_le (spent links seen) k
    rw [without_spent, follow_spent, if_neg hk] at hle
    simp only [List.length_append, List.length_cons]
    omega

end Reach
end StreamVerdict
