/-
  What a visit meets, and in which order.

  A visit meets exactly the nodes that chains of links lead to from the frontier, also where
  the links run in circles.  It takes the links of a node out of the graph when it expands the
  node; a search that leaves the graph alone and remembers the expanded nodes instead meets the
  same nodes in the same order.  An exploration meets them too, but each of them once.  The
  nearest nodes are met first: after the whole frontier come the nodes that one link leads to,
  then those that two links lead to, and so on.  In a graph without circles no walk goes on for
  ever.
-/
import Mathlib.Data.Finset.Card
import Mathlib.Data.List.Basic
import Mathlib.Logic.Function.Iterate
import Mathlib.Logic.Relation
import StreamVerdict.Data.Reach

namespace StreamVerdict
namespace Reach

variable {κ : Type} [DecidableEq κ] {links : List (κ × List κ)} {frontier : List κ} {a b k x : κ}

/-! ### Links -/

/-- A link leads from `a` to `b`. -/
def Leads (links : List (κ × List κ)) (a b : κ) : Prop := b ∈ follow links a

theorem next?_without_self (links : List (κ × List κ)) (k : κ) :
    next? (without links k) k = none := by
  have hnone : (without links k).find? (fun l => l.1 = k) = none := by
    rw [List.find?_eq_none]
    intro l hl
    simpa using (List.mem_filter.mp hl).2
  rw [next?, hnone]
  rfl

theorem next?_without_of_ne (links : List (κ × List κ)) (h : a ≠ k) :
    next? (without links k) a = next? links a := by
  induction links with
  | nil => rfl
  | cons l links ih =>
      rw [without_cons]
      by_cases hl : l.1 = k
      · have hla : ¬ l.1 = a := by
          rw [hl]
          exact fun hka => h hka.symm
        rw [if_pos hl, ih, next?, next?, List.find?_cons_of_neg (by simpa using hla)]
      · rw [if_neg hl]
        by_cases hla : l.1 = a
        · simp [next?, hla]
        · rw [next?, next?, List.find?_cons_of_neg (by simpa using hla),
            List.find?_cons_of_neg (by simpa using hla)]
          exact ih

theorem follow_without_self (links : List (κ × List κ)) (k : κ) :
    follow (without links k) k = [] := by
  rw [follow, next?_without_self]
  rfl

theorem follow_without_of_ne (links : List (κ × List κ)) (h : a ≠ k) :
    follow (without links k) a = follow links a := by
  rw [follow, follow, next?_without_of_ne links h]

/-- Without the links of `k` all other links are left. -/
theorem leads_without : Leads (without links k) a b ↔ a ≠ k ∧ Leads links a b := by
  by_cases h : a = k
  · subst h
    simp [Leads, follow_without_self]
  · simp [Leads, follow_without_of_ne links h, h]

/-! ### One node after the other -/

theorem visit_nil (links : List (κ × List κ)) : visit links [] = [] := by
  rw [visit]

/-- The first node of the frontier is met, and what it leads to is put behind the others. -/
theorem visit_cons (links : List (κ × List κ)) (k : κ) (rest : List κ) :
    visit links (k :: rest) = k :: visit (without links k) (rest ++ follow links k) := by
  rw [visit, follow]
  split
  · next ks hnext => rw [hnext, Option.getD_some]
  · next hnext => rw [hnext, without_of_next?_eq_none hnext, Option.getD_none, List.append_nil]

/-- Induction along a visit. -/
@[elab_as_elim]
theorem visit_induction {motive : List (κ × List κ) → List κ → Prop}
    (nil : ∀ links, motive links [])
    (cons : ∀ links k rest, motive (without links k) (rest ++ follow links k) →
      motive links (k :: rest))
    (links : List (κ × List κ)) (frontier : List κ) : motive links frontier := by
  induction links, frontier using visit.induct with
  | case1 links => exact nil links
  | case2 links k rest ks hnext ih =>
      apply cons
      rw [follow, hnext]
      exact ih
  | case3 links k rest hnext ih =>
      apply cons
      rw [follow, hnext, without_of_next?_eq_none hnext, Option.getD_none, List.append_nil]
      exact ih

/-- A visit takes as many steps as the graph has nodes and links, and the frontier nodes, at
    most. -/
theorem length_visit_le (links : List (κ × List κ)) (frontier : List κ) :
    (visit links frontier).length ≤ extent links + frontier.length := by
  induction links, frontier using visit_induction with
  | nil links =>
      rw [visit_nil]
      exact Nat.zero_le _
  | cons links k rest ih =>
      have hle := extent_without_add_le links k
      rw [visit_cons, List.length_cons, List.length_cons]
      rw [List.length_append] at ih
      omega

/-! ### Chains of links -/

/-- A chain of links leads from one node to the other. -/
def Reaches (links : List (κ × List κ)) : κ → κ → Prop := Relation.ReflTransGen (Leads links)

theorem Reaches.of_without (h : Reaches (without links k) a b) : Reaches links a b :=
  Relation.ReflTransGen.mono (fun _ _ hstep => (leads_without.mp hstep).2) a b h

/-- A chain of links does without the links of `k`, or what comes after its last visit to `k`
    does. -/
theorem Reaches.without (h : Reaches links a x) (k : κ) :
    Reaches (Reach.without links k) a x ∨ x = k ∨
      ∃ b ∈ follow links k, Reaches (Reach.without links k) b x := by
  induction h with
  | refl => exact Or.inl .refl
  | @tail y x _ hstep ih =>
      -- A step out of `k` starts anew from what `k` leads to; any other step is still there.
      by_cases hy : y = k
      · subst hy
        exact Or.inr (Or.inr ⟨x, hstep, .refl⟩)
      · have hleft : Leads (Reach.without links k) y x := leads_without.mpr ⟨hy, hstep⟩
        rcases ih with hstart | hk | ⟨b, hb, hrest⟩
        · exact Or.inl (hstart.tail hleft)
        · exact absurd hk hy
        · exact Or.inr (Or.inr ⟨b, hb, hrest.tail hleft⟩)

/-- The way to `k` ends at its first visit, so that it does without the links of `k`. -/
theorem Reaches.without_end (h : Reaches links a k) : Reaches (Reach.without links k) a k := by
  induction h using Relation.ReflTransGen.head_induction_on with
  | refl => exact .refl
  | @head a b hstep _ ih =>
      by_cases ha : a = k
      · subst ha
        exact .refl
      · exact ih.head (leads_without.mpr ⟨ha, hstep⟩)

theorem exists_reaches_of_mem_visit (h : x ∈ visit links frontier) :
    ∃ a ∈ frontier, Reaches links a x := by
  induction links, frontier using visit_induction with
  | nil links =>
      rw [visit_nil] at h
      cases h
  | cons links k rest ih =>
      rw [visit_cons] at h
      rcases List.mem_cons.mp h with rfl | hlater
      · exact ⟨x, List.mem_cons_self, .refl⟩
      · obtain ⟨a, ha, hreach⟩ := ih hlater
        rcases List.mem_append.mp ha with hrest | hfollow
        · exact ⟨a, List.mem_cons_of_mem k hrest, hreach.of_without⟩
        · exact ⟨k, List.mem_cons_self, hreach.of_without.head hfollow⟩

theorem mem_visit_of_reaches (ha : a ∈ frontier) (h : Reaches links a x) :
    x ∈ visit links frontier := by
  induction links, frontier using visit_induction generalizing a with
  | nil links => cases ha
  | cons links k rest ih =>
      rw [visit_cons, List.mem_cons]
      have hlater : ∀ b ∈ rest ++ follow links k, Reaches (without links k) b x →
          x ∈ visit (without links k) (rest ++ follow links k) :=
        fun b hb hreach => ih hb hreach
      rcases h.without k with hstart | hk | ⟨b, hb, hreach⟩
      · rcases List.mem_cons.mp ha with rfl | hrest
        · -- The links of the first node are gone, so the chain ends where it begins.
          rcases Relation.ReflTransGen.cases_head hstart with rfl | ⟨b, hstep, -⟩
          · exact Or.inl rfl
          · exact absurd rfl (leads_without.mp hstep).1
        · exact Or.inr (hlater a (List.mem_append_left _ hrest) hstart)
      · exact Or.inl hk
      · exact Or.inr (hlater b (List.mem_append_right _ hb) hreach)

/-- A visit meets exactly what chains of links lead to. -/
theorem mem_visit_iff : x ∈ visit links frontier ↔ ∃ a ∈ frontier, Reaches links a x :=
  ⟨exists_reaches_of_mem_visit, fun ⟨_, ha, h⟩ => mem_visit_of_reaches ha h⟩

/-- From a node on a circle the visit comes back to it. -/
theorem not_transGen_of_nodup (h : (visit links [a]).Nodup) :
    ¬ Relation.TransGen (Leads links) a a := by
  intro hcircle
  rw [visit_cons, List.nil_append, List.nodup_cons] at h
  obtain ⟨b, hstep, hback⟩ := Relation.TransGen.head'_iff.mp hcircle
  exact h.1 (mem_visit_of_reaches hstep (Reaches.without_end hback))

/-- Without circles every walk along the links comes to an end: with each step fewer nodes can be
    reached. -/
theorem wellFounded_of_no_circle (h : ∀ a, ¬ Relation.TransGen (Leads links) a a) :
    WellFounded fun b a => Leads links a b := by
  have hmem : ∀ a x, x ∈ (visit links [a]).toFinset ↔ Reaches links a x := by
    intro a x
    rw [List.mem_toFinset, mem_visit_iff]
    simp
  refine Subrelation.wf ?_ (measure fun a => (visit links [a]).toFinset.card).wf
  intro b a hstep
  show (visit links [b]).toFinset.card < (visit links [a]).toFinset.card
  apply Finset.card_lt_card
  rw [Finset.ssubset_iff_of_subset]
  · -- The node that is left is not reached any more.
    refine ⟨a, (hmem a a).mpr .refl, ?_⟩
    intro hback
    exact h a (Relation.TransGen.head' hstep ((hmem b a).mp hback))
  · intro x hx
    rw [hmem] at hx ⊢
    exact hx.head hstep

/-- The links of a node that is not met play no part. -/
theorem visit_without (h : k ∉ visit links frontier) :
    visit (without links k) frontier = visit links frontier := by
  induction links, frontier using visit_induction with
  | nil links => rw [visit_nil, visit_nil]
  | cons links a rest ih =>
      rw [visit_cons, List.mem_cons, not_or] at h
      have hcomm : without (without links k) a = without (without links a) k := List.filter_comm ..
      rw [visit_cons, visit_cons, hcomm, follow_without_of_ne links (Ne.symm h.1), ih h.2]

/-! ### A search with a memory -/

/-- The nodes that were expanded, and those that wait. -/
structure Search (κ : Type) where
  seen : List κ
  queue : List κ

/-- Takes the first waiting node; if it was not expanded before, what it leads to waits next. -/
def Search.step (links : List (κ × List κ)) (s : Search κ) : Search κ :=
  match s.queue with
  | [] => s
  | k :: rest =>
    if k ∈ s.seen then { s with queue := rest }
    else ⟨k :: s.seen, rest ++ follow links k⟩

theorem spent_nil (links : List (κ × List κ)) : spent links [] = links := by
  simp [spent]

/-- The links of a node that is among the given ones are gone already. -/
theorem spent_cons_of_mem {ks : List κ} (hk : k ∈ ks) : spent links (k :: ks) = spent links ks := by
  refine List.filter_congr ?_
  intro l _
  have hl : l.1 ∉ ks → l.1 ≠ k := fun hnot heq => hnot (heq ▸ hk)
  simpa using hl

/-- The node that waits first after `n` steps of the search is the one that the visit meets
    after `n` others. -/
theorem getElem?_visit_spent (links : List (κ × List κ)) (n : Nat) (seen queue : List κ) :
    (visit (spent links seen) queue)[n]? =
      ((Search.step links)^[n] ⟨seen, queue⟩).queue.head? := by
  -- The visit goes on in the graph that lacks just the links of the nodes seen so far.
  induction n generalizing seen queue with
  | zero =>
      cases queue with
      | nil => rw [visit_nil]; rfl
      | cons k rest => rw [visit_cons]; rfl
  | succ n ih =>
      rw [Function.iterate_succ_apply]
      cases queue with
      | nil =>
          have hstay := ih seen []
          rw [visit_nil] at hstay ⊢
          exact hstay
      | cons k rest =>
          rw [visit_cons, List.getElem?_cons_succ, without_spent, follow_spent]
          by_cases hk : k ∈ seen
          · have hstep : Search.step links ⟨seen, k :: rest⟩ = ⟨seen, rest⟩ := by
              rw [Search.step]
              exact if_pos hk
            rw [if_pos hk, List.append_nil, spent_cons_of_mem hk, hstep, ih]
          · have hstep : Search.step links ⟨seen, k :: rest⟩ =
                ⟨k :: seen, rest ++ follow links k⟩ := by
              rw [Search.step]
              exact if_neg hk
            rw [if_neg hk, hstep, ih]

theorem getElem?_visit (links : List (κ × List κ)) (frontier : List κ) (n : Nat) :
    (visit links frontier)[n]? = ((Search.step links)^[n] ⟨[], frontier⟩).queue.head? := by
  have hspent := getElem?_visit_spent links n [] frontier
  rwa [spent_nil] at hspent

/-- The search comes to an end, within a bound that the graph and the frontier give. -/
theorem exists_queue_eq_nil (links : List (κ × List κ)) (frontier : List κ) :
    ∃ n ≤ extent links + frontier.length,
      ((Search.step links)^[n] ⟨[], frontier⟩).queue = [] := by
  refine ⟨(visit links frontier).length, length_visit_le links frontier, ?_⟩
  have hend := getElem?_visit links frontier (visit links frontier).length
  rw [List.getElem?_eq_none (Nat.le_refl _)] at hend
  exact List.head?_eq_none_iff.mp hend.symm

/-! ### Each node once -/

theorem explore_nil (links : List (κ × List κ)) (seen : List κ) : explore links seen [] = [] := by
  rw [explore]

theorem explore_cons (links : List (κ × List κ)) (seen : List κ) (k : κ) (rest : List κ) :
    explore links seen (k :: rest) =
      if k ∈ seen then explore links seen rest
      else k :: explore links (k :: seen) (rest ++ follow links k) := by
  rw [explore]

/-- What is met for the first time is what a visit meets, without what was seen before. -/
theorem mem_explore_iff {seen queue : List κ} :
    x ∈ explore links seen queue ↔ x ∉ seen ∧ x ∈ visit (spent links seen) queue := by
  induction seen, queue using explore.induct links with
  | case1 seen => simp [explore_nil, visit_nil]
  | case2 seen k rest hk ih =>
      rw [explore_cons, if_pos hk, ih, visit_cons, without_spent, follow_spent, if_pos hk,
        List.append_nil, spent_cons_of_mem hk, List.mem_cons]
      constructor
      · exact fun h => ⟨h.1, Or.inr h.2⟩
      · rintro ⟨hx, rfl | hlater⟩
        · exact absurd hk hx
        · exact ⟨hx, hlater⟩
  | case3 seen k rest hk ih =>
      rw [explore_cons, if_neg hk, List.mem_cons, ih, visit_cons, without_spent, follow_spent,
        if_neg hk, List.mem_cons, List.mem_cons, not_or]
      constructor
      · rintro (rfl | ⟨⟨-, hx⟩, hlater⟩)
        · exact ⟨hk, Or.inl rfl⟩
        · exact ⟨hx, Or.inr hlater⟩
      · rintro ⟨hx, rfl | hlater⟩
        · exact Or.inl rfl
        · by_cases hxk : x = k
          · exact Or.inl hxk
          · exact Or.inr ⟨⟨hxk, hx⟩, hlater⟩

theorem nodup_explore (links : List (κ × List κ)) (seen queue : List κ) :
    (explore links seen queue).Nodup := by
  induction seen, queue using explore.induct links with
  | case1 seen =>
      rw [explore_nil]
      exact List.nodup_nil
  | case2 seen k rest hk ih =>
      rw [explore_cons, if_pos hk]
      exact ih
  | case3 seen k rest hk ih =>
      -- What follows is met with `k` in the memory.
      rw [explore_cons, if_neg hk, List.nodup_cons]
      exact ⟨fun hagain => (mem_explore_iff.mp hagain).1 List.mem_cons_self, ih⟩

/-- An exploration meets exactly what chains of links lead to. -/
theorem mem_explore_iff_reaches :
    x ∈ explore links [] frontier ↔ ∃ a ∈ frontier, Reaches links a x := by
  rw [mem_explore_iff, spent_nil, mem_visit_iff]
  simp

/-! ### Nearest first -/

/-- A chain of exactly `n` links leads from the frontier to a node. -/
inductive ReachedIn (links : List (κ × List κ)) (frontier : List κ) : Nat → κ → Prop where
  | start {k : κ} (h : k ∈ frontier) : ReachedIn links frontier 0 k
  | step {n : Nat} {a b : κ} (ha : ReachedIn links frontier n a) (h : Leads links a b) :
      ReachedIn links frontier (n + 1) b

/-- What the frontier leads to, in order, each node expanded once. -/
def offspring (links : List (κ × List κ)) : List κ → List κ
  | [] => []
  | k :: ks => follow links k ++ offspring (without links k) ks

theorem mem_offspring {ks : List κ} :
    x ∈ offspring links ks ↔ ∃ k ∈ ks, Leads links k x := by
  induction ks generalizing links with
  | nil => simp [offspring]
  | cons k ks ih =>
      rw [offspring, List.mem_append, ih]
      constructor
      · rintro (hfirst | ⟨a, ha, hlead⟩)
        · exact ⟨k, List.mem_cons_self, hfirst⟩
        · exact ⟨a, List.mem_cons_of_mem k ha, (leads_without.mp hlead).2⟩
      · rintro ⟨a, ha, hlead⟩
        by_cases hak : a = k
        · exact Or.inl (hak ▸ hlead)
        · have hmem : a ∈ ks := (List.mem_cons.mp ha).resolve_left hak
          exact Or.inr ⟨a, hmem, leads_without.mpr ⟨hak, hlead⟩⟩

theorem spent_without (links : List (κ × List κ)) (ks : List κ) (k : κ) :
    spent (without links k) ks = spent links (k :: ks) := by
  rw [← without_spent]
  exact List.filter_comm ..

/-- The nodes in front are met before anything that they lead to. -/
theorem visit_append (links : List (κ × List κ)) (front back : List κ) :
    visit links (front ++ back) =
      front ++ visit (spent links front) (back ++ offspring links front) := by
  induction front generalizing links back with
  | nil => rw [List.nil_append, List.nil_append, spent_nil, offspring, List.append_nil]
  | cons k front ih =>
      rw [List.cons_append, visit_cons, List.append_assoc, ih, spent_without, List.append_assoc,
        ← offspring]
      rfl

theorem visit_frontier (links : List (κ × List κ)) (frontier : List κ) :
    visit links frontier = frontier ++ visit (spent links frontier) (offspring links frontier) := by
  have h := visit_append links frontier []
  rwa [List.append_nil, List.nil_append] at h

theorem leads_spent {ks : List κ} : Leads (spent links ks) a b ↔ a ∉ ks ∧ Leads links a b := by
  rw [Leads, follow_spent]
  by_cases ha : a ∈ ks <;> simp [ha, Leads]

theorem ReachedIn.of_offspring {n : Nat}
    (h : ReachedIn (spent links frontier) (offspring links frontier) n x) :
    ReachedIn links frontier (n + 1) x := by
  induction h with
  | start hx =>
      obtain ⟨k, hk, hlead⟩ := mem_offspring.mp hx
      exact (ReachedIn.start hk).step hlead
  | step _ hlead ih => exact ih.step (leads_spent.mp hlead).2

/-- A chain from the frontier can be cut at the last frontier node that it meets. -/
theorem ReachedIn.past_frontier {n : Nat} (h : ReachedIn links frontier n x) :
    x ∈ frontier ∨
      ∃ m < n, ReachedIn (spent links frontier) (offspring links frontier) m x := by
  induction h with
  | start hx => exact Or.inl hx
  | @step n a x _ hlead ih =>
      refine Or.inr ?_
      by_cases ha : a ∈ frontier
      · exact ⟨0, Nat.zero_lt_succ n, .start (mem_offspring.mpr ⟨a, ha, hlead⟩)⟩
      · obtain ⟨m, hm, hreached⟩ := ih.resolve_left ha
        exact ⟨m + 1, Nat.succ_lt_succ hm, hreached.step (leads_spent.mpr ⟨ha, hlead⟩)⟩

/-- Of the nodes that have something to find, the visit meets one of the nearest first. -/
theorem findSome?_visit_nearest {α : Type} {f : κ → Option α} {v : α}
    (h : (visit links frontier).findSome? f = some v) :
    ∃ n x, ReachedIn links frontier n x ∧ f x = some v ∧
      ∀ m y, ReachedIn links frontier m y → (f y).isSome → n ≤ m := by
  -- One round of the visit after the other: the rest of the visit is shorter each time.
  generalize hlen : (visit links frontier).length = len
  induction len using Nat.strongRecOn generalizing links frontier with
  | ind len ih =>
      rw [visit_frontier, List.findSome?_append] at h
      cases hfront : frontier.findSome? f with
      | some w =>
          rw [hfront, Option.some_or, Option.some.injEq] at h
          subst h
          obtain ⟨x, hx, hfx⟩ := List.exists_of_findSome?_eq_some hfront
          exact ⟨0, x, .start hx, hfx, fun m _ _ _ => Nat.zero_le m⟩
      | none =>
          rw [hfront, Option.none_or] at h
          have hshorter :
              (visit (spent links frontier) (offspring links frontier)).length < len := by
            have hne : frontier ≠ [] := by
              rintro rfl
              rw [offspring, visit_nil] at h
              cases h
            have hpos := List.length_pos_iff.mpr hne
            have hall := congrArg List.length (visit_frontier links frontier)
            rw [List.length_append] at hall
            omega
          obtain ⟨n, x, hreached, hfx, hleast⟩ := ih _ hshorter h rfl
          refine ⟨n + 1, x, hreached.of_offspring, hfx, ?_⟩
          intro m y hy hsome
          rcases hy.past_frontier with hmem | ⟨i, hi, hlater⟩
          · rw [List.findSome?_eq_none_iff.mp hfront y hmem] at hsome
            cases hsome
          · have hle := hleast i y hlater hsome
            omega

end Reach
end StreamVerdict
