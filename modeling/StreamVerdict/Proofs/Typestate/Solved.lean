/-
  A settled solve is a solution.

  While a node is processed its sets only grow, a node that may be entered with more is queued,
  and so are the callers of a node that may be left with more.  The invariant of the solve is
  that the walk of every node agrees with the sets, unless the node is queued.  So when the
  queue is empty, all walks agree.  The order in which nodes are taken plays no part in this.
-/
import StreamVerdict.Proofs.Typestate.Moves

namespace StreamVerdict
namespace Typestate

/-! ### Growth while a node is processed -/

/-- What can happen while node `n` is processed. -/
structure Advance (p : Problem) (n : Nat) (s s' : Progress) : Prop where
  entry : ∀ m, s.entrySet m ⊆ s'.entrySet m
  exit : ∀ m, s.exitSet m ⊆ s'.exitSet m
  events : s.events <:+ s'.events
  queue : ∀ m, m ∈ s.queue → m ∈ s'.queue
  /-- A node that may be entered with more is queued. -/
  entered : ∀ m, s'.entrySet m ⊆ s.entrySet m ∨ m ∈ s'.queue
  /-- Only `n` may be left with more, and then its callers are queued. -/
  left : ∀ m, s'.exitSet m ⊆ s.exitSet m ∨
    (m = n ∧ ∀ k ∈ p.graph.graph.callers n, k ∈ s'.queue)

namespace Advance

variable {p : Problem} {n : Nat} {x : Node}

theorem recorded {s s' : Progress} (h : Advance p n s s') : s.recorded p ⊆ s'.recorded p :=
  Progress.recorded_mono h.events p

theorem refl (s : Progress) : Advance p n s s where
  entry _ _ h := h
  exit _ _ h := h
  events := List.suffix_rfl
  queue _ h := h
  entered _ := Or.inl fun _ h => h
  left _ := Or.inl fun _ h => h

theorem trans {s s' s'' : Progress} (h : Advance p n s s') (h' : Advance p n s' s'') :
    Advance p n s s'' where
  entry m _ hq := h'.entry m (h.entry m hq)
  exit m _ hq := h'.exit m (h.exit m hq)
  events := h.events.trans h'.events
  queue m hm := h'.queue m (h.queue m hm)
  entered m := by
    rcases h'.entered m with hsame' | hm
    · rcases h.entered m with hsame | hm
      · exact Or.inl fun _ hq => hsame (hsame' hq)
      · exact Or.inr (h'.queue m hm)
    · exact Or.inr hm
  left m := by
    rcases h'.left m with hsame' | hcallers
    · rcases h.left m with hsame | ⟨hm, hcallers⟩
      · exact Or.inl fun _ hq => hsame (hsame' hq)
      · exact Or.inr ⟨hm, fun k hk => h'.queue k (hcallers k hk)⟩
    · exact Or.inr hcallers

theorem of_onlyEvents {s s' : Progress} (h : OnlyEvents s s') : Advance p n s s' := by
  refine ⟨?_, ?_, h.events, ?_, ?_, ?_⟩
  · intro m
    rw [h.entrySet]
  · intro m
    rw [h.exitSet]
  · intro m hm
    rwa [h.queue]
  · intro m
    rw [h.entrySet]
    exact Or.inl fun _ hq => hq
  · intro m
    rw [h.exitSet]
    exact Or.inl fun _ hq => hq

theorem enter (s : Progress) (c : Nat) (C : OrdSet State) : Advance p n s (s.enter c C) where
  entry m q hq := Progress.mem_entrySet_enter.mpr (Or.inl hq)
  exit m q hq := by
    rwa [Progress.exitSet_enter]
  events := by simp
  queue m hm := Progress.mem_queue_enter.mpr (Or.inl hm)
  entered m := by
    by_cases hm : m = c
    · subst hm
      by_cases hsub : C.members ⊆ s.entrySet m
      · refine Or.inl fun q hq => ?_
        rcases Progress.mem_entrySet_enter.mp hq with hold | ⟨-, hnew⟩
        · exact hold
        · exact hsub hnew
      · exact Or.inr (Progress.mem_queue_enter.mpr (Or.inr ⟨rfl, hsub⟩))
    · refine Or.inl fun q hq => ?_
      rcases Progress.mem_entrySet_enter.mp hq with hold | ⟨hmc, -⟩
      · exact hold
      · exact absurd hmc hm
  left m := by
    refine Or.inl fun q hq => ?_
    rwa [Progress.exitSet_enter] at hq

theorem leave (s : Progress) (C : OrdSet State) :
    Advance p n s (s.leave p.graph.graph n C) where
  entry m q hq := by
    rwa [Progress.entrySet_leave]
  exit m q hq := Progress.mem_exitSet_leave.mpr (Or.inl hq)
  events := by simp
  queue m hm := Progress.mem_queue_leave.mpr (Or.inl hm)
  entered m := by
    refine Or.inl fun q hq => ?_
    rwa [Progress.entrySet_leave] at hq
  left m := by
    by_cases hm : m = n
    · subst hm
      by_cases hsub : C.members ⊆ s.exitSet m
      · refine Or.inl fun q hq => ?_
        rcases Progress.mem_exitSet_leave.mp hq with hold | ⟨-, hnew⟩
        · exact hold
        · exact hsub hnew
      · exact Or.inr ⟨rfl, fun k hk => Progress.mem_queue_leave.mpr (Or.inr ⟨hk, hsub⟩)⟩
    · refine Or.inl fun q hq => ?_
      rcases Progress.mem_exitSet_leave.mp hq with hold | ⟨hmn, -⟩
      · exact hold
      · exact absurd hmn hm

theorem of_move {acc acc' : Progress × OrdSet State} (h : Move p n x acc acc') :
    Advance p n acc.1 acc'.1 := by
  cases h with
  | act i => exact of_onlyEvents (perform_spec p n x i acc).1
  | call _ => exact enter _ _ _
  | leave => exact leave _ _

theorem of_moves {acc acc' : Progress × OrdSet State} (h : Moves p n x acc acc') :
    Advance p n acc.1 acc'.1 := by
  induction h with
  | refl => exact refl _
  | tail _ hlast ih => exact ih.trans (of_move hlast)

end Advance

/-! ### Known states -/

/-- All states that the solve holds at some place of a walk are known. -/
structure Known (p : Problem) (acc : Progress × OrdSet State) : Prop where
  current : acc.2.members ⊆ acc.1.recorded p
  entry : ∀ m, acc.1.entrySet m ⊆ acc.1.recorded p
  exit : ∀ m, acc.1.exitSet m ⊆ acc.1.recorded p

theorem members_visitCallee (acc : Progress × OrdSet State) (c : Nat) :
    (visitCallee acc c).2.members = acc.2.members ∪ acc.1.exitSet c := by
  ext q
  show q ∈ acc.2.union (Facts.get (acc.1.enter c acc.2).exit c) ↔ _
  rw [OrdSet.mem_union, Progress.exit_enter]
  rfl

theorem Known.move {p : Problem} {n : Nat} {x : Node} {acc acc' : Progress × OrdSet State}
    (h : Known p acc) (hmove : Move p n x acc acc') : Known p acc' := by
  have hadv := Advance.of_move hmove
  cases hmove with
  | act i =>
      obtain ⟨honly, -, hknown, -⟩ := perform_spec p n x i acc
      refine ⟨hknown h.current, ?_, ?_⟩
      · intro m q hq
        rw [honly.entrySet] at hq
        exact hadv.recorded (h.entry m hq)
      · intro m q hq
        rw [honly.exitSet] at hq
        exact hadv.recorded (h.exit m hq)
  | @call c site _ =>
      refine ⟨?_, ?_, ?_⟩
      · intro q hq
        rw [members_visitCallee] at hq
        rcases hq with hq | hq
        · exact hadv.recorded (h.current hq)
        · exact hadv.recorded (h.exit c hq)
      · intro m q hq
        rcases Progress.mem_entrySet_enter.mp hq with hold | ⟨-, hnew⟩
        · exact hadv.recorded (h.entry m hold)
        · exact hadv.recorded (h.current hnew)
      · intro m q hq
        rw [visitCallee, Progress.exitSet_enter] at hq
        exact hadv.recorded (h.exit m hq)
  | leave =>
      refine ⟨?_, ?_, ?_⟩
      · intro q hq
        exact hadv.recorded (h.current hq)
      · intro m q hq
        rw [Progress.entrySet_leave] at hq
        exact hadv.recorded (h.entry m hq)
      · intro m q hq
        rcases Progress.mem_exitSet_leave.mp hq with hold | ⟨-, hnew⟩
        · exact hadv.recorded (h.exit m hold)
        · exact hadv.recorded (h.current hnew)

theorem Known.moves {p : Problem} {n : Nat} {x : Node} {acc acc' : Progress × OrdSet State}
    (h : Known p acc) (hmoves : Moves p n x acc acc') : Known p acc' := by
  induction hmoves with
  | refl => exact h
  | tail _ hlast ih => exact ih.move hlast

/-! ### The walk agrees at the end -/

section

variable {p : Problem} {n : Nat} {x : Node}

/-- The called nodes have been visited, and at the end of the processing they can be left with
    no more than before: then the visits agree with the sets at the end. -/
theorem callsWithin_of_visitCallees (x : Node) {cs : List Nat} {acc : Progress × OrdSet State}
    {s : Progress} (hcs : ∀ c ∈ cs, ∃ site, ⟨n, site, c⟩ ∈ p.graph.graph.edges) (hknown : Known p acc)
    (hadv : Advance p n (cs.foldl visitCallee acc).1 s)
    (hquiet : ∀ c ∈ cs, s.exitSet c ⊆ acc.1.exitSet c) :
    CallsWithin s.entrySet s.exitSet (s.recorded p) cs acc.2.members ∧
      (cs.foldl visitCallee acc).2.members = joined s.exitSet cs acc.2.members := by
  induction cs generalizing acc with
  | nil => exact ⟨trivial, rfl⟩
  | cons c cs ih =>
      obtain ⟨site, hedge⟩ := hcs c List.mem_cons_self
      have hcs' : ∀ d ∈ cs, ∃ site, ⟨n, site, d⟩ ∈ p.graph.graph.edges :=
        fun d hd => hcs d (List.mem_cons_of_mem _ hd)
      have hfirst : Advance p n acc.1 (visitCallee acc c).1 := Advance.enter _ _ _
      have hrest : Advance p n (visitCallee acc c).1 s :=
        (Advance.of_moves (moves_of_visitCallees (x := x) hcs' _)).trans hadv
      have hquiet' : ∀ d ∈ cs, s.exitSet d ⊆ (visitCallee acc c).1.exitSet d :=
        fun d hd q hq => hfirst.exit d (hquiet d (List.mem_cons_of_mem _ hd) hq)
      obtain ⟨ihcalls, ihset⟩ := ih hcs' (hknown.move (x := x) (Move.call hedge acc)) hadv hquiet'
      -- The set that was added when `c` was visited is the one at the end.
      have hexit : acc.1.exitSet c = s.exitSet c :=
        Set.Subset.antisymm ((hfirst.trans hrest).exit c) (hquiet c List.mem_cons_self)
      rw [members_visitCallee, hexit] at ihcalls ihset
      refine ⟨⟨?_, ?_, ihcalls⟩, ihset⟩
      · intro q hq
        exact hrest.entry c (Progress.mem_entrySet_enter.mpr (Or.inr ⟨rfl, hq⟩))
      · intro q hq
        exact (hfirst.trans hrest).recorded (hknown.current hq)

/-- After the called nodes, an instruction does no more than leave the node. -/
theorem advance_of_called (p : Problem) (n : Nat) (x : Node) (acc : Progress × OrdSet State)
    (i : Instruction) :
    Advance p n ((calledBy p n i).foldl visitCallee (perform p n x i acc)).1
      (walk p n x acc i).1 := by
  rw [walk_eq]
  by_cases hret : isReturn i = true
  · simp only [hret, if_true]
    exact Advance.leave _ _
  · simp only [hret, Bool.false_eq_true, if_false]
    exact Advance.refl _

/-- A body has been walked through, and the nodes that it calls can be left with no more than
    before: then the walk agrees with the sets at the end. -/
theorem walkedWithin_of_walkThrough {is : List Instruction} {acc : Progress × OrdSet State}
    {s : Progress} (hs : s = walkThrough p n x is acc) (hknown : Known p acc)
    (hquiet : ∀ c site, ⟨n, site, c⟩ ∈ p.graph.graph.edges → s.exitSet c ⊆ acc.1.exitSet c) :
    WalkedWithin p s.entrySet s.exitSet (s.recorded p) n x is acc.2.members := by
  induction is generalizing acc with
  | nil =>
      have hadv : Advance p n acc.1 s := by
        rw [hs]
        exact Advance.leave _ _
      rw [walkedWithin_nil]
      refine ⟨?_, ?_⟩
      · intro q hq
        rw [hs]
        exact Progress.mem_exitSet_leave.mpr (Or.inr ⟨rfl, hq⟩)
      · intro q hq
        exact hadv.recorded (hknown.current hq)
  | cons i is ih =>
      have hmoves := moves_of_walk p n x acc i
      have hstep : Advance p n acc.1 (walk p n x acc i).1 := Advance.of_moves hmoves
      have hrest : Advance p n (walk p n x acc i).1 s := by
        rw [hs]
        exact Advance.of_moves (moves_of_walkThrough p n x is (walk p n x acc i))
      have hwalked : WalkedWithin p s.entrySet s.exitSet (s.recorded p) n x is
          (walk p n x acc i).2.members :=
        ih hs (hknown.moves hmoves) fun c site hedge q hq => hstep.exit c (hquiet c site hedge hq)
      -- What the walk over this instruction consists of.
      obtain ⟨honly, hset, -, -⟩ := perform_spec p n x i acc
      have hperformed := hknown.move (Move.act (n := n) (x := x) i acc)
      have hact : Advance p n acc.1 (perform p n x i acc).1 := Advance.of_onlyEvents honly
      have hcalls : Advance p n ((calledBy p n i).foldl visitCallee (perform p n x i acc)).1 s :=
        (advance_of_called p n x acc i).trans hrest
      have hquiet' : ∀ c ∈ calledBy p n i, s.exitSet c ⊆ (perform p n x i acc).1.exitSet c := by
        intro c hc q hq
        obtain ⟨site, hedge⟩ := edge_of_calledBy hc
        exact hact.exit c (hquiet c site hedge hq)
      obtain ⟨hwithin, hjoined⟩ := callsWithin_of_visitCallees x
        (fun _ hc => edge_of_calledBy hc) hperformed hcalls hquiet'
      rw [hset] at hwithin hjoined
      rw [current_walk, hjoined] at hwalked
      rw [walkedWithin_cons]
      refine ⟨?_, ?_, hwithin, hwalked⟩
      · intro q hq
        exact (hstep.trans hrest).recorded (hknown.current hq)
      · intro hret
        refine ⟨?_, ?_⟩
        · intro q hq
          rw [← hset] at hq
          apply hrest.exit n
          rw [walk_of_isReturn p n x acc hret]
          exact Progress.mem_exitSet_leave.mpr (Or.inr ⟨rfl, hq⟩)
        · intro q hq
          rw [← hset] at hq
          rw [calledBy_eq_nil p n hret] at hcalls
          exact hcalls.recorded (hperformed.current hq)

end

/-! ### The invariant -/

/-- What holds at the start of a solve and after every turn. -/
structure Invariant (p : Problem) (s : Progress) : Prop where
  initial : ∀ n ∈ p.graph.graph.entrypoints, p.protocol.initial ∈ s.entrySet n
  entry : ∀ m, s.entrySet m ⊆ s.recorded p
  exit : ∀ m, s.exitSet m ⊆ s.recorded p
  /-- The walk of a node agrees with the sets, unless the node is queued. -/
  walks : ∀ m y b, p.graph.graph.node? m = some y → p.graph.body? m = some b →
    m ∈ s.queue ∨
      WalkedWithin p s.entrySet s.exitSet (s.recorded p) m y b.instructions (s.entrySet m)

/-- Processing a node restores the invariant, which may fail for that node only. -/
theorem Invariant.process {p : Problem} {s : Progress} {n : Nat} {queue : List Nat}
    (hinv : Invariant p s) (hqueue : ∀ m ∈ s.queue, m = n ∨ m ∈ queue) :
    Invariant p (process p n { s with queue }) := by
  rcases process_cases p n { s with queue } with ⟨hsame, hnone⟩ | ⟨x, b, hx, hb, hprocess⟩
  · rw [hsame]
    refine ⟨hinv.initial, hinv.entry, hinv.exit, ?_⟩
    intro m y b hy hb
    rcases hinv.walks m y b hy hb with hm | hwalked
    · rcases hqueue m hm with rfl | hm
      · exact absurd hb (hnone y b hy)
      · exact Or.inl hm
    · exact Or.inr hwalked
  · have hknown : Known p ({ s with queue }, Facts.get s.entry n) :=
      ⟨hinv.entry n, hinv.entry, hinv.exit⟩
    have hmoves := moves_of_walkThrough p n x b.instructions
      ({ s with queue }, Facts.get s.entry n)
    have hafter := hknown.moves hmoves
    have hadv := Advance.of_moves hmoves
    rw [hprocess]
    generalize hs' : walkThrough p n x b.instructions
      ({ s with queue }, Facts.get s.entry n) = s' at hafter hadv ⊢
    refine ⟨fun m hm => hadv.entry m (hinv.initial m hm), hafter.entry, hafter.exit, ?_⟩
    intro m y c hy hc
    by_cases hm : m ∈ s'.queue
    · exact Or.inl hm
    · refine Or.inr ?_
      -- The node is not queued, so it is entered with no more, and the nodes that it calls are
      -- left with no more, than before.
      have hentered : s'.entrySet m = s.entrySet m := by
        rcases hadv.entered m with hsub | hqueued
        · exact Set.Subset.antisymm hsub (hadv.entry m)
        · exact absurd hqueued hm
      have hquiet : ∀ d site, ⟨m, site, d⟩ ∈ p.graph.graph.edges →
          s'.exitSet d ⊆ s.exitSet d := by
        intro d site hedge
        rcases hadv.left d with hsub | ⟨rfl, hcallers⟩
        · exact hsub
        · exact absurd (hcallers m (CallGraph.mem_callers.mpr ⟨site, hedge⟩)) hm
      rw [hentered]
      by_cases hmn : m = n
      · subst hmn
        rw [hx] at hy
        rw [hb] at hc
        cases hy
        cases hc
        exact walkedWithin_of_walkThrough hs'.symm hknown hquiet
      · rcases hinv.walks m y c hy hc with hqueued | hwalked
        · rcases hqueue m hqueued with rfl | hqueued
          · exact absurd rfl hmn
          · exact absurd (hadv.queue m hqueued) hm
        · -- The walk of another node still agrees, as it meets the same sets.
          refine hwalked.mono hadv.entry hadv.exit hadv.recorded ?_
          intro i _ d hd
          obtain ⟨site, hedge⟩ := edge_of_calledBy hd
          exact hquiet d site hedge

/-! ### The start -/

/-- The step that makes one node an entry point. -/
def startAt (p : Problem) (s : Progress) (n : Nat) : Progress :=
  { s with entry := Facts.join s.entry n (OrdSet.ofList [p.protocol.initial]) }.enqueue n

theorem start_eq (p : Problem) :
    start p = p.graph.graph.entrypoints.foldl (startAt p) .blank := rfl

theorem foldl_startAt_spec (p : Problem) (ns : List Nat) (s : Progress) :
    let s' := ns.foldl (startAt p) s
    s'.exit = s.exit ∧ s'.events = s.events ∧
    (∀ m q, q ∈ s'.entrySet m ↔ q ∈ s.entrySet m ∨ (m ∈ ns ∧ q = p.protocol.initial)) ∧
    (∀ m, m ∈ s'.queue ↔ m ∈ s.queue ∨ m ∈ ns) ∧
    s'.queue.length ≤ s.queue.length + ns.length := by
  induction ns generalizing s with
  | nil => simp
  | cons n ns ih =>
      obtain ⟨hexit, hevents, hentry, hqueue, hlength⟩ := ih (startAt p s n)
      have hmem : ∀ m q, q ∈ (startAt p s n).entrySet m ↔
          q ∈ s.entrySet m ∨ (m = n ∧ q = p.protocol.initial) := by
        intro m q
        show q ∈ Facts.get (Facts.join s.entry n (OrdSet.ofList [p.protocol.initial])) m ↔ _
        rw [Facts.mem_get_join, OrdSet.mem_ofList, List.mem_singleton]
        rfl
      have hone := Worklist.length_enqueue_le s.queue n
      refine ⟨hexit, hevents, ?_, ?_, ?_⟩
      · intro m q
        rw [List.foldl_cons, hentry, hmem, or_assoc, ← or_and_right, List.mem_cons]
      · intro m
        rw [List.foldl_cons, hqueue]
        show m ∈ Worklist.enqueue s.queue n ∨ _ ↔ _
        rw [Worklist.mem_enqueue, or_assoc, List.mem_cons]
      · rw [List.foldl_cons, List.length_cons]
        have hlength' : (ns.foldl (startAt p) (startAt p s n)).queue.length ≤
            (Worklist.enqueue s.queue n).length + ns.length := hlength
        omega

theorem events_start (p : Problem) : (start p).events = [] :=
  (foldl_startAt_spec p p.graph.graph.entrypoints .blank).2.1

theorem invariant_start (p : Problem) : Invariant p (start p) := by
  obtain ⟨hexit, -, hentry, hqueue, -⟩ :=
    foldl_startAt_spec p p.graph.graph.entrypoints .blank
  rw [start_eq]
  generalize p.graph.graph.entrypoints.foldl (startAt p) .blank = s
    at hexit hentry hqueue ⊢
  have hnone : ∀ m, s.exitSet m = ∅ := by
    intro m
    rw [Progress.exitSet, hexit]
    exact OrdSet.members_empty
  have hnothing : ∀ m, Progress.blank.entrySet m = ∅ :=
    fun _ => OrdSet.members_empty
  refine ⟨?_, ?_, ?_, ?_⟩
  · intro n hn
    exact (hentry n _).mpr (Or.inr ⟨hn, rfl⟩)
  · intro m q hq
    rcases (hentry m q).mp hq with hold | ⟨-, rfl⟩
    · rw [hnothing m] at hold
      cases hold
    · exact Or.inl rfl
  · intro m
    rw [hnone m]
    exact Set.empty_subset _
  · intro m y b _ _
    by_cases hm : m ∈ p.graph.graph.entrypoints
    · exact Or.inl ((hqueue m).mpr (Or.inr hm))
    · -- No state has come to a node that is no entry point.
      have hempty : s.entrySet m = ∅ := by
        ext q
        rw [hentry m q, hnothing m]
        simp [hm]
      rw [hempty]
      exact Or.inr (walkedWithin_empty hnone b.instructions)

/-! ### Runs in any order -/

/-- A node is taken from the queue, whichever it is, and processed. -/
def Step (p : Problem) (s s' : Progress) : Prop :=
  ∃ n ∈ s.queue, s' = process p n { s with queue := s.queue.erase n }

/-- Where runs lead, in whatever order they take nodes from the queue. -/
abbrev Reaches (p : Problem) : Progress → Progress → Prop := Relation.ReflTransGen (Step p)

/-- A run from the start that has emptied the queue ends here. -/
structure Settled (p : Problem) (s : Progress) : Prop where
  reaches : Reaches p (start p) s
  empty : s.queue = []

theorem mem_erase_or_eq {queue : List Nat} {n m : Nat} (h : m ∈ queue) :
    m = n ∨ m ∈ queue.erase n := by
  by_cases hm : m = n
  · exact Or.inl hm
  · exact Or.inr ((List.mem_erase_of_ne hm).mpr h)

theorem invariant_of_reaches {p : Problem} {s : Progress} (h : Reaches p (start p) s) :
    Invariant p s := by
  induction h with
  | refl => exact invariant_start p
  | tail _ hlast ih =>
      obtain ⟨n, -, rfl⟩ := hlast
      exact ih.process fun m hm => mem_erase_or_eq hm

/-- When the queue is empty, the sets are a solution and all states that occur are known. -/
theorem Settled.solvesWithin {p : Problem} {s : Progress} (h : Settled p s) :
    SolvesWithin p s.entrySet s.exitSet (s.recorded p) := by
  have hinv := invariant_of_reaches h.reaches
  refine ⟨hinv.initial, Or.inl rfl, hinv.entry, hinv.exit, ?_⟩
  intro n x b hx hb
  rcases hinv.walks n x b hx hb with hqueued | hwalked
  · rw [h.empty] at hqueued
    cases hqueued
  · exact hwalked

end Typestate
end StreamVerdict
