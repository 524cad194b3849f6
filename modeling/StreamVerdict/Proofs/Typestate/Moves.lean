/-
  What processing a node can do to a solve.

  Processing is a sequence of moves of three kinds: the states change by an action on the
  object, they flow into a called node and what that may be left with is added, or they flow
  out of the node.  Whatever holds of each move holds of the processing as a whole.
-/
import Mathlib.Logic.Relation
import StreamVerdict.Proofs.CallGraph.Graph
import StreamVerdict.Proofs.Data.Worklist
import StreamVerdict.Proofs.Typestate.Visits

namespace StreamVerdict

/-- The members of a set as a predicate. -/
def OrdSet.members {α : Type} [Ord α] (s : OrdSet α) : Set α := {a | a ∈ s}

theorem OrdSet.members_empty {α : Type} [Ord α] : (∅ : OrdSet α).members = ∅ :=
  Set.eq_empty_of_forall_notMem OrdSet.not_mem_empty

namespace Typestate

/-! ### Facts -/

namespace Facts

theorem mem_get_join {f : Facts} {n m : Nat} {s : OrdSet State} {q : State} :
    q ∈ get (join f n s) m ↔ q ∈ get f m ∨ (m = n ∧ q ∈ s) := by
  by_cases h : m = n
  · subst h
    simp [get, join]
  · have hb : (m == n) = false := beq_false_of_ne h
    have hget : get (join f n s) m = get f m := by
      rw [get, join, List.lookup_cons, hb]
      show ((f.filter fun c => c.1 ≠ n).lookup m).getD ∅ = get f m
      rw [lookup_filter_ne f h, get]
    simp [hget, h]

theorem lacks_eq_false {f : Facts} {n : Nat} {s : OrdSet State} :
    lacks f n s = false ↔ ∀ q ∈ s, q ∈ get f n := by
  simp [lacks]

end Facts

/-! ### The sets of a solve -/

namespace Progress

/-- The states with which a node may be entered. -/
def entrySet (s : Progress) : Sets := fun n => (Facts.get s.entry n).members

/-- The states with which a node may be left. -/
def exitSet (s : Progress) : Sets := fun n => (Facts.get s.exit n).members

/-- The states that are known: the initial one, and the targets of events. -/
def recorded (s : Progress) (p : Problem) : Set State :=
  {q | q = p.protocol.initial ∨ ∃ e ∈ s.events, e.target = q}

/-! ### Single operations -/

theorem mem_entrySet_enter {s : Progress} {n m : Nat} {C : OrdSet State} {q : State} :
    q ∈ (s.enter n C).entrySet m ↔ q ∈ s.entrySet m ∨ (m = n ∧ q ∈ C.members) := by
  have hentry : (s.enter n C).entry = Facts.join s.entry n C := by
    rw [enter]
    split <;> rfl
  show q ∈ Facts.get (s.enter n C).entry m ↔ _
  rw [hentry, Facts.mem_get_join]
  rfl

@[simp] theorem exit_enter (s : Progress) (n : Nat) (C : OrdSet State) :
    (s.enter n C).exit = s.exit := by
  rw [enter]
  split <;> rfl

@[simp] theorem events_enter (s : Progress) (n : Nat) (C : OrdSet State) :
    (s.enter n C).events = s.events := by
  rw [enter]
  split <;> rfl

@[simp] theorem exitSet_enter (s : Progress) (n : Nat) (C : OrdSet State) :
    (s.enter n C).exitSet = s.exitSet := by
  funext m
  rw [exitSet, exit_enter]
  rfl

@[simp] theorem recorded_enter (s : Progress) (n : Nat) (C : OrdSet State) (p : Problem) :
    (s.enter n C).recorded p = s.recorded p := by
  rw [recorded, events_enter]
  rfl

/-- A node is queued when it may be entered with more, and nothing else is queued. -/
theorem mem_queue_enter {s : Progress} {n m : Nat} {C : OrdSet State} :
    m ∈ (s.enter n C).queue ↔ m ∈ s.queue ∨ (m = n ∧ ¬ C.members ⊆ s.entrySet n) := by
  have hlacks : Facts.lacks s.entry n C = true ↔ ¬ C.members ⊆ s.entrySet n := by
    rw [← Bool.not_eq_false, Facts.lacks_eq_false]
    rfl
  rw [enter]
  by_cases h : Facts.lacks s.entry n C = true
  · rw [if_pos h]
    show m ∈ Worklist.enqueue s.queue n ↔ _
    rw [Worklist.mem_enqueue]
    simp [hlacks.mp h]
  · rw [if_neg h]
    show m ∈ s.queue ↔ _
    simp [mt hlacks.mpr h]

theorem mem_exitSet_leave {g : CallGraph} {s : Progress} {n m : Nat} {C : OrdSet State}
    {q : State} :
    q ∈ (s.leave g n C).exitSet m ↔ q ∈ s.exitSet m ∨ (m = n ∧ q ∈ C.members) := by
  have hexit : (s.leave g n C).exit = Facts.join s.exit n C := by
    rw [leave]
    split <;> rfl
  show q ∈ Facts.get (s.leave g n C).exit m ↔ _
  rw [hexit, Facts.mem_get_join]
  rfl

@[simp] theorem entry_leave (g : CallGraph) (s : Progress) (n : Nat) (C : OrdSet State) :
    (s.leave g n C).entry = s.entry := by
  rw [leave]
  split <;> rfl

@[simp] theorem events_leave (g : CallGraph) (s : Progress) (n : Nat) (C : OrdSet State) :
    (s.leave g n C).events = s.events := by
  rw [leave]
  split <;> rfl

@[simp] theorem entrySet_leave (g : CallGraph) (s : Progress) (n : Nat) (C : OrdSet State) :
    (s.leave g n C).entrySet = s.entrySet := by
  funext m
  rw [entrySet, entry_leave]
  rfl

@[simp] theorem recorded_leave (g : CallGraph) (s : Progress) (n : Nat) (C : OrdSet State)
    (p : Problem) : (s.leave g n C).recorded p = s.recorded p := by
  rw [recorded, events_leave]
  rfl

/-- The callers of a node are queued when it may be left with more, and nothing else is. -/
theorem mem_queue_leave {g : CallGraph} {s : Progress} {n m : Nat} {C : OrdSet State} :
    m ∈ (s.leave g n C).queue ↔
      m ∈ s.queue ∨ (m ∈ g.callers n ∧ ¬ C.members ⊆ s.exitSet n) := by
  have hlacks : Facts.lacks s.exit n C = true ↔ ¬ C.members ⊆ s.exitSet n := by
    rw [← Bool.not_eq_false, Facts.lacks_eq_false]
    rfl
  rw [leave]
  by_cases h : Facts.lacks s.exit n C = true
  · rw [if_pos h]
    show m ∈ Worklist.enqueueAll s.queue (g.callers n) ↔ _
    rw [Worklist.mem_enqueueAll]
    simp [hlacks.mp h]
  · rw [if_neg h]
    show m ∈ s.queue ↔ _
    simp [mt hlacks.mpr h]

end Progress

/-! ### Actions -/

/-- One state is acted on, and the state after it is added to those that are done. -/
def strike (p : Problem) (n : Nat) (x : Node) (iindex : Nat) (action : Action)
    (done : Progress × OrdSet State) (source : State) : Progress × OrdSet State :=
  match p.protocol.next? source action with
  | none => (done.1, done.2.insert source)
  | some target =>
    let s := if target = source then done.1
      else done.1.record ⟨p.object, n, x.method, iindex, action, source, target⟩
    (s, done.2.insert target)

theorem act_eq (p : Problem) (n : Nat) (x : Node) (iindex : Nat) (action : Action)
    (acc : Progress × OrdSet State) :
    act p n x iindex action acc =
      acc.2.toList.foldl (strike p n x iindex action) (acc.1, ∅) := rfl

/-- What is known stays known while events are added. -/
theorem Progress.recorded_mono {s s' : Progress} (h : s.events <:+ s'.events) (p : Problem) :
    s.recorded p ⊆ s'.recorded p := by
  rintro q (hq | ⟨e, he, htarget⟩)
  · exact Or.inl hq
  · exact Or.inr ⟨e, h.mem he, htarget⟩

/-- Nothing but events changes, and events are only added. -/
structure OnlyEvents (s s' : Progress) : Prop where
  entry : s'.entry = s.entry
  exit : s'.exit = s.exit
  queue : s'.queue = s.queue
  events : s.events <:+ s'.events

theorem OnlyEvents.refl (s : Progress) : OnlyEvents s s := ⟨rfl, rfl, rfl, List.suffix_rfl⟩

theorem OnlyEvents.trans {s s' s'' : Progress} (h : OnlyEvents s s') (h' : OnlyEvents s' s'') :
    OnlyEvents s s'' :=
  ⟨h'.entry.trans h.entry, h'.exit.trans h.exit, h'.queue.trans h.queue,
    h.events.trans h'.events⟩

theorem OnlyEvents.entrySet {s s' : Progress} (h : OnlyEvents s s') :
    s'.entrySet = s.entrySet := by
  funext m
  rw [Progress.entrySet, h.entry]
  rfl

theorem OnlyEvents.exitSet {s s' : Progress} (h : OnlyEvents s s') : s'.exitSet = s.exitSet := by
  funext m
  rw [Progress.exitSet, h.exit]
  rfl

/-- Recording an event makes its target known, and nothing else. -/
theorem record_spec (p : Problem) (s : Progress) (e : Event) :
    OnlyEvents s (s.record e) ∧ e.target ∈ (s.record e).recorded p ∧
      ∀ q ∈ (s.record e).recorded p, q ∈ s.recorded p ∨ q = e.target := by
  rw [Progress.record]
  by_cases hknown : e.mark ∈ s.seen
  · rw [if_pos hknown]
    -- There is an event with the same mark, and so with the same target.
    obtain ⟨old, hold, hsame⟩ := Progress.mem_seen.mp hknown
    have htarget : old.target = e.target := congrArg (fun mark => mark.2.2.2) hsame
    exact ⟨OnlyEvents.refl s, Or.inr ⟨old, hold, htarget⟩, fun q hq => Or.inl hq⟩
  · rw [if_neg hknown]
    refine ⟨⟨rfl, rfl, rfl, List.suffix_cons _ _⟩,
      Or.inr ⟨e, List.mem_cons_self, rfl⟩, ?_⟩
    rintro q (hq | ⟨old, hold, rfl⟩)
    · exact Or.inl (Or.inl hq)
    · rcases List.mem_cons.mp hold with rfl | hold
      · exact Or.inr rfl
      · exact Or.inl (Or.inr ⟨old, hold, rfl⟩)

/-- Acting on one state adds the state after it, which is known if the state was. -/
theorem strike_spec (p : Problem) (n : Nat) (x : Node) (iindex : Nat) (action : Action)
    (done : Progress × OrdSet State) (source : State) :
    OnlyEvents done.1 (strike p n x iindex action done source).1 ∧
    (strike p n x iindex action done source).2 =
      done.2.insert (p.protocol.after action source) ∧
    (source ∈ done.1.recorded p →
      p.protocol.after action source ∈ (strike p n x iindex action done source).1.recorded p) ∧
    ∀ q ∈ (strike p n x iindex action done source).1.recorded p,
      q ∈ done.1.recorded p ∨ q = p.protocol.after action source := by
  rw [strike, Protocol.after]
  rcases p.protocol.next? source action with _ | target
  · exact ⟨OnlyEvents.refl _, rfl, fun h => h, fun q hq => Or.inl hq⟩
  · by_cases hsame : target = source
    · -- A state that leads to itself is not recorded: whoever knew it knows it still.
      subst hsame
      simp only [if_true]
      exact ⟨OnlyEvents.refl _, rfl, fun h => h, fun q hq => Or.inl hq⟩
    · simp only [hsame, if_false]
      obtain ⟨honly, htarget, hback⟩ :=
        record_spec p done.1 ⟨p.object, n, x.method, iindex, action, source, target⟩
      exact ⟨honly, rfl, fun _ => htarget, hback⟩

theorem foldl_strike_spec (p : Problem) (n : Nat) (x : Node) (iindex : Nat) (action : Action)
    (sources : List State) (done : Progress × OrdSet State) :
    let r := sources.foldl (strike p n x iindex action) done
    OnlyEvents done.1 r.1 ∧
    (∀ q, q ∈ r.2 ↔ q ∈ done.2 ∨ ∃ source ∈ sources, p.protocol.after action source = q) ∧
    ((∀ source ∈ sources, source ∈ done.1.recorded p) → done.2.members ⊆ done.1.recorded p →
      r.2.members ⊆ r.1.recorded p) ∧
    ∀ q ∈ r.1.recorded p, q ∈ done.1.recorded p ∨ q ∈ r.2 := by
  induction sources generalizing done with
  | nil =>
      refine ⟨OnlyEvents.refl _, ?_, fun _ h => h, fun q hq => Or.inl hq⟩
      intro q
      simp
  | cons source sources ih =>
      obtain ⟨honly, hset, hknown, hback⟩ := strike_spec p n x iindex action done source
      obtain ⟨ihonly, ihset, ihknown, ihback⟩ := ih (strike p n x iindex action done source)
      have hmem : ∀ q, q ∈ (strike p n x iindex action done source).2 ↔
          q ∈ done.2 ∨ p.protocol.after action source = q := by
        intro q
        rw [hset, OrdSet.mem_insert, or_comm, eq_comm]
      refine ⟨honly.trans ihonly, ?_, ?_, ?_⟩
      · intro q
        rw [List.foldl_cons, ihset q, hmem q, or_assoc]
        simp only [List.mem_cons, exists_eq_or_imp]
      · intro hsources hdone
        refine ihknown ?_ ?_
        · intro other hother
          exact Progress.recorded_mono honly.events p (hsources other (List.mem_cons_of_mem _ hother))
        · intro q hq
          rcases (hmem q).mp hq with hq | rfl
          · exact Progress.recorded_mono honly.events p (hdone hq)
          · exact hknown (hsources source List.mem_cons_self)
      · intro q hq
        rcases ihback q hq with hq | hq
        · rcases hback q hq with hq | rfl
          · exact Or.inl hq
          · exact Or.inr ((ihset _).mpr (Or.inl ((hmem _).mpr (Or.inr rfl))))
        · exact Or.inr hq

/-- The action of an instruction, if it has one. -/
def perform (p : Problem) (n : Nat) (x : Node) (i : Instruction)
    (acc : Progress × OrdSet State) : Progress × OrdSet State :=
  match actionAt? p n x i with
  | some a => act p n x i.index a acc
  | none => acc

/-- An action moves the states, which stay known; nothing becomes known but what they move to. -/
theorem perform_spec (p : Problem) (n : Nat) (x : Node) (i : Instruction)
    (acc : Progress × OrdSet State) :
    OnlyEvents acc.1 (perform p n x i acc).1 ∧
    (perform p n x i acc).2.members = afterInstruction p n x i '' acc.2.members ∧
    (acc.2.members ⊆ acc.1.recorded p →
      (perform p n x i acc).2.members ⊆ (perform p n x i acc).1.recorded p) ∧
    (perform p n x i acc).1.recorded p ⊆
      acc.1.recorded p ∪ (perform p n x i acc).2.members := by
  have hafter : ∀ q, afterInstruction p n x i q =
      match actionAt? p n x i with | some a => p.protocol.after a q | none => q := fun q => rfl
  rw [perform]
  rcases hact : actionAt? p n x i with _ | a
  · simp only [hact] at hafter ⊢
    refine ⟨OnlyEvents.refl _, ?_, fun h => h, Set.subset_union_left⟩
    rw [show afterInstruction p n x i = id from funext hafter, Set.image_id]
  · simp only [hact] at hafter ⊢
    obtain ⟨honly, hset, hknown, hback⟩ :=
      foldl_strike_spec p n x i.index a acc.2.toList (acc.1, ∅)
    rw [act_eq]
    refine ⟨honly, ?_, ?_, hback⟩
    · ext q
      show q ∈ (acc.2.toList.foldl (strike p n x i.index a) (acc.1, ∅)).2 ↔ _
      rw [hset q, funext hafter]
      simp only [OrdSet.not_mem_empty, false_or]
      rfl
    · intro hcurrent
      refine hknown hcurrent ?_
      intro q hq
      exact absurd hq (OrdSet.not_mem_empty q)

/-! ### Moves -/

/-- Something that happens while node `n` is processed. -/
inductive Move (p : Problem) (n : Nat) (x : Node) :
    Progress × OrdSet State → Progress × OrdSet State → Prop where
  | act (i : Instruction) (acc : Progress × OrdSet State) : Move p n x acc (perform p n x i acc)
  | call {c : Nat} {site : CallSite} (h : ⟨n, site, c⟩ ∈ p.graph.graph.edges)
      (acc : Progress × OrdSet State) : Move p n x acc (visitCallee acc c)
  | leave (acc : Progress × OrdSet State) :
      Move p n x acc (acc.1.leave p.graph.graph n acc.2, acc.2)

abbrev Moves (p : Problem) (n : Nat) (x : Node) :
    Progress × OrdSet State → Progress × OrdSet State → Prop :=
  Relation.ReflTransGen (Move p n x)

theorem edge_of_calledBy {p : Problem} {n c : Nat} {i : Instruction} (h : c ∈ calledBy p n i) :
    ∃ site, ⟨n, site, c⟩ ∈ p.graph.graph.edges := by
  cases i with
  | new _ _ _ _ => exact absurd h List.not_mem_nil
  | invoke _ _ _ site _ => exact ⟨site, CallGraph.mem_targets.mp h⟩
  | ret _ _ _ => exact absurd h List.not_mem_nil

/-- A walk over an instruction performs its action, visits the called nodes in order and, at a
    return, leaves the node. -/
theorem walk_eq (p : Problem) (n : Nat) (x : Node) (acc : Progress × OrdSet State)
    (i : Instruction) :
    walk p n x acc i =
      let after := (calledBy p n i).foldl visitCallee (perform p n x i acc)
      if isReturn i then (after.1.leave p.graph.graph n after.2, after.2) else after := by
  cases i with
  | new iindex v site line =>
      by_cases halloc : Instance.allocated x.method site x.context.callString = p.object
      · simp [walk, perform, actionAt?, calledBy, isReturn, Instruction.index, halloc]
      · simp [walk, perform, actionAt?, calledBy, isReturn, halloc]
  | invoke iindex v args site line =>
      rw [walk, perform, actionAt?]
      by_cases honObject : (!site.kind.isStatic &&
          args.head?.any fun v => p.object ∈ p.graph.pointsTo.get n v) = true
      · rw [if_pos honObject, if_pos honObject]
        rfl
      · rw [if_neg honObject, if_neg honObject]
        rfl
  | ret iindex v line => rfl

/-- The states after an instruction are those after the nodes that it calls. -/
theorem current_walk (p : Problem) (n : Nat) (x : Node) (acc : Progress × OrdSet State)
    (i : Instruction) :
    (walk p n x acc i).2 = ((calledBy p n i).foldl visitCallee (perform p n x i acc)).2 := by
  rw [walk_eq]
  by_cases hret : isReturn i = true
  · simp only [hret, if_true]
  · simp only [hret, Bool.false_eq_true, if_false]

theorem walk_of_isReturn (p : Problem) (n : Nat) (x : Node) (acc : Progress × OrdSet State)
    {i : Instruction} (hret : isReturn i = true) :
    (walk p n x acc i).1 =
      (perform p n x i acc).1.leave p.graph.graph n (perform p n x i acc).2 := by
  rw [walk_eq, calledBy_eq_nil p n hret]
  simp only [hret, if_true, List.foldl_nil]

theorem moves_of_visitCallees {p : Problem} {n : Nat} {x : Node} {cs : List Nat}
    (h : ∀ c ∈ cs, ∃ site, ⟨n, site, c⟩ ∈ p.graph.graph.edges) (acc : Progress × OrdSet State) :
    Moves p n x acc (cs.foldl visitCallee acc) := by
  induction cs generalizing acc with
  | nil => exact Relation.ReflTransGen.refl
  | cons c cs ih =>
      obtain ⟨site, hedge⟩ := h c List.mem_cons_self
      have hrest := ih (fun d hd => h d (List.mem_cons_of_mem _ hd)) (visitCallee acc c)
      exact Relation.ReflTransGen.head (Move.call hedge acc) hrest

theorem moves_of_walk (p : Problem) (n : Nat) (x : Node) (acc : Progress × OrdSet State)
    (i : Instruction) : Moves p n x acc (walk p n x acc i) := by
  rw [walk_eq]
  have hact : Moves p n x acc (perform p n x i acc) :=
    Relation.ReflTransGen.single (Move.act i acc)
  have hcalls : Moves p n x acc ((calledBy p n i).foldl visitCallee (perform p n x i acc)) :=
    hact.trans (moves_of_visitCallees (fun _ hc => edge_of_calledBy hc) _)
  by_cases hret : isReturn i = true
  · simp only [hret, if_true]
    exact hcalls.tail (Move.leave _)
  · simp only [hret, Bool.false_eq_true, if_false]
    exact hcalls

theorem moves_of_walks (p : Problem) (n : Nat) (x : Node) (is : List Instruction)
    (acc : Progress × OrdSet State) : Moves p n x acc (is.foldl (walk p n x) acc) := by
  induction is generalizing acc with
  | nil => exact Relation.ReflTransGen.refl
  | cons i is ih => exact (moves_of_walk p n x acc i).trans (ih (walk p n x acc i))

/-- The states with which a node may be entered are walked through its body, and then flow out
    of it. -/
def walkThrough (p : Problem) (n : Nat) (x : Node) (is : List Instruction)
    (acc : Progress × OrdSet State) : Progress :=
  (is.foldl (walk p n x) acc).1.leave p.graph.graph n (is.foldl (walk p n x) acc).2

theorem moves_of_walkThrough (p : Problem) (n : Nat) (x : Node) (is : List Instruction)
    (acc : Progress × OrdSet State) :
    Moves p n x acc (walkThrough p n x is acc, (is.foldl (walk p n x) acc).2) :=
  (moves_of_walks p n x is acc).tail (Move.leave _)

/-- Processing a node walks through its body, if it has one. -/
theorem process_cases (p : Problem) (n : Nat) (s : Progress) :
    (process p n s = s ∧ ∀ x b, p.graph.graph.node? n = some x → p.graph.body? n ≠ some b) ∨
    ∃ x b, p.graph.graph.node? n = some x ∧ p.graph.body? n = some b ∧
      process p n s = walkThrough p n x b.instructions (s, Facts.get s.entry n) := by
  rw [process]
  rcases hx : p.graph.graph.node? n with _ | x
  · refine Or.inl ⟨rfl, ?_⟩
    intro x b hx'
    cases hx'
  · rcases hb : p.graph.body? n with _ | b
    · refine Or.inl ⟨rfl, ?_⟩
      intro x' b' _ hb'
      cases hb'
    · exact Or.inr ⟨x, b, rfl, rfl, rfl⟩

end Typestate
end StreamVerdict
