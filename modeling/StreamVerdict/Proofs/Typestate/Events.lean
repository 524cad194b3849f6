/-
  Every event has a cause.

  An event is recorded while an instruction of its node is walked over, for a state in which the
  object may be there.  All states that a solve holds are known: they are the initial one or were
  reached by events before.  So the events, in the order of their discovery, tell a life that
  starts in the initial state and goes on from where it was.  No change is told twice, as each is
  compared with those before it, and as no object is solved twice.
-/
import Mathlib.Data.List.Nodup
import StreamVerdict.Proofs.Data.OrdSet
import StreamVerdict.Proofs.Data.Order
import StreamVerdict.Proofs.Typestate.Lifecycle

namespace StreamVerdict

/-! ### Causes -/

/-- The object, place and change of an event: what tells two events apart. -/
def Event.change (e : Event) : Instance × Nat × Nat × State × State :=
  (e.object, e.node, e.iindex, e.source, e.target)

/-- The event is the transition of its protocol for what an instruction of its node does to its
    object, and leads to another state. -/
structure Event.Caused (g : BuiltGraph) (p : Protocol) (e : Event) : Prop where
  instruction : ∃ x b i, g.graph.node? e.node = some x ∧ x.method = e.method ∧
    g.body? e.node = some b ∧ i ∈ b.instructions ∧ i.index = e.iindex ∧
    Typestate.Acts g e.node x e.object i e.action
  transition : p.next? e.source e.action = some e.target
  change : e.target ≠ e.source

/-- Events of one or more objects, newest first.  Each has a cause, begins in the initial state
    or where an earlier event of its object ended, and is told once. -/
inductive Log (g : BuiltGraph) (p : Protocol) : List Event → Prop where
  | nil : Log g p []
  | cons {e : Event} {es : List Event} (hcause : e.Caused g p)
      (hsource : e.source = p.initial ∨
        ∃ old ∈ es, old.object = e.object ∧ old.target = e.source)
      (hnew : ∀ old ∈ es, old.change ≠ e.change) (hrest : Log g p es) : Log g p (e :: es)

namespace Log

variable {g : BuiltGraph} {p : Protocol} {e : Event} {es later earlier : List Event}

/-- What is said of an event only depends on those before it. -/
theorem at_event (h : Log g p (later ++ e :: earlier)) :
    e.Caused g p ∧ (e.source = p.initial ∨
      ∃ old ∈ earlier, old.object = e.object ∧ old.target = e.source) := by
  induction later with
  | nil =>
      obtain _ | ⟨hcause, hsource, -, -⟩ := h
      exact ⟨hcause, hsource⟩
  | cons _ later ih =>
      obtain _ | ⟨-, -, -, hrest⟩ := h
      exact ih hrest

theorem nodup_change (h : Log g p es) : (es.map Event.change).Nodup := by
  induction h with
  | nil => exact List.nodup_nil
  | @cons e es _ _ hnew _ ih =>
      refine List.nodup_cons.mpr ⟨?_, ih⟩
      intro hmem
      obtain ⟨old, hold, hsame⟩ := List.mem_map.mp hmem
      exact hnew old hold hsame

/-- The events of an object that has none so far are put before the others. -/
theorem append {i : Instance} (h : Log g p later) (hown : ∀ e ∈ later, e.object = i)
    (hearlier : Log g p earlier) (hother : ∀ e ∈ earlier, e.object ≠ i) :
    Log g p (later ++ earlier) := by
  induction h with
  | nil => exact hearlier
  | @cons e es hcause hsource hnew _ ih =>
      have hobject : e.object = i := hown e List.mem_cons_self
      refine Log.cons hcause ?_ ?_ (ih fun old hold => hown old (List.mem_cons_of_mem e hold))
      · refine hsource.imp_right ?_
        rintro ⟨old, hold, hbefore⟩
        exact ⟨old, List.mem_append_left _ hold, hbefore⟩
      · intro old hold hsame
        rcases List.mem_append.mp hold with hold | hold
        · exact hnew old hold hsame
        · -- An event of another object is told apart by its object.
          have hsameObject : old.object = e.object := congrArg Prod.fst hsame
          exact hother old hold (hsameObject.trans hobject)

end Log

namespace Typestate

/-! ### One object -/

/-- The events of a solve are a log, and all of them are events of its object. -/
structure Logged (p : Problem) (s : Progress) : Prop where
  log : Log p.graph p.protocol s.events
  own : ∀ e ∈ s.events, e.object = p.object

namespace Logged

variable {p : Problem} {s : Progress} {n : Nat} {x : Node} {b : Body} {i : Instruction}
  {acc : Progress × OrdSet State}

theorem of_events {s' : Progress} (h : Logged p s) (hevents : s'.events = s.events) :
    Logged p s' := by
  refine ⟨?_, ?_⟩
  · rw [hevents]
    exact h.log
  · rw [hevents]
    exact h.own

/-- An event that has a cause and begins in a known state is put before the others, unless it is
    among them. -/
theorem record {e : Event} (h : Logged p s) (hcause : e.Caused p.graph p.protocol)
    (hobject : e.object = p.object) (hsource : e.source ∈ s.recorded p) :
    Logged p (s.record e) := by
  rw [Progress.record]
  by_cases hknown : e.mark ∈ s.seen
  · rw [if_pos hknown]
    exact h
  · rw [if_neg hknown]
    refine ⟨Log.cons hcause ?_ ?_ h.log, ?_⟩
    · refine hsource.imp_right ?_
      rintro ⟨old, hold, htarget⟩
      exact ⟨old, hold, (h.own old hold).trans hobject.symm, htarget⟩
    · -- Place and states were compared, and the object is the same in all events.
      intro old hold hsame
      exact hknown (Progress.mem_seen.mpr ⟨old, hold, congrArg Prod.snd hsame⟩)
    · intro old hold
      rcases List.mem_cons.mp hold with rfl | hold
      · exact hobject
      · exact h.own old hold

/-- Acting on a known state records an event whose cause is the instruction, or none. -/
theorem strike {a : Action} {done : Progress × OrdSet State} {source : State}
    (h : Logged p done.1) (hx : p.graph.graph.node? n = some x)
    (hb : p.graph.body? n = some b) (hi : i ∈ b.instructions)
    (haction : actionAt? p n x i = some a) (hsource : source ∈ done.1.recorded p) :
    Logged p (strike p n x i.index a done source).1 := by
  rw [Typestate.strike]
  rcases hnext : p.protocol.next? source a with _ | target
  · exact h
  · by_cases hsame : target = source
    · simp only [hsame, if_true]
      exact h
    · simp only [hsame, if_false]
      refine h.record ⟨?_, hnext, hsame⟩ rfl hsource
      exact ⟨x, b, i, hx, rfl, hb, hi, rfl, actionAt?_eq_some_iff.mp haction⟩

theorem strikes {a : Action} {sources : List State} {done : Progress × OrdSet State}
    (h : Logged p done.1) (hx : p.graph.graph.node? n = some x)
    (hb : p.graph.body? n = some b) (hi : i ∈ b.instructions)
    (haction : actionAt? p n x i = some a)
    (hsources : ∀ source ∈ sources, source ∈ done.1.recorded p) :
    Logged p (sources.foldl (Typestate.strike p n x i.index a) done).1 := by
  induction sources generalizing done with
  | nil => exact h
  | cons source sources ih =>
      have hfirst := h.strike hx hb hi haction (hsources source List.mem_cons_self)
      have honly := (strike_spec p n x i.index a done source).1
      -- What was known before the first state was acted on is known after it.
      refine ih hfirst ?_
      intro other hother
      exact Progress.recorded_mono honly.events p (hsources other (List.mem_cons_of_mem _ hother))

theorem perform (h : Logged p acc.1) (hx : p.graph.graph.node? n = some x)
    (hb : p.graph.body? n = some b) (hi : i ∈ b.instructions)
    (hcurrent : acc.2.members ⊆ acc.1.recorded p) : Logged p (perform p n x i acc).1 := by
  rw [Typestate.perform]
  rcases haction : actionAt? p n x i with _ | a
  · exact h
  · simp only [act_eq]
    have hstart : Logged p ((acc.1, ∅) : Progress × OrdSet State).1 := h
    exact hstart.strikes hx hb hi haction hcurrent

end Logged

/-! ### Runs -/

theorem events_visitCallees (cs : List Nat) (acc : Progress × OrdSet State) :
    (cs.foldl visitCallee acc).1.events = acc.1.events := by
  induction cs generalizing acc with
  | nil => rfl
  | cons c cs ih =>
      rw [List.foldl_cons, ih]
      exact Progress.events_enter acc.1 c acc.2

/-- Only the action of an instruction records events. -/
theorem events_walk (p : Problem) (n : Nat) (x : Node) (acc : Progress × OrdSet State)
    (i : Instruction) : (walk p n x acc i).1.events = (perform p n x i acc).1.events := by
  rw [walk_eq]
  by_cases hret : isReturn i = true
  · simp only [hret, if_true, Progress.events_leave, events_visitCallees]
  · simp only [hret, Bool.false_eq_true, if_false, events_visitCallees]

namespace Logged

variable {p : Problem} {s : Progress} {n : Nat} {x : Node} {b : Body}

theorem walks {is : List Instruction} {acc : Progress × OrdSet State} (h : Logged p acc.1)
    (hknown : Known p acc) (hx : p.graph.graph.node? n = some x)
    (hb : p.graph.body? n = some b) (his : ∀ i ∈ is, i ∈ b.instructions) :
    Logged p (is.foldl (walk p n x) acc).1 := by
  induction is generalizing acc with
  | nil => exact h
  | cons i is ih =>
      have hperformed := h.perform hx hb (his i List.mem_cons_self) hknown.current
      have hwalked : Logged p (walk p n x acc i).1 :=
        hperformed.of_events (events_walk p n x acc i)
      exact ih hwalked (hknown.moves (moves_of_walk p n x acc i))
        fun j hj => his j (List.mem_cons_of_mem i hj)

theorem process {queue : List Nat} (h : Logged p s) (hinv : Invariant p s) (n : Nat) :
    Logged p (process p n { s with queue }) := by
  have hrest : Logged p { s with queue } := h.of_events rfl
  rcases process_cases p n { s with queue } with ⟨hsame, -⟩ | ⟨x, b, hx, hb, hprocess⟩
  · rw [hsame]
    exact hrest
  · -- The walk begins with states that are known by the invariant.
    have hknown : Known p ({ s with queue }, Facts.get s.entry n) :=
      ⟨hinv.entry n, hinv.entry, hinv.exit⟩
    have hwalked : Logged p
        (b.instructions.foldl (walk p n x) ({ s with queue }, Facts.get s.entry n)).1 :=
      walks hrest hknown hx hb fun _ hi => hi
    rw [hprocess]
    exact hwalked.of_events (Progress.events_leave ..)

/-- Wherever runs lead, the events are a log. -/
theorem of_reaches (h : Reaches p (start p) s) : Logged p s := by
  induction h with
  | refl =>
      have hnone : Logged p .blank := ⟨Log.nil, fun _ he => absurd he List.not_mem_nil⟩
      exact hnone.of_events (events_start p)
  | tail hbefore hlast ih =>
      obtain ⟨n, -, rfl⟩ := hlast
      exact ih.process (invariant_of_reaches hbefore) n

end Logged

/-! ### All objects -/

section

variable {limits : SolverLimits} {g : BuiltGraph} {p : Protocol} {monitor : Monitor}

theorem log_of_solveObject {earlier : Nat} {i : Instance} {events : List Event}
    (h : (solveObject limits monitor earlier ⟨g, p, i⟩).2 = .ok events) :
    Log g p events.reverse ∧ ∀ e ∈ events, e.object = i := by
  obtain ⟨s, hsettled, rfl⟩ := settled_of_solveObject h
  have hlogged := Logged.of_reaches hsettled.reaches
  refine ⟨?_, ?_⟩
  · rw [List.reverse_reverse]
    exact hlogged.log
  · intro e he
    exact hlogged.own e (List.mem_reverse.mp he)

theorem log_of_solveAll {is : List Instance} {S S' : Solution}
    (h : (solveAll limits g p is monitor S).2 = .ok S') (hdistinct : is.Nodup)
    (hlog : Log g p S.events.reverse) (hfresh : ∀ e ∈ S.events, e.object ∉ is) :
    Log g p S'.events.reverse := by
  induction is generalizing monitor S with
  | nil =>
      cases h
      exact hlog
  | cons i is ih =>
      rw [solveAll] at h
      rcases hsolve : solveObject limits monitor S.events.length ⟨g, p, i⟩ with ⟨m, e | events⟩
      · rw [hsolve] at h
        cases h
      · rw [hsolve] at h
        obtain ⟨hnew, hown⟩ := log_of_solveObject (congrArg Prod.snd hsolve)
        obtain ⟨hi, hrest⟩ := List.nodup_cons.mp hdistinct
        refine ih h hrest ?_ ?_
        · -- The object comes up for the first time.
          rw [List.reverse_append]
          refine hnew.append (fun e he => hown e (List.mem_reverse.mp he)) hlog ?_
          intro e he hsame
          exact hfresh e (List.mem_reverse.mp he) (hsame ▸ List.mem_cons_self)
        · intro e he
          rcases List.mem_append.mp he with hold | hlast
          · exact fun hmem => hfresh e hold (List.mem_cons_of_mem i hmem)
          · rw [hown e hlast]
            exact hi

/-- No object is solved twice. -/
theorem nodup_objectsOf (g : BuiltGraph) (h : Hierarchy) (tracked : TypeName) :
    (objectsOf g h tracked).Nodup :=
  g.pointsTo.instances.nodup.sublist List.filter_sublist

theorem log_of_solve {h : Hierarchy} {tracked : TypeName} {S : Solution}
    (hsolve : (solve limits g h p tracked monitor).2 = .ok S) : Log g p S.events.reverse := by
  rw [solve_eq_solveAll hsolve] at hsolve
  exact log_of_solveAll hsolve (nodup_objectsOf g h tracked) Log.nil
    fun e he => absurd he List.not_mem_nil

end

/-- The events of a solution are the transitions of its protocol at instructions that allocate
    their objects or call methods on them, each begins in the initial state or where an earlier
    event of its object ended, and none is there twice. -/
theorem solve_events_caused (limits : SolverLimits) (g : BuiltGraph) (h : Hierarchy)
    (p : Protocol) (tracked : TypeName) (monitor : Monitor) (S : Solution)
    (hsolve : (solve limits g h p tracked monitor).2 = .ok S) :
    (∀ (k : Nat) (e : Event), S.events[k]? = some e →
      e.Caused g p ∧ (e.source = p.initial ∨ ∃ j old, j < k ∧ S.events[j]? = some old ∧
        old.object = e.object ∧ old.target = e.source)) ∧
    (S.events.map Event.change).Nodup := by
  have hlog := log_of_solve hsolve
  refine ⟨?_, ?_⟩
  · intro k e he
    obtain ⟨hk, rfl⟩ := List.getElem?_eq_some_iff.mp he
    -- Newest first, the events up to `k` come behind the one at `k`.
    have hsplit : S.events.reverse =
        (S.events.drop (k + 1)).reverse ++ S.events[k] :: (S.events.take k).reverse := by
      conv_lhs => rw [← List.take_append_drop k S.events, List.drop_eq_getElem_cons hk]
      simp
    rw [hsplit] at hlog
    obtain ⟨hcause, hsource⟩ := hlog.at_event
    refine ⟨hcause, hsource.imp_right ?_⟩
    rintro ⟨old, hold, hbefore⟩
    obtain ⟨j, hj⟩ := List.mem_iff_getElem?.mp (List.mem_reverse.mp hold)
    rw [List.getElem?_take, Option.ite_none_right_eq_some] at hj
    exact ⟨j, old, hj.1, hj.2, hbefore⟩
  · have hnodup := hlog.nodup_change
    rwa [List.map_reverse, List.nodup_reverse] at hnodup

namespace Handed

/-- The box that is made is used from where its allocation left it. -/
theorem solve_events_caused_handed :
    ∃ g S e, (Construction.build (plan "use") [main] .unlimited).result = .ok g ∧
      (solve {} g (hierarchy "use") .eventTracking (box "use").name .unlimited).2 = .ok S ∧
      S.events[1]? = some e ∧ e.Caused g .eventTracking ∧ e.target = Protocol.used ∧
      (∃ old, S.events[0]? = some old ∧ old.object = e.object ∧
        old.target = Protocol.created) ∧
      (S.events.map Event.change).Nodup := by
  have hbuilt : ∃ g, (Construction.build (plan "use") [main] .unlimited).result = .ok g ∧
      ((solve {} g (hierarchy "use") .eventTracking (box "use").name
        .unlimited).2.toOption.any fun S => S.events[1]?.map (fun e => (e.source, e.target)) =
          some (Protocol.created, Protocol.used)) = true :=
    Construction.exists_built_of_any 20 (by decide +kernel)
  obtain ⟨g, hg, hany⟩ := hbuilt
  obtain ⟨S, hsolve, hused⟩ := exists_ok_of_any hany
  obtain ⟨e, he, hchange⟩ := Option.map_eq_some_iff.mp hused
  obtain ⟨hcreated, htarget⟩ := Prod.mk.inj hchange
  obtain ⟨hevents, hnodup⟩ := solve_events_caused {} g (hierarchy "use") .eventTracking
    (box "use").name .unlimited S hsolve
  obtain ⟨hcause, hsource⟩ := hevents 1 e he
  rw [hcreated] at hsource
  obtain ⟨j, old, hj, hold, hobject, hbefore⟩ := hsource.resolve_left (by decide)
  obtain rfl : j = 0 := by omega
  exact ⟨g, S, e, hg, hsolve, he, hcause, htarget, ⟨old, hold, hobject, hbefore⟩, hnodup⟩

end Handed

end Typestate
end StreamVerdict
