/-
  Protocols as total functions on states.

  A state for which a protocol has no transition stays.  So an action leads from a state to
  itself or to the target of a transition, and in a protocol without errors it never leads out
  of the declared states.
-/
import StreamVerdict.Proofs.Data.OrdSet
import StreamVerdict.Proofs.Data.Order
import StreamVerdict.Typestate.Protocol

namespace StreamVerdict
namespace Protocol

/-- The state after an action, which is the same if there is no transition. -/
def after (p : Protocol) (a : Action) (q : State) : State := (p.next? q a).getD q

/-- The states that an object can get into: the initial one and the targets of transitions. -/
def attainable (p : Protocol) : List State := p.initial :: p.transitions.map Transition.target

theorem labelled?_mem {p : Protocol} {q t : State} {a : Action} (h : p.labelled? q a = some t) :
    t ∈ p.transitions.map Transition.target := by
  obtain ⟨u, hu, rfl⟩ := Option.map_eq_some_iff.mp h
  exact List.mem_map_of_mem (List.mem_of_find?_eq_some hu)

theorem next?_mem {p : Protocol} {q t : State} {a : Action} (h : p.next? q a = some t) :
    t ∈ p.transitions.map Transition.target := by
  rw [next?] at h
  rcases hlabel : p.labelled? q a with _ | u
  · simp only [hlabel] at h
    by_cases halloc : a.isAlloc = true
    · rw [if_pos halloc] at h
      cases h
    · rw [if_neg halloc] at h
      exact labelled?_mem h
  · simp only [hlabel] at h
    cases h
    exact labelled?_mem hlabel

theorem initial_mem_attainable (p : Protocol) : p.initial ∈ p.attainable := List.mem_cons_self

theorem after_mem_attainable {p : Protocol} {q : State} (a : Action) (h : q ∈ p.attainable) :
    p.after a q ∈ p.attainable := by
  rw [after]
  rcases hnext : p.next? q a with _ | t
  · exact h
  · exact List.mem_cons_of_mem _ (next?_mem hnext)

theorem target_declared {p : Protocol} {t : Transition} (h : p.transitionError? t = none) :
    t.target ∈ p.states := by
  rw [transitionError?] at h
  by_cases hsource : t.source ∉ p.states
  · rw [if_pos hsource] at h
    cases h
  · rw [if_neg hsource] at h
    by_cases htarget : t.target ∈ p.states
    · exact htarget
    · rw [if_pos htarget] at h
      cases h

/-- In a protocol without errors every attainable state is declared. -/
theorem attainable_declared {p : Protocol} (h : p.error? = none) {q : State}
    (hq : q ∈ p.attainable) : q ∈ p.states := by
  rw [error?] at h
  by_cases hinitial : p.initial ∉ p.states
  · rw [if_pos hinitial] at h
    cases h
  · rw [if_neg hinitial] at h
    rcases hfinal : p.finals.toList.find? fun s => s ∉ p.states with _ | s
    · simp only [hfinal] at h
      rcases htrans : p.transitions.findSome? p.transitionError? with _ | e
      · rcases List.mem_cons.mp hq with rfl | htarget
        · exact Decidable.not_not.mp hinitial
        · obtain ⟨t, ht, rfl⟩ := List.mem_map.mp htarget
          exact target_declared (List.findSome?_eq_none_iff.mp htrans t ht)
      · simp [htrans] at h
    · simp only [hfinal, reduceCtorEq] at h

end Protocol
end StreamVerdict
