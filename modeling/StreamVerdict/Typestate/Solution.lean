/-
  The states that objects may reach, and the events that take them there.
-/
import StreamVerdict.CallGraph.Context
import StreamVerdict.Typestate.Protocol

namespace StreamVerdict

/-- A change of state of an object at an instruction of a node. -/
structure Event where
  object : Instance
  node : Nat
  method : MethodRef
  /-- The position of the instruction. -/
  iindex : Nat
  action : Action
  source : State
  target : State
deriving DecidableEq

/-- The place of an event and its two states: what tells the events of one object apart. -/
def Event.mark (e : Event) : Nat × Nat × State × State := (e.node, e.iindex, e.source, e.target)

/-- The states that an object may be in. -/
structure Tracked where
  object : Instance
  states : OrdSet State
deriving DecidableEq

/-- What is known about the objects of a type. -/
structure Solution where
  protocol : String
  /-- The objects in ascending order. -/
  tracked : List Tracked
  /-- The events in the order of their discovery. -/
  events : List Event
deriving DecidableEq

namespace Solution

def statesOf (s : Solution) (i : Instance) : OrdSet State :=
  ((s.tracked.find? fun t => t.object = i).map Tracked.states).getD ∅

def mayReach (s : Solution) (i : Instance) (state : State) : Bool := state ∈ s.statesOf i

def eventsOf (s : Solution) (i : Instance) : List Event := s.events.filter fun e => e.object = i

end Solution
end StreamVerdict
