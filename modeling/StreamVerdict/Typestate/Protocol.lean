/-
  Protocols: the life of an object as a finite automaton.

  An action is a method name, the allocation of the object, or the wildcard, which stands for
  any call.  A transition for the very action wins over one for the wildcard.
-/
import StreamVerdict.Data.OrdSet
import StreamVerdict.Failure

namespace StreamVerdict

/-- A state in the life of an object. -/
structure State where
  name : String
deriving DecidableEq

instance : Ord State := ⟨compareOn State.name⟩

instance : Std.TransOrd State := inferInstanceAs (Std.TransCmp (compareOn State.name))

/-- What may happen to an object. -/
structure Action where
  name : String
deriving DecidableEq

namespace Action

instance : Ord Action := ⟨compareOn name⟩

instance : Std.TransOrd Action := inferInstanceAs (Std.TransCmp (compareOn name))

/-- The allocation of the object. -/
def alloc : Action := ⟨"<alloc>"⟩

/-- Any call on the object. -/
def anyCall : Action := ⟨"*"⟩

def isAlloc (a : Action) : Bool := a = alloc

def isWildcard (a : Action) : Bool := a = anyCall

def text (a : Action) : String := if a.isAlloc || a.isWildcard then a.name else a.name ++ "()"

end Action

/-- A transition of a protocol. -/
structure Transition where
  source : State
  action : Action
  target : State
deriving DecidableEq

/-- What a transition is chosen by. -/
def Transition.label (t : Transition) : State × Action := (t.source, t.action)

/-- The states and transitions of an object's life. -/
structure Protocol where
  name : String
  states : OrdSet State
  initial : State
  /-- States in which an object may end. -/
  finals : OrdSet State
  transitions : List Transition
  /-- There is at most one transition for each source and action. -/
  deterministic : (transitions.map Transition.label).Nodup
deriving DecidableEq

/-- What is wrong with a protocol. -/
inductive ProtocolError where
  | undeclaredInitial (s : State)
  | undeclaredFinal (s : State)
  | undeclaredSource (s : State)
  | undeclaredTarget (s : State)
  | noTransitions (protocol : String)
deriving DecidableEq

def ProtocolError.message : ProtocolError → String
  | undeclaredInitial s => "Initial state '" ++ s.name ++ "' not in states"
  | undeclaredFinal s => "Final state '" ++ s.name ++ "' not in states"
  | undeclaredSource s => "Transition from state '" ++ s.name ++ "' not in states"
  | undeclaredTarget s => "Transition to state '" ++ s.name ++ "' not in states"
  | noTransitions p => "Protocol '" ++ p ++ "' has no transitions"

instance : Explained ProtocolError := ⟨fun _ => "Invalid", ProtocolError.message⟩

namespace Protocol

/-- A protocol without states; its initial state has yet to be declared. -/
def empty (name : String) : Protocol := ⟨name, ∅, ⟨"Initial"⟩, ∅, [], .nil⟩

def declare (p : Protocol) (s : State) : Protocol := { p with states := p.states.insert s }

/-- Takes a state out of the declared ones, and changes nothing else. -/
def undeclare (p : Protocol) (s : State) : Protocol :=
  { p with states := p.states.filter fun t => t ≠ s }

def setInitial (p : Protocol) (s : State) : Protocol := { p.declare s with initial := s }

def insertFinal (p : Protocol) (s : State) : Protocol :=
  { p.declare s with finals := p.finals.insert s }

theorem nodup_labels_cons {ts : List Transition} (h : (ts.map Transition.label).Nodup)
    (t : Transition) :
    ((t :: ts.filter fun u => u.label ≠ t.label).map Transition.label).Nodup := by
  rw [List.map_cons, List.nodup_cons]
  refine ⟨?_, h.sublist (List.filter_sublist.map _)⟩
  intro hmem
  obtain ⟨u, hu, hlabel⟩ := List.mem_map.mp hmem
  have hother : u.label ≠ t.label := by simpa using (List.mem_filter.mp hu).2
  exact hother hlabel

/-- A transition in place of an earlier one for its source and action. -/
def insertTransition (p : Protocol) (t : Transition) : Protocol :=
  { (p.declare t.source).declare t.target with
    transitions := t :: p.transitions.filter fun u => u.label ≠ t.label
    deterministic := nodup_labels_cons p.deterministic t }

/-- The target of the transition for exactly this action. -/
def labelled? (p : Protocol) (s : State) (a : Action) : Option State :=
  (p.transitions.find? fun t => t.source = s ∧ t.action = a).map Transition.target

/-- The state after an action, if the protocol says so. -/
def next? (p : Protocol) (s : State) (a : Action) : Option State :=
  match p.labelled? s a with
  | some t => some t
  | none => if a.isAlloc then none else p.labelled? s .anyCall

def isFinal (p : Protocol) (s : State) : Bool := s ∈ p.finals

/-- The actions for which a state has a transition. -/
def actions (p : Protocol) (s : State) : OrdSet Action :=
  OrdSet.ofList ((p.transitions.filter fun t => t.source = s).map Transition.action)

def transitionError? (p : Protocol) (t : Transition) : Option ProtocolError :=
  if t.source ∉ p.states then some (.undeclaredSource t.source)
  else if t.target ∉ p.states then some (.undeclaredTarget t.target)
  else none

/-- The first thing that is wrong with a protocol: undeclared states, or no transitions. -/
def error? (p : Protocol) : Option ProtocolError :=
  if p.initial ∉ p.states then some (.undeclaredInitial p.initial)
  else
    match p.finals.toList.find? fun s => s ∉ p.states with
    | some s => some (.undeclaredFinal s)
    | none =>
      match p.transitions.findSome? p.transitionError? with
      | some e => some e
      | none => if p.transitions.isEmpty then some (.noTransitions p.name) else none

/-! ### Creation and use -/

def unobserved : State := ⟨"unobserved"⟩
def created : State := ⟨"created"⟩
def used : State := ⟨"used"⟩

/-- An object is created when it is allocated and used when it is called. -/
def eventTracking : Protocol :=
  let p := (empty "EventTracking").setInitial unobserved
  let p := p.insertTransition ⟨unobserved, .alloc, created⟩
  let p := p.insertTransition ⟨created, .anyCall, used⟩
  let p := p.insertTransition ⟨used, .anyCall, used⟩
  (p.insertFinal created).insertFinal used

end Protocol
end StreamVerdict
