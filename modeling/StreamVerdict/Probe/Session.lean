/-
  Sessions with a catalog.

  A session hands out objects and streams under numbers, and remembers of each whether it was
  given back.  Two counters, of the objects and of the streams that are out, go up when something
  is handed out and down when it is given back for the first time.  The session keeps a ledger of
  the calls made.  A call may be set up to fail: it is then entered in the ledger and nothing else
  happens.
-/
import StreamVerdict.Probe.Catalog

namespace StreamVerdict

/-- A kind of call that can be set up to fail. -/
inductive FaultPoint where
  | load
  | construct
  | allocate
  | invoke
  | stream
deriving DecidableEq

namespace FaultPoint

def all : List FaultPoint := [load, construct, allocate, invoke, stream]

def name : FaultPoint → String
  | load => "load"
  | construct => "construct"
  | allocate => "allocate"
  | invoke => "invoke"
  | stream => "stream"

def ofName? (s : String) : Option FaultPoint := all.find? fun p => p.name = s

end FaultPoint

/-- A kind of probe error. -/
inductive FaultKind where
  | typeNotFound
  | constructionFailed
  | invocationFailed
  | noSpliterator
  | internal
deriving DecidableEq

namespace FaultKind

def all : List FaultKind :=
  [typeNotFound, constructionFailed, invocationFailed, noSpliterator, internal]

/-- The error of a call on `type` that was set up to fail. -/
def error (k : FaultKind) (type : String) (point : FaultPoint) : ProbeError :=
  match k with
  | typeNotFound => .typeNotFound type
  | constructionFailed => .constructionFailed type "fault"
  | invocationFailed => .invocationFailed type point.name "fault"
  | noSpliterator => .noSpliterator type
  | internal => .internal "fault"

/-- The kind whose errors have the given label. -/
def ofLabel? (s : String) : Option FaultKind := all.find? fun k => (k.error "" .load).label = s

end FaultKind

/-- A type's calls of one kind fail. -/
structure Fault where
  type : String
  point : FaultPoint
  kind : FaultKind
deriving DecidableEq

/-- A call on a session. -/
inductive ProbeCall where
  | load (type : String)
  | construct (type : String)
  | allocate (type : String)
  | spliterator (object : Nat)
  | invoke (object : Nat) (method : String)
  | streamSpliterator (stream : Nat)
  | close (stream : Nat)
  | release (object : Nat)
deriving DecidableEq

def ProbeCall.text : ProbeCall → String
  | load t => "load " ++ t
  | construct t => "construct " ++ t
  | allocate t => "allocate " ++ t
  | spliterator _ => "spliterator"
  | invoke _ m => "invoke " ++ m
  | streamSpliterator _ => "stream spliterator"
  | close _ => "close"
  | release _ => "release"

/-- What a call handed out. -/
inductive Grant where
  | nothing
  | object (n : Nat)
  | stream (n : Nat)
deriving DecidableEq

/-- A call in the ledger, with what it handed out. -/
structure LedgerEntry where
  call : ProbeCall
  grant : Grant
deriving DecidableEq

/-- An object that was handed out. -/
structure ProbeObject where
  descriptor : TypeDescriptor
  released : Bool
deriving DecidableEq

/-- A stream that an object returned. -/
structure ProbeStream where
  /-- The object that returned it. -/
  owner : Nat
  type : String
  characteristics : Characteristics
  closed : Bool
deriving DecidableEq

/-- What an invoked method returned. -/
inductive Returned where
  | stream (n : Nat)
  | other (type : String)
  | void
deriving DecidableEq

def Returned.text : Returned → String
  | stream _ => "Stream(..)"
  | other t => "Other(" ++ t ++ ")"
  | void => "Void"

def ProbeObject.isLive (o : ProbeObject) : Bool := !o.released

def ProbeStream.isOpen (o : ProbeStream) : Bool := !o.closed

/-- A catalog in use. -/
structure Session where
  catalog : Catalog
  faults : List Fault
  /-- The objects handed out, known by their position. -/
  objects : List ProbeObject
  /-- The streams handed out, known by their position. -/
  streams : List ProbeStream
  /-- The counter of objects. -/
  live : Nat
  /-- The counter of streams. -/
  openStreams : Nat
  /-- The calls made, oldest first. -/
  ledger : List LedgerEntry
  live_eq : live = objects.countP ProbeObject.isLive
  openStreams_eq : openStreams = streams.countP ProbeStream.isOpen
deriving DecidableEq

namespace Session

def start (catalog : Catalog) (faults : List Fault) : Session :=
  ⟨catalog, faults, [], [], 0, 0, [], rfl, rfl⟩

/-- The error that a call on `type` is set up to fail with. -/
def fault? (s : Session) (type : String) (point : FaultPoint) : Option ProbeError :=
  (s.faults.find? fun f => f.type = type ∧ f.point = point).map fun f => f.kind.error type point

/-- Enters a call in the ledger. -/
def note (s : Session) (call : ProbeCall) (grant : Grant) : Session :=
  { s with ledger := s.ledger ++ [⟨call, grant⟩] }

/-! ### Counters -/

/-- Turning a member down lowers the count by one if it counted before. -/
theorem countP_modify {α : Type} {P : α → Bool} {f : α → α} (hf : ∀ a, P (f a) = false)
    (l : List α) (i : Nat) :
    (l.modify i f).countP P = if (l[i]?).any P then l.countP P - 1 else l.countP P := by
  induction l generalizing i with
  | nil => simp
  | cons a l ih =>
      cases i with
      | zero => cases ha : P a <;> simp [List.modify, hf, ha]
      | succ i =>
          rw [List.modify_succ_cons, List.countP_cons, List.countP_cons, ih,
            List.getElem?_cons_succ]
          cases hi : l[i]? with
          | none => rfl
          | some b =>
              cases hb : P b with
              | false => simp [hb]
              | true =>
                  have hpos : 0 < l.countP P :=
                    List.countP_pos_iff.mpr ⟨b, List.mem_of_getElem? hi, hb⟩
                  simp only [Option.any_some, hb, if_true]
                  omega

/-- Hands out an object. -/
def handObject (s : Session) (d : TypeDescriptor) : Session :=
  { s with
    objects := s.objects ++ [⟨d, false⟩]
    live := s.live + 1
    live_eq := by simp [List.countP_append, s.live_eq, ProbeObject.isLive] }

/-- Hands out a stream. -/
def handStream (s : Session) (owner : Nat) (type : String) (c : Characteristics) : Session :=
  { s with
    streams := s.streams ++ [⟨owner, type, c, false⟩]
    openStreams := s.openStreams + 1
    openStreams_eq := by simp [List.countP_append, s.openStreams_eq, ProbeStream.isOpen] }

/-- Takes an object back; one that was given back before does not count again. -/
def takeObject (s : Session) (object : Nat) : Session :=
  { s with
    objects := s.objects.modify object fun o => { o with released := true }
    live := if (s.objects[object]?).any ProbeObject.isLive then s.live - 1 else s.live
    live_eq := by
      rw [countP_modify (fun _ => rfl), ← s.live_eq] }

/-- Takes a stream back; one that was given back before does not count again. -/
def takeStream (s : Session) (stream : Nat) : Session :=
  { s with
    streams := s.streams.modify stream fun o => { o with closed := true }
    openStreams := if (s.streams[stream]?).any ProbeStream.isOpen then s.openStreams - 1
      else s.openStreams
    openStreams_eq := by
      rw [countP_modify (fun _ => rfl), ← s.openStreams_eq] }

/-! ### Calls -/

/-- What is known of a type. -/
def load (s : Session) (type : String) : Except ProbeError TypeDescriptor × Session :=
  let s' := s.note (.load type) .nothing
  match s.fault? type .load with
  | some e => (.error e, s')
  | none => (s.catalog.load type, s')

/-- Hands out an object unless the descriptor of its type refuses. -/
def make (s : Session) (call : ProbeCall) (type : String) (point : FaultPoint)
    (refusal? : TypeDescriptor → Option String) : Except ProbeError Nat × Session :=
  let refused (e : ProbeError) := (.error e, s.note call .nothing)
  match s.fault? type point with
  | some e => refused e
  | none =>
    match s.catalog.load type with
    | .error e => refused e
    | .ok d =>
      match refusal? d with
      | some reason => refused (.constructionFailed d.binaryName reason)
      | none =>
        let n := s.objects.length
        (.ok n, (s.handObject d).note call (.object n))

/-- Makes an object by its constructor without arguments. -/
def construct (s : Session) (type : String) : Except ProbeError Nat × Session :=
  s.make (.construct type) type .construct TypeDescriptor.constructRefusal?

/-- Makes an object without a constructor. -/
def allocate (s : Session) (type : String) : Except ProbeError Nat × Session :=
  s.make (.allocate type) type .allocate TypeDescriptor.allocateRefusal?

/-- The characteristics of an object's own spliterator, if it is iterable. -/
def spliterator (s : Session) (object : Nat) : Option Characteristics × Session :=
  ((s.objects[object]?).bind fun o => o.descriptor.iterable, s.note (.spliterator object) .nothing)

/-- Calls a method without arguments; a stream that it returns is handed out. -/
def invoke (s : Session) (object : Nat) (method : String) : Except ProbeError Returned × Session :=
  let call := ProbeCall.invoke object method
  let s' := s.note call .nothing
  match s.objects[object]? with
  | none => (.error (.internal "no such object"), s')
  | some o =>
    let type := o.descriptor.binaryName
    match s.fault? type .invoke with
    | some e => (.error e, s')
    | none =>
      match o.descriptor.methods.lookup method with
      | some (.stream c) =>
        let n := s.streams.length
        (.ok (.stream n), (s.handStream object type c).note call (.stream n))
      | some (.returns t) => (.ok (.other t), s')
      | some .void => (.ok .void, s')
      | some (.throws reason) => (.error (.invocationFailed type method reason), s')
      | none => (.error (.invocationFailed type method "no such method"), s')

/-- The characteristics of a stream's spliterator. -/
def streamSpliterator (s : Session) (stream : Nat) :
    Except ProbeError Characteristics × Session :=
  let s' := s.note (.streamSpliterator stream) .nothing
  match s.streams[stream]? with
  | none => (.error (.internal "no such stream"), s')
  | some o =>
    match s.fault? o.type .stream with
    | some e => (.error e, s')
    | none => (.ok o.characteristics, s')

/-- Gives a stream back. -/
def close (s : Session) (stream : Nat) : Session :=
  (s.takeStream stream).note (.close stream) .nothing

/-- Gives an object back. -/
def release (s : Session) (object : Nat) : Session :=
  (s.takeObject object).note (.release object) .nothing

end Session
end StreamVerdict
