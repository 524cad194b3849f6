/-
  Where method bodies come from.

  A provider answers a request with a body, with the fact that the method has none, or with the
  reason why it cannot tell.  A body that it gives for a method is one of that method; nothing
  else is asked of it.  A factory is a provider for every class hierarchy, and a store is a
  provider that holds finitely many answers.
-/
import StreamVerdict.Body.Basic
import StreamVerdict.Hierarchy.Basic

namespace StreamVerdict

/-- Whatever gives out the bodies of methods. -/
@[ext]
structure BodyProvider where
  request : MethodRef → Except BodyError (Option Body)
  /-- A body that is given for a method is one of that method. -/
  own : ∀ m b, request m = .ok (some b) → b.method = m

/-- Whatever makes the bodies of methods of a project, in view of its class hierarchy. -/
structure BodyFactory where
  make : Hierarchy → MethodRef → Except BodyError (Option Body)
  /-- A body that is made for a method is one of that method. -/
  own : ∀ h m b, make h m = .ok (some b) → b.method = m

/-- The bodies that a factory makes for one class hierarchy. -/
def BodyFactory.provider (f : BodyFactory) (h : Hierarchy) : BodyProvider := ⟨f.make h, f.own h⟩

/-- The provider for which `bodies` come before all else. -/
def BodyProvider.preferring (p : BodyProvider) (bodies : List Body) : BodyProvider where
  request m :=
    match bodies.find? fun b => b.method = m with
    | some b => .ok (some b)
    | none => p.request m
  own m b h := by
    rcases hfind : bodies.find? fun b => b.method = m with _ | found
    · rw [hfind] at h
      exact p.own m b h
    · rw [hfind] at h
      cases h
      simpa using List.find?_some hfind

/-- What a store holds for a method. -/
inductive Supply where
  | body (b : Body)
  | unavailable (method : MethodRef) (reason : String)
deriving DecidableEq

namespace Supply

def method : Supply → MethodRef
  | body b => b.method
  | unavailable m _ => m

/-- The answer to a request. -/
def answer : Supply → Except BodyError (Option Body)
  | body b => .ok (some b)
  | unavailable m reason => .error (.unavailable m reason)

end Supply

/-- A finite supply of bodies; of two entries for a method the earlier counts. -/
structure BodyStore where
  supplies : List Supply
deriving DecidableEq

namespace BodyStore

def empty : BodyStore := ⟨[]⟩

/-- What the store says about a method; a method that is not listed has no body. -/
def request (s : BodyStore) (m : MethodRef) : Except BodyError (Option Body) :=
  match s.supplies.find? fun x => x.method = m with
  | some x => x.answer
  | none => .ok none

/-- A body in place of an earlier one of the same method. -/
def insert (s : BodyStore) (b : Body) : BodyStore :=
  let isOld : Supply → Bool
    | .body old => old.method = b.method
    | .unavailable _ _ => false
  ⟨s.supplies.filter (fun x => !isOld x) ++ [.body b]⟩

/-- The store that cannot tell about a method, for a reason that replaces earlier ones. -/
def withhold (s : BodyStore) (m : MethodRef) (reason : String) : BodyStore :=
  ⟨.unavailable m reason :: s.supplies⟩

/-- A store answers with a body of the method that it is asked for. -/
theorem method_of_request {s : BodyStore} {m : MethodRef} {b : Body}
    (h : s.request m = .ok (some b)) : b.method = m := by
  rw [request] at h
  rcases hfind : s.supplies.find? fun x => x.method = m with _ | x
  · simp [hfind] at h
  · simp only [hfind] at h
    have hm : x.method = m := by simpa using List.find?_some hfind
    cases x with
    | body c =>
      cases h
      exact hm
    | unavailable m' reason => cases h

/-- The store as a provider. -/
def provider (s : BodyStore) : BodyProvider := ⟨s.request, fun _ _ => method_of_request⟩

/-- The store as a factory that does not look at class hierarchies. -/
def factory (s : BodyStore) : BodyFactory := ⟨fun _ => s.request, fun _ _ _ => method_of_request⟩

/-- What an answer means for a method that has to have a body. -/
def demand (m : MethodRef) : Except BodyError (Option Body) → Except AnalysisError Body
  | .ok (some b) => .ok b
  | .ok none =>
    .error { kind := .bodyConstruction, message := "IR is null for " ++ m.signature }
  | .error e => .error e.toAnalysisError

end BodyStore

/-- The body of a method that has to have one. -/
def BodyProvider.bodyOf (p : BodyProvider) (m : MethodRef) : Except AnalysisError Body :=
  BodyStore.demand m (p.request m)

end StreamVerdict
