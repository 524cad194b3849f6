/-
  What was built for projects, kept for reuse.

  Class hierarchies, method bodies and call graphs are kept by project.  A look-up that finds
  nothing asks the source and keeps what it gives; failures and methods without a body are
  not kept.  The counters tell hits, misses and builds, and how often the sources were asked.
-/
import StreamVerdict.Cache.Metrics
import StreamVerdict.CallGraph.Library

namespace StreamVerdict

/-- What is kept for projects. -/
structure Caches where
  hierarchies : List (ProjectId × Hierarchy) := []
  bodies : List ((ProjectId × MethodRef) × Body) := []
  libraries : List (ProjectId × GraphLibrary) := []
  metrics : Metrics := {}
  /-- How often a source was asked for a hierarchy. -/
  scopeRequests : Nat := 0
  /-- How often a source was asked for a body. -/
  bodyRequests : Nat := 0
deriving DecidableEq

/-- The sizes and counters of caches. -/
structure CacheStats where
  hierarchies : Nat
  bodies : Nat
  libraries : Nat
  metrics : Metrics
deriving DecidableEq

namespace Caches

def empty : Caches := {}

def count (c : Caches) (e : CacheEvent) : Caches := { c with metrics := c.metrics.count e 1 }

def stats (c : Caches) : CacheStats :=
  ⟨c.hierarchies.length, c.bodies.length, c.libraries.length, c.metrics⟩

/-- Forgets everything but the counters. -/
def clear (c : Caches) : Caches :=
  { c with hierarchies := [], bodies := [], libraries := [] }.count .clear

/-! ### Look-ups

A look-up works with any source, whatever it answers. -/

/-- What is said about a project's class hierarchy. -/
abbrev HierarchySource := ProjectId → Except HierarchyError Hierarchy

/-- What is said about a method's body. -/
abbrev BodySource := MethodRef → Except BodyError (Option Body)

/-- The class hierarchy of a project.  The source is asked if none is kept. -/
def hierarchyFrom (c : Caches) (source : HierarchySource) (p : ProjectId) :
    Except HierarchyError Hierarchy × Caches :=
  match c.hierarchies.lookup p with
  | some h => (.ok h, c.count .hit)
  | none =>
    let c := { c.count .miss with scopeRequests := c.scopeRequests + 1 }
    match source p with
    | .error e => (.error e, c)
    | .ok h => (.ok h, { c with hierarchies := (p, h) :: c.hierarchies }.count .build)

/-- Keeps a body that was built, under its own method.  If a body is kept there already, that one
    stays, and is the one to be used. -/
def keepBody (c : Caches) (p : ProjectId) (b : Body) : Body × Caches :=
  match c.bodies.lookup (p, b.method) with
  | some kept => (kept, c.count .build)
  | none => (b, { c with bodies := ((p, b.method), b) :: c.bodies }.count .build)

/-- The body of a method, which may have none.  The source is asked if none is kept. -/
def bodyFrom? (c : Caches) (source : BodySource) (p : ProjectId) (m : MethodRef) :
    Except BodyError (Option Body) × Caches :=
  match c.bodies.lookup (p, m) with
  | some b => (.ok (some b), c.count .hit)
  | none =>
    let c := { c.count .miss with bodyRequests := c.bodyRequests + 1 }
    match source m with
    | .error e => (.error e, c)
    | .ok none => (.ok none, c)
    | .ok (some b) => ((c.keepBody p b).map (fun kept => .ok (some kept)) id)

/-- The body of a method that has to have one. -/
def bodyFrom (c : Caches) (source : BodySource) (p : ProjectId) (m : MethodRef) :
    Except AnalysisError Body × Caches :=
  (c.bodyFrom? source p m).map (BodyStore.demand m) id

/-- The call graphs of a project. -/
def library (c : Caches) (p : ProjectId) : GraphLibrary × Caches :=
  match c.libraries.lookup p with
  | some l => (l, c.count .hit)
  | none =>
    let l := GraphLibrary.empty p
    (l, { c with libraries := (p, l) :: c.libraries }.count .miss)

/-- Call graphs in place of those that are kept. -/
def keepLibrary (c : Caches) (p : ProjectId) (l : GraphLibrary) : Caches :=
  { c with libraries := (p, l) :: c.libraries.filter fun e => e.1 ≠ p }

/-- The bodies that are kept for a project. -/
def bodiesOf (c : Caches) (p : ProjectId) : List Body :=
  (c.bodies.filter fun e => e.1.1 = p).map Prod.snd

/-- Asks for bodies one after the other. -/
def requestAll (c : Caches) (source : BodySource) (p : ProjectId) (ms : List MethodRef) : Caches :=
  ms.foldl (fun c m => (c.bodyFrom? source p m).2) c

/-- The call graph of entry points of a project, built from kept bodies where possible. -/
def graph (c : Caches) (provider : BodyProvider) (h : Hierarchy) (p : ProjectId)
    (entrypoints : List MethodRef) (depth : Nat) (monitor : Monitor) :
    Construction.Outcome × Caches :=
  let (l, c) := c.library p
  let plan : Construction.Plan := ⟨h, provider.preferring (c.bodiesOf p), depth⟩
  let (outcome, l) := l.request plan entrypoints monitor
  (outcome, (c.keepLibrary p l).requestAll provider.request p outcome.requests)

end Caches
end StreamVerdict
