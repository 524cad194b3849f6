/-
  The analysis of a stream.

  First the creation is found in the body of the enclosing method.  Its source's possible
  types give the order of the stream.  Then the life of the objects that were created there
  is followed through the call graph.  What the analysed program lacks becomes a finding; any
  other failure ends the analysis.
-/
import StreamVerdict.Body.Creation
import StreamVerdict.Cache.Basic
import StreamVerdict.Ordering.Inference
import StreamVerdict.Settings.Basic
import StreamVerdict.StaticType.Inference
import StreamVerdict.Verdict.Report

namespace StreamVerdict

/-- What is known about a stream after its analysis. -/
structure Verdict where
  creation : CreationSite
  executionMode : ExecutionMode
  ordering : SourceOrder
  status : Status
  /-- The possible types of the source. -/
  possibleTypes : OrdSet StaticType
  /-- The states that the stream may reach. -/
  lifecycle : OrdSet State
deriving DecidableEq

namespace Verdict

/-- The stream may be changed: its order is known and no error was found. -/
def isTransformable (v : Verdict) : Bool := v.ordering.isKnown && !v.status.hasError

def text (v : Verdict) : String :=
  "Stream [creation=" ++ v.creation.text ++
    ", enclosing=" ++ v.creation.enclosing.binding.identifier ++
    ", execution_mode=" ++ v.executionMode.name ++ ", ordering=" ++ v.ordering.name ++
    ", findings=" ++ toString v.status.findings.length ++ "]"

def report (v : Verdict) : Report :=
  let enclosing := v.creation.enclosing.binding
  { creation := v.creation.text
    filePath := v.creation.filePath
    line := v.creation.span.startLine
    enclosingMethod := enclosing.declaringType.qualifiedName ++ "." ++ enclosing.identifier
    executionMode := v.executionMode
    ordering := v.ordering
    severity := v.status.severity
    transformable := v.isTransformable
    lifecycle := v.lifecycle.toList.map State.name
    findings := v.status.findings }

end Verdict

namespace Analysis

/-- What analyses work from: whatever tells the scopes of projects and makes the bodies of their
    methods. -/
structure Context where
  scopes : ScopeSource
  factory : BodyFactory
  settings : Settings

/-- What analyses use up or leave behind. -/
structure Resources (σ : Type) where
  caches : Caches
  /-- What answers probes, if there is anything. -/
  probing : Option (SourceOrder.Probing σ)
  monitor : Monitor

variable {σ : Type}

/-! ### Finding the creation -/

/-- A creation in the body of its enclosing method. -/
structure Located where
  hierarchy : Hierarchy
  body : Body
  creation : Creation

/-- Finds the creation of a site. -/
def locate (ctx : Context) (site : CreationSite) (c : Caches) :
    Except AnalysisError Located × Caches :=
  match c.hierarchyFrom ctx.scopes.hierarchy site.project with
  | (.error e, c) => (.error e.toAnalysisError, c)
  | (.ok h, c) =>
    match c.bodyFrom (ctx.factory.make h) site.project site.enclosing.methodRef with
    | (.error e, c) => (.error e, c)
    | (.ok b, c) =>
      match Creation.find b site with
      | .error e => (.error e, c)
      | .ok creation => (.ok ⟨h, b, creation⟩, c)

/-! ### The order of the source -/

/-- The possible types of the source; a static factory has none. -/
def possibleTypes (site : CreationSite) (l : Located) : Except AnalysisError (OrdSet StaticType) :=
  if site.isStatic then .ok ∅
  else
    match l.creation.receiver? with
    | some v => StaticType.resolve l.hierarchy l.body v
    | none =>
      .error
        { kind := .bodyConstruction
          message := "Creation " ++ site.text ++ " has no receiver"
          location := some site.location }

/-- The order of the source, by probes if something answers them and they are wanted. -/
def inferOrder (ctx : Context) (site : CreationSite) (types : OrdSet StaticType)
    (probing : Option (SourceOrder.Probing σ)) :
    Except (Failure OrderingError) SourceOrder × Option (SourceOrder.Probing σ) :=
  match probing with
  | some p =>
    if ctx.settings.probe.enabled then
      let (r, state) := SourceOrder.infer site types (p.probe site.method.name) p.state
      (r, some { p with state })
    else SourceOrder.infer site types SourceOrder.noProbe (some p)
  | none => SourceOrder.infer site types SourceOrder.noProbe none

/-- The order of the source, or a finding why it is not known. -/
def settleOrder (site : CreationSite) :
    Except (Failure OrderingError) SourceOrder → Except AnalysisError (SourceOrder × List Finding)
  | .ok o => .ok (o, [])
  | .error (.precondition e) => .ok (.unknown, [Finding.ofOrdering site e])
  | .error (.fatal e) => .error e

/-! ### The life of the stream -/

/-- The states of the objects that were created through the creation's call, and a finding if
    that could not be told of some object. -/
def matchObjects (site : CreationSite) (creation : Creation) (g : BuiltGraph) (s : Solution) :
    OrdSet State × List Finding :=
  let verdictOf (t : Tracked) :=
    g.createdThrough g.depth t.object creation.callSite site.enclosing.methodRef
  let matched := s.tracked.filter fun t =>
    match verdictOf t with
    | .ok b => b
    | .error _ => false
  let failure? := s.tracked.findSome? fun t =>
    match verdictOf t with
    | .ok _ => none
    | .error e => some e
  (OrdSet.ofList (matched.flatMap fun t => t.states.toList),
    (failure?.map (Finding.ofMatch site)).toList)

/-- Follows the objects of the result type, from the enclosing method as entry point. -/
def followLife (ctx : Context) (site : CreationSite) (l : Located) (c : Caches) (m : Monitor) :
    Except AnalysisError (OrdSet State × List Finding) × Caches × Monitor :=
  let (outcome, c) := c.graph (ctx.factory.provider l.hierarchy) l.hierarchy site.project
    [site.enclosing.methodRef] ctx.settings.contextDepth.toNat m
  match outcome.result with
  | .error e => (.error e.toAnalysisError, c, outcome.monitor)
  | .ok g =>
    match Typestate.solve ctx.settings.typestate g l.hierarchy Protocol.eventTracking
        site.resultType.typeName outcome.monitor with
    | (m, .error e) => (.error e.toAnalysisError, c, m)
    | (m, .ok s) => (.ok (matchObjects site l.creation g s), c, m)

/-- The life of the stream if it is wanted. -/
def lifecycle (ctx : Context) (site : CreationSite) (l : Located) (c : Caches) (m : Monitor) :
    Except AnalysisError (OrdSet State × List Finding) × Caches × Monitor :=
  if ctx.settings.runTypestate then followLife ctx site l c m else (.ok (∅, []), c, m)

/-! ### The whole analysis -/

/-- Analyses a stream whose creation was found. -/
def analyzeLocated (ctx : Context) (site : CreationSite) (l : Located) (r : Resources σ) :
    Except AnalysisError Verdict × Resources σ :=
  match possibleTypes site l with
  | .error e => (.error e, r)
  | .ok types =>
    let (inferred, probing) := inferOrder ctx site types r.probing
    let r := { r with probing }
    match settleOrder site inferred with
    | .error e => (.error e, r)
    | .ok (ordering, findings) =>
      let (life, caches, monitor) := lifecycle ctx site l r.caches r.monitor
      let r := { r with caches, monitor }
      match life with
      | .error e => (.error e, r)
      | .ok (states, more) =>
        (.ok
          { creation := site
            executionMode := ExecutionMode.ofCreation site.method
            ordering
            status := ⟨findings ++ more⟩
            possibleTypes := types
            lifecycle := states },
          r)

/-- Analyses the stream that a site creates. -/
def analyze (ctx : Context) (site : CreationSite) (r : Resources σ) :
    Except AnalysisError Verdict × Resources σ :=
  match ctx.settings.error? with
  | some e => (.error e.toAnalysisError, r)
  | none =>
    match locate ctx site r.caches with
    | (.error e, caches) => (.error e, { r with caches })
    | (.ok l, caches) => analyzeLocated ctx site l { r with caches }

end Analysis
end StreamVerdict
