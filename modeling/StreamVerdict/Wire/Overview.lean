/-
  Bodies, call graphs, typestate solutions and verdicts laid out as JSON values for inspection.

  An overview is written only: it names methods, sites and abstract objects by their texts,
  and refers to nodes and objects by their positions.
-/
import StreamVerdict.Typestate.Solution
import StreamVerdict.Verdict.Analysis
import StreamVerdict.Wire.Body
import StreamVerdict.Wire.CallGraph
import StreamVerdict.Wire.Verdict

namespace StreamVerdict

open Wire

/-! ### Bodies -/

def Instruction.overview (i : Instruction) : Json :=
  .arr [ .nat i.index, encode i.line, Json.ofOption .nat i.result?, .nat i.result?.toList.length,
    Json.ofList .nat i.uses, Json.ofOption .nat i.receiver? ]

namespace Body

/-- Where the value `v` comes from: an instruction, a merge, or the null constant. -/
def sourceOverview (x : Body) (v : ValueNumber) : Json :=
  .arr [ Json.ofOption (fun i => .nat i.index) (x.definingInstruction? v),
    Json.ofOption (fun p => Json.ofList .nat p.uses) (x.phi? v), .bool (x.symbols.isNull v) ]

/-- The values of a body, and one that it does not have. -/
def probedValues (x : Body) : List ValueNumber := List.range (x.symbols.maxValue + 2)

/-- The body with its instructions, its sites and the sources of its values. -/
def overview (x : Body) : Json :=
  .obj
    [ ("ir", encode x), ("len", .nat x.symbols.size), ("max", .nat x.symbols.maxValue),
      ("instructions", Json.ofList Instruction.overview x.instructions),
      ("call_sites", Json.ofList (fun s => .text s.text) x.callSites),
      ("new_sites", Json.ofList (fun s => .text s.text) x.newSites),
      ("returns", Json.ofList .nat x.returnValues),
      ("defs", Json.ofList x.sourceOverview x.probedValues),
      ("invoke_at", Json.ofList (fun pc => Json.ofOption (fun i => .nat i.index) (x.invokeAt? pc))
        (List.range x.instructions.length)) ]

end Body

/-! ### Call graphs -/

namespace BuiltGraph

/-- The node at position `k`, with its callers and with the targets of each of its call sites. -/
def nodeOverview (g : BuiltGraph) (node : Node) (k : Nat) : Json :=
  let sites := ((g.body? k).map Body.callSites).getD []
  .obj
    [ ("method", .text node.method.signature),
      ("loader", encode node.method.declaringClass.loader),
      ("call_string", .text node.context.callString.text),
      ("receiver", Json.ofOption (fun i => .text i.text) node.context.receiver),
      ("body", .bool (g.body? k).isSome),
      ("callers", Json.ofList .nat (g.graph.callers k)),
      ("targets", Json.ofList (fun s : CallSite =>
        .arr [.nat s.programCounter, Json.ofList .nat (g.graph.targets k s)]) sites) ]

def edgeOverview (e : Edge) : Json := .arr [.nat e.caller, .text e.site.text, .nat e.callee]

/-- The values of the node at position `k` that point to something, with what they point to. -/
def cellOverviews (g : BuiltGraph) (k : Nat) : List Json :=
  (g.body? k).toList.flatMap fun body =>
    (List.range (body.symbols.maxValue + 1)).filterMap fun v =>
      let objects := (g.pointsTo.get k v).toList
      if objects.isEmpty then none
      else some (.arr [.nat k, .nat v, Json.ofList
        (fun i => .nat (g.pointsTo.instances.toList.findIdx fun x => x = i)) objects])

/-- The whole graph: nodes, edges in the order of their discovery, objects and points-to sets. -/
def overview (g : BuiltGraph) : Json :=
  let objects := g.pointsTo.instances.toList
  .obj
    [ ("depth", .nat g.depth),
      ("nodes", Json.ofList (fun p => g.nodeOverview p.1 p.2) g.graph.nodes.zipIdx),
      ("edges", Json.ofList edgeOverview g.graph.edges.reverse),
      ("entrypoints", Json.ofList .nat g.graph.entrypoints),
      ("instances", Json.ofList (fun i => .text i.text) objects),
      ("types", Json.ofList (fun i => .text i.type.binary) objects),
      ("points_to", .arr ((List.range g.graph.nodes.length).flatMap g.cellOverviews)) ]

end BuiltGraph

/-! ### Typestate solutions -/

def Event.overview (e : Event) : Json :=
  .arr [ .nat e.node, .text e.method.signature, .nat e.iindex, .text e.action.text,
    .text e.source.name, .text e.target.name ]

/-- What a solution knows about one tracked object. -/
def Solution.overviewOf (s : Solution) (x : Tracked) : Json :=
  .obj
    [ ("instance", .text x.object.text),
      ("states", Json.ofList (fun q => .text q.name) x.states.toList),
      ("used", .bool (s.mayReach x.object Protocol.used)),
      ("events", Json.ofList Event.overview (s.eventsOf x.object)) ]

/-! ### Verdicts -/

def Verdict.overview (v : Verdict) : Json :=
  .obj
    [ ("display", .text v.text), ("report", encode v.report),
      ("possible_types", encode v.possibleTypes.toList),
      ("lifecycle", encode v.lifecycle.toList),
      ("execution_mode", encode v.executionMode), ("ordering", encode v.ordering),
      ("transformable", .bool v.isTransformable),
      ("enclosing", .text v.creation.enclosing.methodRef.signature),
      ("location", .text v.creation.location.text), ("ok", .bool v.status.isOk) ]

end StreamVerdict
