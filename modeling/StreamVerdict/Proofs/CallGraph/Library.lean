/-
  What a library of call graphs answers after any requests.

  A history is any sequence of requests to one library, each with entry points, a depth, a source
  of constructions and a monitor of its own.  The first construction that succeeds for a set of
  entry points at a depth decides the answers to all later requests for them; how the set is listed
  does not matter, as the key under which a graph is kept is sorted and has no repetitions.
-/
import Mathlib.Data.Finset.Card
import Mathlib.Data.List.Induction
import StreamVerdict.CallGraph.Library
import StreamVerdict.Proofs.Data.OrdSet
import StreamVerdict.Proofs.Data.Order
import StreamVerdict.Proofs.Data.Fold

namespace StreamVerdict
namespace GraphLibrary

open Construction (Outcome)

/-! ### Requests -/

/-- A request for a graph, from any source. -/
structure Request where
  source : Source
  entrypoints : List MethodRef
  depth : Nat
  monitor : Monitor

namespace Request

/-- What is asked for: a set of entry points, and a depth. -/
def target (r : Request) : Finset MethodRef × Nat := (r.entrypoints.toFinset, r.depth)

abbrev key (r : Request) : GraphKey := GraphLibrary.key r.entrypoints r.depth

/-- What a construction for the request comes to. -/
abbrev construct (r : Request) : Outcome := r.source r.key.entrypoints.toList r.monitor

end Request

/-- What is kept under a key. -/
def keyTarget (k : GraphKey) : Finset MethodRef × Nat := (k.entrypoints.toList.toFinset, k.depth)

theorem keyTarget_key (r : Request) : keyTarget r.key = r.target := by
  have hset : (OrdSet.ofList r.entrypoints).toList.toFinset = r.entrypoints.toFinset := by
    ext m
    rw [List.mem_toFinset, List.mem_toFinset]
    exact OrdSet.mem_ofList
  exact congrArg (fun s => (s, r.depth)) hset

/-- Two requests have one key iff they ask for the same set at the same depth. -/
theorem key_eq_iff {r r' : Request} : r.key = r'.key ↔ r.target = r'.target := by
  constructor
  · intro hkey
    rw [← keyTarget_key, hkey, keyTarget_key]
  · intro htarget
    obtain ⟨hset, hdepth⟩ := Prod.mk.inj htarget
    have hentrypoints : OrdSet.ofList r.entrypoints = OrdSet.ofList r'.entrypoints := by
      apply OrdSet.ext
      intro m
      rw [OrdSet.mem_ofList, OrdSet.mem_ofList, ← List.mem_toFinset, hset, List.mem_toFinset]
    exact congrArg₂ GraphKey.mk hentrypoints hdepth

/-- A request for a graph that a plan constructs. -/
def Request.ofPlan (plan : Construction.Plan) (entrypoints : List MethodRef) (monitor : Monitor) :
    Request :=
  ⟨Construction.build plan, entrypoints, plan.depth, monitor⟩

/-- Serves one request. -/
def serve (l : GraphLibrary) (r : Request) : Outcome × GraphLibrary :=
  l.requestFrom r.source r.entrypoints r.depth r.monitor

/-- The entry that a request is answered from, if one is kept. -/
def stored? (l : GraphLibrary) (r : Request) : Option (GraphKey × BuiltGraph) :=
  l.graphs.find? fun e => e.1 = r.key

section Serving

variable {l : GraphLibrary} {r : Request} {g : BuiltGraph}

theorem serve_ofPlan (l : GraphLibrary) (plan : Construction.Plan) (entrypoints : List MethodRef)
    (monitor : Monitor) :
    l.serve (.ofPlan plan entrypoints monitor) = l.request plan entrypoints monitor := rfl

theorem lookup_key (l : GraphLibrary) (r : Request) :
    l.graphs.lookup r.key = (l.stored? r).map Prod.snd := by
  rw [stored?]
  induction l.graphs with
  | nil => rfl
  | cons e es ih =>
      by_cases he : e.1 = r.key
      · rw [List.find?_cons_of_pos (by simpa using he), ← he]
        exact List.lookup_cons_self
      · rw [List.find?_cons_of_neg (by simpa using he), ← ih]
        exact lookup_cons_of_ne fun heq => he heq.symm

/-- A graph that is kept is given out, and nothing else happens. -/
theorem serve_kept (h : l.graphs.lookup r.key = some g) :
    l.serve r = (⟨.ok g, r.monitor, []⟩, l) := by
  simp only [serve, requestFrom, h]

/-- A construction that fails is the answer, and nothing is kept. -/
theorem serve_failed {e : CallGraphError} (h : l.graphs.lookup r.key = none)
    (hresult : r.construct.result = .error e) : l.serve r = (r.construct, l) := by
  simp only [serve, requestFrom, h, hresult]

/-- A graph that was constructed is given out and kept. -/
theorem serve_built (h : l.graphs.lookup r.key = none) (hresult : r.construct.result = .ok g) :
    l.serve r = (r.construct,
      { l with graphs := (r.key, g) :: l.graphs, builds := l.builds + 1 }) := by
  simp only [serve, requestFrom, h, hresult]

/-- A request that fails leaves the library as it is. -/
theorem serve_of_error {e : CallGraphError} (h : (l.serve r).1.result = .error e) :
    (l.serve r).2 = l := by
  rcases hlookup : l.graphs.lookup r.key with _ | g
  · rcases hresult : r.construct.result with e' | g
    · rw [serve_failed hlookup hresult]
    · rw [serve_built hlookup hresult, hresult] at h
      cases h
  · rw [serve_kept hlookup]

end Serving

/-! ### Histories -/

/-- A library, and the requests that were made to it with their answers, oldest first. -/
structure History where
  library : GraphLibrary
  answers : List (Request × Outcome)

namespace History

variable {h : History} {r : Request} {g : BuiltGraph}

/-- The history with one more request. -/
def serve (h : History) (r : Request) : History where
  library := (h.library.serve r).2
  answers := h.answers ++ [(r, (h.library.serve r).1)]

/-- The history of requests to the library of a project, which is empty at first. -/
def of (p : ProjectId) (rs : List Request) : History := rs.foldl serve ⟨empty p, []⟩

theorem of_append (p : ProjectId) (rs : List Request) (r : Request) :
    of p (rs ++ [r]) = (of p rs).serve r := by
  rw [of, List.foldl_append]
  rfl

/-- The sets of entry points, with depths, for which a graph was given out. -/
def served (h : History) : Finset (Finset MethodRef × Nat) :=
  ((h.answers.filter fun a => a.2.result.isOk).map fun a => a.1.target).toFinset

theorem mem_served {t : Finset MethodRef × Nat} :
    t ∈ h.served ↔ ∃ r o g, (r, o) ∈ h.answers ∧ o.result = .ok g ∧ r.target = t := by
  rw [served, List.mem_toFinset, List.mem_map]
  constructor
  · rintro ⟨⟨r, o⟩, hmem, rfl⟩
    obtain ⟨hanswer, hok⟩ := List.mem_filter.mp hmem
    rcases hresult : o.result with e | g
    · simp [hresult, Except.isOk, Except.toBool] at hok
    · exact ⟨r, o, g, hanswer, hresult, rfl⟩
  · rintro ⟨r, o, g, hanswer, hresult, rfl⟩
    refine ⟨(r, o), List.mem_filter.mpr ⟨hanswer, ?_⟩, rfl⟩
    simp [hresult, Except.isOk, Except.toBool]

/-- Every graph that was given out is kept under its key, every graph that is kept was constructed
    for a request, no key is there twice, and constructions are counted. -/
structure Sound (h : History) : Prop where
  given : ∀ r o g, (r, o) ∈ h.answers → o.result = .ok g →
    h.library.graphs.lookup r.key = some g
  built : ∀ k g, (k, g) ∈ h.library.graphs →
    ∃ r, (r, r.construct) ∈ h.answers ∧ r.key = k ∧ r.construct.result = .ok g
  keys : (h.library.graphs.map Prod.fst).Nodup
  builds : h.library.builds = h.library.graphs.length

namespace Sound

theorem empty (p : ProjectId) : Sound ⟨GraphLibrary.empty p, []⟩ where
  given := by
    intro r o g hmem
    cases hmem
  built := by
    intro k g hmem
    cases hmem
  keys := List.nodup_nil
  builds := rfl

/-- A request that leaves the library alone, and is answered with what is kept or not at all. -/
theorem serve_same (hs : h.Sound) (hlibrary : (h.library.serve r).2 = h.library)
    (hanswer : ∀ g, (h.library.serve r).1.result = .ok g →
      h.library.graphs.lookup r.key = some g) :
    (h.serve r).Sound where
  given := by
    intro r' o g hmem hresult
    show (h.library.serve r).2.graphs.lookup r'.key = some g
    rw [hlibrary]
    rcases List.mem_append.mp hmem with hold | hnew
    · exact hs.given r' o g hold hresult
    · obtain ⟨rfl, rfl⟩ := Prod.mk.inj (List.mem_singleton.mp hnew)
      exact hanswer g hresult
  built := by
    intro k g hmem
    have hold : (k, g) ∈ h.library.graphs := hlibrary ▸ hmem
    obtain ⟨r', hanswered, hkey, hresult⟩ := hs.built k g hold
    exact ⟨r', List.mem_append_left _ hanswered, hkey, hresult⟩
  keys := by
    show ((h.library.serve r).2.graphs.map Prod.fst).Nodup
    rw [hlibrary]
    exact hs.keys
  builds := by
    show (h.library.serve r).2.builds = (h.library.serve r).2.graphs.length
    rw [hlibrary]
    exact hs.builds

/-- A request for which a graph is constructed. -/
theorem serve_new (hs : h.Sound) (hlookup : h.library.graphs.lookup r.key = none)
    (hresult : r.construct.result = .ok g) : (h.serve r).Sound := by
  have hserve := serve_built hlookup hresult
  have hgraphs : (h.serve r).library.graphs = (r.key, g) :: h.library.graphs :=
    congrArg (fun x => x.2.graphs) hserve
  have hbuilds : (h.serve r).library.builds = h.library.builds + 1 :=
    congrArg (fun x => x.2.builds) hserve
  have hanswers : (h.serve r).answers = h.answers ++ [(r, r.construct)] :=
    congrArg (fun x => h.answers ++ [(r, x.1)]) hserve
  refine ⟨?_, ?_, ?_, ?_⟩
  · intro r' o g' hmem hok
    rw [hgraphs]
    rw [hanswers] at hmem
    rcases List.mem_append.mp hmem with hold | hnew
    · -- An earlier request that succeeded was for another key.
      have hkept := hs.given r' o g' hold hok
      have hne : r'.key ≠ r.key := by
        intro heq
        rw [heq, hlookup] at hkept
        cases hkept
      rw [lookup_cons_of_ne hne, hkept]
    · obtain ⟨rfl, rfl⟩ := Prod.mk.inj (List.mem_singleton.mp hnew)
      rw [hresult] at hok
      cases hok
      exact List.lookup_cons_self
  · intro k g' hmem
    rw [hgraphs] at hmem
    rw [hanswers]
    rcases List.mem_cons.mp hmem with hnew | hold
    · obtain ⟨rfl, rfl⟩ := Prod.mk.inj hnew
      exact ⟨r, List.mem_append_right _ List.mem_cons_self, rfl, hresult⟩
    · obtain ⟨r', hanswered, hkey, hok⟩ := hs.built k g' hold
      exact ⟨r', List.mem_append_left _ hanswered, hkey, hok⟩
  · rw [hgraphs, List.map_cons, List.nodup_cons]
    exact ⟨notMem_keys_of_lookup hlookup, hs.keys⟩
  · rw [hgraphs, hbuilds, hs.builds, List.length_cons]

theorem serve (hs : h.Sound) (r : Request) : (h.serve r).Sound := by
  rcases hlookup : h.library.graphs.lookup r.key with _ | g
  · rcases hresult : r.construct.result with e | g
    · have hserve := serve_failed hlookup hresult
      apply hs.serve_same (congrArg Prod.snd hserve)
      intro g hok
      rw [hserve, hresult] at hok
      cases hok
    · exact hs.serve_new hlookup hresult
  · have hserve := serve_kept hlookup
    apply hs.serve_same (congrArg Prod.snd hserve)
    intro g' hok
    rw [hserve] at hok
    cases hok
    exact hlookup

theorem of (p : ProjectId) (rs : List Request) : (History.of p rs).Sound := by
  induction rs using List.reverseRecOn with
  | nil => exact empty p
  | append_singleton rs r ih =>
      rw [of_append]
      exact ih.serve r

/-- There are as many graphs as there are sets of entry points, with depths, that had success. -/
theorem card_served (hs : h.Sound) : h.library.graphs.length = h.served.card := by
  have hserved : h.served = ((h.library.graphs.map Prod.fst).map keyTarget).toFinset := by
    ext t
    rw [mem_served, List.mem_toFinset, List.mem_map]
    constructor
    · rintro ⟨r, o, g, hanswer, hresult, rfl⟩
      have hentry := mem_of_lookup (hs.given r o g hanswer hresult)
      exact ⟨r.key, List.mem_map.mpr ⟨_, hentry, rfl⟩, keyTarget_key r⟩
    · rintro ⟨k, hk, rfl⟩
      obtain ⟨⟨k, g⟩, hentry, rfl⟩ := List.mem_map.mp hk
      obtain ⟨r, hanswer, rfl, hresult⟩ := hs.built k g hentry
      exact ⟨r, r.construct, g, hanswer, hresult, (keyTarget_key r).symm⟩
  -- Keys of requests differ in what they stand for.
  have hdistinct : ((h.library.graphs.map Prod.fst).map keyTarget).Nodup := by
    refine List.Nodup.map_on ?_ hs.keys
    intro k hk k' hk' heq
    obtain ⟨⟨k, g⟩, hentry, rfl⟩ := List.mem_map.mp hk
    obtain ⟨⟨k', g'⟩, hentry', rfl⟩ := List.mem_map.mp hk'
    obtain ⟨r, -, rfl, -⟩ := hs.built k g hentry
    obtain ⟨r', -, rfl, -⟩ := hs.built k' g' hentry'
    rw [keyTarget_key, keyTarget_key] at heq
    exact key_eq_iff.mpr heq
  rw [hserved, List.toFinset_card_of_nodup hdistinct, List.length_map, List.length_map]

end Sound

/-- What a library does after any requests.  A graph that was given out for a set of entry points at
    a depth is given out to every later request for them, however the set is listed and whatever
    the source and the monitor of that request say, and the request changes nothing.  An entry that
    is kept answers the requests for one set at one depth, and holds what was constructed for an
    earlier one of them; a request without an entry is answered with a construction of its own.  A
    request that fails changes nothing.  The constructions that were counted, the graphs that are
    kept and the sets of entry points, with depths, that had success are equally many. -/
theorem serve_of_past (p : ProjectId) (past : List Request) :
    (∀ r o g, (r, o) ∈ (of p past).answers → o.result = .ok g →
      ∀ r' : Request, r'.target = r.target →
        (of p past).library.serve r' = (⟨.ok g, r'.monitor, []⟩, (of p past).library)) ∧
    (∀ r e, (of p past).library.stored? r = some e →
      ((of p past).library.serve r).1.result = .ok e.2 ∧
      (∃ first, (first, first.construct) ∈ (of p past).answers ∧ first.target = r.target ∧
        first.construct.result = .ok e.2) ∧
      ∀ later r', (of p (past ++ later)).library.stored? r' = some e → r'.target = r.target) ∧
    (∀ r, (of p past).library.stored? r = none →
      ((of p past).library.serve r).1 = r.construct) ∧
    (∀ r e, ((of p past).library.serve r).1.result = .error e →
      ((of p past).library.serve r).2 = (of p past).library) ∧
    (of p past).library.builds = (of p past).library.graphs.length ∧
    (of p past).library.graphs.length = (of p past).served.card := by
  have hs := Sound.of p past
  refine ⟨?_, ?_, ?_, ?_, hs.builds, hs.card_served⟩
  · intro r o g hanswer hresult r' htarget
    apply serve_kept
    rw [key_eq_iff.mpr htarget]
    exact hs.given r o g hanswer hresult
  · intro r e hstored
    have hkey : e.1 = r.key := by simpa using List.find?_some hstored
    have hlookup := lookup_key (of p past).library r
    rw [hstored, Option.map_some] at hlookup
    refine ⟨by rw [serve_kept hlookup], ?_, ?_⟩
    · obtain ⟨first, hanswer, hfirst, hresult⟩ :=
        hs.built e.1 e.2 (List.mem_of_find?_eq_some hstored)
      exact ⟨first, hanswer, key_eq_iff.mp (hfirst.trans hkey), hresult⟩
    · intro later r' hstored'
      have hkey' : e.1 = r'.key := by simpa using List.find?_some hstored'
      exact key_eq_iff.mp (hkey'.symm.trans hkey)
  · intro r hstored
    have hlookup := lookup_key (of p past).library r
    rw [hstored, Option.map_none] at hlookup
    rcases hresult : r.construct.result with e | g
    · rw [serve_failed hlookup hresult]
    · rw [serve_built hlookup hresult]
  · intro r e herror
    exact serve_of_error herror

/-! ### A desk that is opened and closed -/

namespace Desk

def shop : ProjectId := ⟨"shop"⟩

def method (name : String) : MethodRef :=
  ⟨⟨.application, TypeName.ofBinary "shop.Desk"⟩, name, [], TypeName.void⟩

/-- A plan in which the given methods have a body, which is empty. -/
def plan (methods : List MethodRef) : Construction.Plan :=
  ⟨.empty shop,
    BodyStore.provider ⟨methods.map fun m => .body ⟨m, true, [], [], [], .empty⟩⟩, 1⟩

def cancelled : Monitor := { patience := some 0 }

def patient : Monitor := { patience := some 9 }

/-- The request that succeeds. -/
def staffed : Request :=
  .ofPlan (plan [method "open", method "close"]) [method "open", method "close", method "open"]
    patient

/-- A request that fails for want of bodies. -/
def vacant : Request := .ofPlan (plan []) [method "open", method "close"] patient

/-- A request fails, one succeeds, and one for a smaller set is cancelled. -/
def past : List Request :=
  [vacant, staffed, .ofPlan (plan [method "open"]) [method "open"] cancelled]

/-- What the request that succeeds is answered. -/
def answer : Outcome := ((of shop [vacant]).library.serve staffed).1

/-- The set is listed in another order, no method has a body, and the monitor has cancelled: the
    graph is the one that was given out, and nothing is changed. -/
theorem serve_of_past_desk :
    (staffed, answer) ∈ (of shop past).answers ∧
    ∃ g, answer.result = .ok g ∧ g.graph.entrypoints.length = 2 ∧
      (of shop past).library.request (plan []) [method "close", method "open"] cancelled =
        (⟨.ok g, cancelled, []⟩, (of shop past).library) ∧
      (of shop past).library.builds = 1 ∧ (of shop past).served.card = 1 := by
  have hanswer : (staffed, answer) ∈ (of shop past).answers :=
    List.mem_of_getElem? (i := 1) rfl
  obtain ⟨g, hg, hentrypoints⟩ :
      ∃ g, answer.result = .ok g ∧ g.graph.entrypoints.length = 2 :=
    exists_ok_of_any (by decide +kernel)
  obtain ⟨hsame, -, -, -, hbuilds, hcard⟩ := serve_of_past shop past
  have hone : (of shop past).library.builds = 1 := by decide +kernel
  refine ⟨hanswer, g, hg, hentrypoints, ?_, hone, ?_⟩
  · rw [← serve_ofPlan]
    exact hsame staffed answer g hanswer hg _ (by decide +kernel)
  · rw [← hcard, ← hbuilds, hone]

end Desk

end History
end GraphLibrary
end StreamVerdict
