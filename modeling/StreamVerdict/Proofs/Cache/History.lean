/-
  Histories of requests to caches.

  A history is any sequence of requests, each with a source of its own, and of clearings.  The
  requests since the last clearing, with their answers, decide what the tables hold: under every
  key the value that the first successful request for it was given by its source.  Both ways to
  ask for a body count for the same key.
-/
import Mathlib.Data.List.Induction
import StreamVerdict.Cache.Basic
import StreamVerdict.Proofs.Data.OrdSet

namespace StreamVerdict

/-! ### Tables that remember the first value -/

section Remembers

variable {κ α S : Type} [BEq κ] [LawfulBEq κ] {table : List (κ × α)}
  {first? found : κ → Option (S × α)} {Gave : κ → S → α → Prop} {k : κ} {a : α} {s : S}

/-- A table holds, under each key, the value that was first found for it; and that value was
    given by the source that it was found with. -/
structure Remembers (table : List (κ × α)) (first? : κ → Option (S × α))
    (Gave : κ → S → α → Prop) : Prop where
  lookup : ∀ k, table.lookup k = (first? k).map Prod.snd
  gave : ∀ k s a, first? k = some (s, a) → Gave k s a
  keys : (table.map Prod.fst).Nodup

omit [LawfulBEq κ] in
/-- An empty table remembers nothing. -/
theorem Remembers.nil : Remembers ([] : List (κ × α)) (fun _ => none) Gave where
  lookup := fun _ => rfl
  gave := by
    intro k s a hsome
    cases hsome
  keys := List.nodup_nil

omit [LawfulBEq κ] in
/-- What is found again under a key that is known, or is not found, changes nothing. -/
theorem Remembers.again (h : Remembers table first? Gave)
    (hfound : ∀ j, found j ≠ none → table.lookup j ≠ none) :
    Remembers table (fun j => (first? j).or (found j)) Gave := by
  have hsame : (fun j => (first? j).or (found j)) = first? := by
    funext j
    rcases hj : first? j with _ | x
    · rw [Option.none_or]
      by_contra hsome
      apply hfound j hsome
      rw [h.lookup, hj]
      rfl
    · rw [Option.some_or]
  rw [hsame]
  exact h

/-- What is found under a new key is entered in the table. -/
theorem Remembers.insert [DecidableEq κ] (h : Remembers table first? Gave)
    (hnew : table.lookup k = none)
    (hfound : ∀ j, found j = if k = j then some (s, a) else none) (hgave : Gave k s a) :
    Remembers ((k, a) :: table) (fun j => (first? j).or (found j)) Gave := by
  have hnone : first? k = none := by
    have hlookup := h.lookup k
    rw [hnew] at hlookup
    exact Option.map_eq_none_iff.mp hlookup.symm
  refine ⟨?_, ?_, ?_⟩
  · intro j
    rw [hfound]
    by_cases hj : k = j
    · subst hj
      simp [hnone]
    · rw [lookup_cons_of_ne fun h => hj h.symm, if_neg hj, Option.or_none, h.lookup]
  · intro j s' a' hsome
    rw [hfound] at hsome
    by_cases hj : k = j
    · subst hj
      rw [hnone, if_pos rfl, Option.none_or] at hsome
      cases hsome
      exact hgave
    · rw [if_neg hj, Option.or_none] at hsome
      exact h.gave j s' a' hsome
  · rw [List.map_cons, List.nodup_cons]
    exact ⟨notMem_keys_of_lookup hnew, h.keys⟩

end Remembers

namespace Caches

/-! ### Requests -/

/-- A request to caches.  A source is what a project model says, or what a store says with the
    hierarchy that it works with; it may be another one in each request. -/
inductive Request where
  | hierarchy (source : HierarchySource) (p : ProjectId)
  /-- For the body of a method that has to have one. -/
  | body (source : BodySource) (p : ProjectId) (m : MethodRef)
  | body? (source : BodySource) (p : ProjectId) (m : MethodRef)
  | library (p : ProjectId)
  | clear

namespace Request

/-- The project that is asked about. -/
def project? : Request → Option ProjectId
  | hierarchy _ p => some p
  | body _ p _ => some p
  | body? _ p _ => some p
  | library p => some p
  | clear => none

def isClear : Request → Bool
  | clear => true
  | _ => false

/-- The request is about the project, or clears the caches. -/
def concerns (p : ProjectId) (r : Request) : Bool := r.project?.all fun q => q = p

/-- A body that the source gives for a method is a body of that method. -/
def IsHonest : Request → Prop
  | body source _ _ => ∀ m b, source m = .ok (some b) → b.method = m
  | body? source _ _ => ∀ m b, source m = .ok (some b) → b.method = m
  | _ => True

end Request

/-- What a request is answered. -/
inductive Answer where
  | hierarchy (r : Except HierarchyError Hierarchy)
  | body (r : Except AnalysisError Body)
  | body? (r : Except BodyError (Option Body))
  | library (l : GraphLibrary)
  | cleared

/-- The request failed, or the method has no body. -/
def Answer.isEmptyHanded : Answer → Bool
  | hierarchy (.error _) => true
  | body (.error _) => true
  | body? (.error _) => true
  | body? (.ok none) => true
  | _ => false

/-- Serves one request. -/
def serve (c : Caches) : Request → Answer × Caches
  | .hierarchy source p => (c.hierarchyFrom source p).map .hierarchy id
  | .body source p m => (c.bodyFrom source p m).map .body id
  | .body? source p m => (c.bodyFrom? source p m).map .body? id
  | .library p => (c.library p).map .library id
  | .clear => (.cleared, c.clear)

/-! ### What one look-up does -/

section Lookups

variable {c : Caches} {p : ProjectId} {m : MethodRef}

theorem hierarchyFrom_kept {g : Hierarchy} (h : c.hierarchies.lookup p = some g)
    (source : HierarchySource) : c.hierarchyFrom source p = (.ok g, c.count .hit) := by
  simp only [hierarchyFrom, h]

theorem hierarchyFrom_failed {source : HierarchySource} {e : HierarchyError}
    (h : c.hierarchies.lookup p = none) (hsource : source p = .error e) :
    c.hierarchyFrom source p =
      (.error e, { c.count .miss with scopeRequests := c.scopeRequests + 1 }) := by
  simp only [hierarchyFrom, h, hsource]

theorem hierarchyFrom_built {source : HierarchySource} {g : Hierarchy}
    (h : c.hierarchies.lookup p = none) (hsource : source p = .ok g) :
    c.hierarchyFrom source p =
      (.ok g, { c.count .miss with
        scopeRequests := c.scopeRequests + 1
        hierarchies := (p, g) :: c.hierarchies
        metrics := (c.metrics.count .miss 1).count .build 1 }) := by
  simp only [hierarchyFrom, h, hsource]
  rfl

theorem bodyFrom?_kept {b : Body} (h : c.bodies.lookup (p, m) = some b) (source : BodySource) :
    c.bodyFrom? source p m = (.ok (some b), c.count .hit) := by
  simp only [bodyFrom?, h]

theorem bodyFrom?_failed {source : BodySource} {e : BodyError}
    (h : c.bodies.lookup (p, m) = none) (hsource : source m = .error e) :
    c.bodyFrom? source p m =
      (.error e, { c.count .miss with bodyRequests := c.bodyRequests + 1 }) := by
  simp only [bodyFrom?, h, hsource]

theorem bodyFrom?_bodiless {source : BodySource}
    (h : c.bodies.lookup (p, m) = none) (hsource : source m = .ok none) :
    c.bodyFrom? source p m =
      (.ok none, { c.count .miss with bodyRequests := c.bodyRequests + 1 }) := by
  simp only [bodyFrom?, h, hsource]

/-- A body is kept under its own method, which has to be the one that was asked for. -/
theorem bodyFrom?_built {source : BodySource} {b : Body}
    (h : c.bodies.lookup (p, m) = none) (hsource : source m = .ok (some b))
    (hmethod : b.method = m) :
    c.bodyFrom? source p m =
      (.ok (some b), { c.count .miss with
        bodyRequests := c.bodyRequests + 1
        bodies := ((p, m), b) :: c.bodies
        metrics := (c.metrics.count .miss 1).count .build 1 }) := by
  subst hmethod
  have hmiss : ({ c.count .miss with bodyRequests := c.bodyRequests + 1 } : Caches).bodies.lookup
      (p, b.method) = none := h
  simp only [bodyFrom?, h, hsource, keepBody, hmiss]
  rfl

theorem library_kept {l : GraphLibrary} (h : c.libraries.lookup p = some l) :
    c.library p = (l, c.count .hit) := by
  simp only [library, h]

theorem library_opened (h : c.libraries.lookup p = none) :
    c.library p =
      (.empty p, { c.count .miss with libraries := (p, .empty p) :: c.libraries }) := by
  simp only [library, h]
  rfl

end Lookups

/-- Two caches hold the same. -/
structure SameTables (c c' : Caches) : Prop where
  hierarchies : c'.hierarchies = c.hierarchies
  bodies : c'.bodies = c.bodies
  libraries : c'.libraries = c.libraries

section Effects

variable {c : Caches} {p : ProjectId} {m : MethodRef} {source : BodySource} {r : Request}

/-- A look-up that finds no body leaves the tables as they are, and is a miss. -/
theorem bodyFrom?_emptyHanded (h : ∀ b, (c.bodyFrom? source p m).1 ≠ .ok (some b)) :
    SameTables c (c.bodyFrom? source p m).2 ∧
      (c.bodyFrom? source p m).2.metrics = c.metrics.count .miss 1 := by
  rcases hlookup : c.bodies.lookup (p, m) with _ | b
  · rcases hsource : source m with e | _ | b
    · rw [bodyFrom?_failed hlookup hsource]
      exact ⟨⟨rfl, rfl, rfl⟩, rfl⟩
    · rw [bodyFrom?_bodiless hlookup hsource]
      exact ⟨⟨rfl, rfl, rfl⟩, rfl⟩
    · simp [bodyFrom?, hlookup, hsource] at h
  · rw [bodyFrom?_kept hlookup] at h
    exact absurd rfl (h b)

/-- A request that comes back with empty hands leaves the tables as they are, and is counted as a
    miss and as nothing else. -/
theorem serve_emptyHanded (h : (c.serve r).1.isEmptyHanded) :
    SameTables c (c.serve r).2 ∧ (c.serve r).2.metrics = c.metrics.count .miss 1 := by
  cases r with
  | hierarchy source p =>
      rcases hlookup : c.hierarchies.lookup p with _ | g
      · rcases hsource : source p with e | g
        · simp only [serve, hierarchyFrom_failed hlookup hsource]
          exact ⟨⟨rfl, rfl, rfl⟩, rfl⟩
        · simp [serve, hierarchyFrom_built hlookup hsource, Answer.isEmptyHanded] at h
      · simp [serve, hierarchyFrom_kept hlookup, Answer.isEmptyHanded] at h
  | body source p m =>
      refine bodyFrom?_emptyHanded ?_
      intro b hb
      simp [serve, bodyFrom, hb, BodyStore.demand, Answer.isEmptyHanded] at h
  | body? source p m =>
      refine bodyFrom?_emptyHanded ?_
      intro b hb
      simp [serve, hb, Answer.isEmptyHanded] at h
  | library p => simp [serve, Answer.isEmptyHanded] at h
  | clear => simp [serve, Answer.isEmptyHanded] at h

/-- How the counters change between two caches: by a hit, a miss, or a miss and a build. -/
inductive Counted (c c' : Caches) : Prop where
  | hit (h : c'.metrics = c.metrics.count .hit 1)
  | miss (h : c'.metrics = c.metrics.count .miss 1)
  | build (h : c'.metrics = (c.metrics.count .miss 1).count .build 1)

/-- Whatever body is built, and under whatever method it is kept, it is counted once. -/
theorem counted_bodyFrom? (c : Caches) (source : BodySource) (p : ProjectId) (m : MethodRef) :
    Counted c (c.bodyFrom? source p m).2 := by
  rw [bodyFrom?]
  rcases c.bodies.lookup (p, m) with _ | b
  · rcases source m with e | _ | b
    · exact .miss rfl
    · exact .miss rfl
    · simp only [keepBody, Prod.map_snd, id]
      split
      · exact .build rfl
      · exact .build rfl
  · exact .hit rfl

/-- What a request other than a clearing does to the counters. -/
theorem counted_serve (c : Caches) (hr : r.isClear = false) : Counted c (c.serve r).2 := by
  cases r with
  | hierarchy source p =>
      simp only [serve, Prod.map_snd, id, hierarchyFrom]
      rcases c.hierarchies.lookup p with _ | g
      · rcases source p with e | g
        · exact .miss rfl
        · exact .build rfl
      · exact .hit rfl
  | body source p m => exact counted_bodyFrom? c source p m
  | body? source p m => exact counted_bodyFrom? c source p m
  | library p =>
      simp only [serve, Prod.map_snd, id, library]
      rcases c.libraries.lookup p with _ | l
      · exact .miss rfl
      · exact .hit rfl
  | clear => cases hr

end Effects

/-! ### Histories -/

/-- A request that was served. -/
structure Entry where
  request : Request
  answer : Answer
  /-- A build was counted. -/
  isBuild : Bool

namespace Entry

/-- The hierarchy that was given out for the project, and the source of the request. -/
def hierarchy? (p : ProjectId) (e : Entry) : Option (HierarchySource × Hierarchy) :=
  match e.request, e.answer with
  | .hierarchy source q, .hierarchy (.ok g) => if q = p then some (source, g) else none
  | _, _ => none

/-- The body that was given out for the method of the project, in either way, and the source of
    the request. -/
def body? (k : ProjectId × MethodRef) (e : Entry) : Option (BodySource × Body) :=
  match e.request, e.answer with
  | .body source p m, .body (.ok b) => if (p, m) = k then some (source, b) else none
  | .body? source p m, .body? (.ok (some b)) => if (p, m) = k then some (source, b) else none
  | _, _ => none

end Entry

/-- Caches, and the requests that were served since the last clearing, oldest first. -/
structure History where
  caches : Caches
  recent : List Entry

namespace History

variable {h : History} {r : Request}

/-- The next request, as it is served. -/
def entry (h : History) (r : Request) : Entry where
  request := r
  answer := (h.caches.serve r).1
  isBuild := (h.caches.serve r).2.metrics.builds = h.caches.metrics.builds + 1

/-- The history with one more request. -/
def serve (h : History) (r : Request) : History where
  caches := (h.caches.serve r).2
  recent := if r.isClear then [] else h.recent ++ [h.entry r]

/-- The history of requests to caches that were empty at first. -/
def of (rs : List Request) : History := rs.foldl serve ⟨Caches.empty, []⟩

theorem of_append (rs : List Request) (r : Request) : of (rs ++ [r]) = (of rs).serve r := by
  rw [of, List.foldl_append]
  rfl

theorem recent_serve (hr : r.isClear = false) : (h.serve r).recent = h.recent ++ [h.entry r] := by
  rw [serve, hr]
  rfl

/-- The first hierarchy that was given out for a project since the last clearing, and the source
    of that request. -/
def firstHierarchy? (h : History) (p : ProjectId) : Option (HierarchySource × Hierarchy) :=
  h.recent.findSome? (Entry.hierarchy? p)

/-- The first body that was given out for a method of a project since the last clearing, and the
    source of that request. -/
def firstBody? (h : History) (k : ProjectId × MethodRef) : Option (BodySource × Body) :=
  h.recent.findSome? (Entry.body? k)

/-- What the tables hold is what was first given out, by the source of the request; and there is
    one entry in the tables for every build that was counted. -/
structure Sound (h : History) : Prop where
  hierarchies : Remembers h.caches.hierarchies h.firstHierarchy? fun p source g => source p = .ok g
  bodies : Remembers h.caches.bodies h.firstBody? fun k source b => source k.2 = .ok (some b)
  builds : h.caches.hierarchies.length + h.caches.bodies.length = h.recent.countP Entry.isBuild

namespace Sound

theorem empty : Sound ⟨Caches.empty, []⟩ := ⟨Remembers.nil, Remembers.nil, rfl⟩

theorem clear (h : History) : (h.serve .clear).Sound := ⟨Remembers.nil, Remembers.nil, rfl⟩

/-- Counting one more, even around the end of the counter, is seen. -/
theorem ne_add_one (n : UInt64) : n ≠ n + 1 := by
  intro h
  have hnat := congrArg UInt64.toNat h
  have hbound := n.toNat_lt
  rw [UInt64.toNat_add, UInt64.toNat_one] at hnat
  omega

section Step

variable {a : Answer} {c : Caches} {isBuild : Bool}

/-- What has to be known of a request that was served: what became of the tables, given what
    the request was answered. -/
theorem serve_of_remembers (hs : h.Sound) (hr : r.isClear = false)
    (hserve : h.caches.serve r = (a, c))
    (hbuild : decide (c.metrics.builds = h.caches.metrics.builds + 1) = isBuild)
    (hhierarchies : Remembers c.hierarchies
      (fun p => (h.firstHierarchy? p).or (Entry.hierarchy? p ⟨r, a, isBuild⟩))
      fun p source g => source p = .ok g)
    (hbodies : Remembers c.bodies
      (fun k => (h.firstBody? k).or (Entry.body? k ⟨r, a, isBuild⟩))
      fun k source b => source k.2 = .ok (some b))
    (hsizes : c.hierarchies.length + c.bodies.length =
      h.caches.hierarchies.length + h.caches.bodies.length + isBuild.toNat) :
    (h.serve r).Sound := by
  have hcaches : (h.serve r).caches = c := congrArg Prod.snd hserve
  have hrecent : (h.serve r).recent = h.recent ++ [⟨r, a, isBuild⟩] := by
    rw [recent_serve hr, entry, hserve, hbuild]
  have hfirst : ∀ p, (h.serve r).firstHierarchy? p =
      (h.firstHierarchy? p).or (Entry.hierarchy? p ⟨r, a, isBuild⟩) := fun p => by
    rw [firstHierarchy?, hrecent, List.findSome?_append, List.findSome?_singleton]
    rfl
  have hfirstBody : ∀ k, (h.serve r).firstBody? k =
      (h.firstBody? k).or (Entry.body? k ⟨r, a, isBuild⟩) := fun k => by
    rw [firstBody?, hrecent, List.findSome?_append, List.findSome?_singleton]
    rfl
  refine ⟨?_, ?_, ?_⟩
  · rw [hcaches, funext hfirst]
    exact hhierarchies
  · rw [hcaches, funext hfirstBody]
    exact hbodies
  · rw [hcaches, hrecent, hsizes, hs.builds, List.countP_append, List.countP_singleton]
    cases isBuild <;> rfl

/-- A request after which the same hierarchies and bodies are kept, without a build. -/
theorem serve_same (hs : h.Sound) (hr : r.isClear = false) (hserve : h.caches.serve r = (a, c))
    (hhierarchies : c.hierarchies = h.caches.hierarchies) (hbodies : c.bodies = h.caches.bodies)
    (hbuilds : c.metrics.builds = h.caches.metrics.builds)
    (hhierarchy : ∀ p, Entry.hierarchy? p ⟨r, a, false⟩ ≠ none →
      h.caches.hierarchies.lookup p ≠ none)
    (hbody : ∀ k, Entry.body? k ⟨r, a, false⟩ ≠ none → h.caches.bodies.lookup k ≠ none) :
    (h.serve r).Sound := by
  refine hs.serve_of_remembers hr hserve (decide_eq_false (hbuilds ▸ ne_add_one _)) ?_ ?_ ?_
  · rw [hhierarchies]
    exact hs.hierarchies.again hhierarchy
  · rw [hbodies]
    exact hs.bodies.again hbody
  · rw [hhierarchies, hbodies]
    rfl

end Step

theorem serve_hierarchy (hs : h.Sound) (source : HierarchySource) (p : ProjectId) :
    (h.serve (.hierarchy source p)).Sound := by
  have hserve : h.caches.serve (.hierarchy source p) =
      (h.caches.hierarchyFrom source p).map .hierarchy id := rfl
  rcases hlookup : h.caches.hierarchies.lookup p with _ | g
  · rcases hsource : source p with e | g
    · rw [hierarchyFrom_failed hlookup hsource] at hserve
      exact hs.serve_same rfl hserve rfl rfl rfl (fun _ hfound => absurd rfl hfound)
        fun _ hfound => absurd rfl hfound
    · rw [hierarchyFrom_built hlookup hsource] at hserve
      refine hs.serve_of_remembers rfl hserve (decide_eq_true rfl) ?_ ?_ ?_
      · exact hs.hierarchies.insert hlookup (fun _ => rfl) hsource
      · exact hs.bodies.again fun _ hfound => absurd rfl hfound
      · exact Nat.add_right_comm _ _ _
  · rw [hierarchyFrom_kept hlookup] at hserve
    refine hs.serve_same rfl hserve rfl rfl rfl ?_ fun _ hfound => absurd rfl hfound
    intro q hfound
    have hq : p = q := by
      by_contra hne
      exact hfound (if_neg hne)
    rw [← hq, hlookup]
    exact Option.some_ne_none g

/-- A request for a body, in either way; `tag` is what it makes of the answer about the body. -/
theorem serve_body (hs : h.Sound) (hr : r.isClear = false) {source : BodySource} {p : ProjectId}
    {m : MethodRef} {tag : Except BodyError (Option Body) → Answer}
    (hhonest : ∀ m b, source m = .ok (some b) → b.method = m)
    (hserve : h.caches.serve r = (h.caches.bodyFrom? source p m).map tag id)
    (hhierarchy : ∀ x i q, Entry.hierarchy? q ⟨r, tag x, i⟩ = none)
    (hfailed : ∀ e i k, Entry.body? k ⟨r, tag (.error e), i⟩ = none)
    (hbodiless : ∀ i k, Entry.body? k ⟨r, tag (.ok none), i⟩ = none)
    (hbody : ∀ b i k, Entry.body? k ⟨r, tag (.ok (some b)), i⟩ =
      if (p, m) = k then some (source, b) else none) :
    (h.serve r).Sound := by
  rcases hlookup : h.caches.bodies.lookup (p, m) with _ | b
  · rcases hsource : source m with e | _ | b
    · rw [bodyFrom?_failed hlookup hsource] at hserve
      exact hs.serve_same hr hserve rfl rfl rfl
        (fun q hfound => absurd (hhierarchy _ _ q) hfound)
        fun k hfound => absurd (hfailed _ _ k) hfound
    · rw [bodyFrom?_bodiless hlookup hsource] at hserve
      exact hs.serve_same hr hserve rfl rfl rfl
        (fun q hfound => absurd (hhierarchy _ _ q) hfound)
        fun k hfound => absurd (hbodiless _ k) hfound
    · rw [bodyFrom?_built hlookup hsource (hhonest m b hsource)] at hserve
      refine hs.serve_of_remembers hr hserve (decide_eq_true rfl) ?_ ?_ ?_
      · exact hs.hierarchies.again fun q hfound => absurd (hhierarchy _ _ q) hfound
      · exact hs.bodies.insert hlookup (hbody b true) hsource
      · rfl
  · rw [bodyFrom?_kept hlookup] at hserve
    refine hs.serve_same hr hserve rfl rfl rfl
      (fun q hfound => absurd (hhierarchy _ _ q) hfound) ?_
    intro k hfound
    rw [hbody b] at hfound
    have hk : (p, m) = k := by
      by_contra hne
      exact hfound (if_neg hne)
    rw [← hk, hlookup]
    exact Option.some_ne_none b

theorem serve_library (hs : h.Sound) (p : ProjectId) : (h.serve (.library p)).Sound := by
  have hserve : h.caches.serve (.library p) = (h.caches.library p).map .library id := rfl
  rcases hlookup : h.caches.libraries.lookup p with _ | l
  · rw [library_opened hlookup] at hserve
    exact hs.serve_same rfl hserve rfl rfl rfl (fun _ hfound => absurd rfl hfound)
      fun _ hfound => absurd rfl hfound
  · rw [library_kept hlookup] at hserve
    exact hs.serve_same rfl hserve rfl rfl rfl (fun _ hfound => absurd rfl hfound)
      fun _ hfound => absurd rfl hfound

theorem serve (hs : h.Sound) (hr : r.IsHonest) : (h.serve r).Sound := by
  cases r with
  | hierarchy source p => exact hs.serve_hierarchy source p
  | body source p m =>
      have hserve : h.caches.serve (.body source p m) =
          (h.caches.bodyFrom? source p m).map (fun x => .body (BodyStore.demand m x)) id := rfl
      exact hs.serve_body rfl hr hserve (fun _ _ _ => rfl) (fun _ _ _ => rfl) (fun _ _ => rfl)
        fun _ _ _ => rfl
  | body? source p m =>
      exact hs.serve_body rfl hr rfl (fun _ _ _ => rfl) (fun _ _ _ => rfl) (fun _ _ => rfl)
        fun _ _ _ => rfl
  | library p => exact hs.serve_library p
  | clear => exact clear h

/-- What was first given out is what is kept, after every history. -/
theorem of (rs : List Request) (hrs : ∀ r ∈ rs, r.IsHonest) : (History.of rs).Sound := by
  induction rs using List.reverseRecOn with
  | nil => exact empty
  | append_singleton rs r ih =>
      rw [of_append]
      have hold := ih fun r' hr' => hrs r' (List.mem_append_left _ hr')
      exact hold.serve (hrs r (List.mem_append_right _ List.mem_cons_self))

end Sound

end History

end Caches
end StreamVerdict
