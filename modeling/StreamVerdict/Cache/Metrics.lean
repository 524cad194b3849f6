/-
  Counters of cache use.
-/

namespace StreamVerdict

/-- What can happen to a cache. -/
inductive CacheEvent where
  | hit
  | miss
  | build
  | clear
deriving DecidableEq

/-- The event with the given name. -/
def CacheEvent.ofName? : String → Option CacheEvent
  | "hit" => some hit
  | "miss" => some miss
  | "build" => some build
  | "clear" => some clear
  | _ => none

/-- How often each thing happened; counters wrap around at 2^64. -/
structure Metrics where
  hits : UInt64 := 0
  misses : UInt64 := 0
  builds : UInt64 := 0
  clears : UInt64 := 0
deriving DecidableEq

namespace Metrics

/-- Counts an event `n` times. -/
def count (m : Metrics) (e : CacheEvent) (n : UInt64) : Metrics :=
  match e with
  | .hit => { m with hits := m.hits + n }
  | .miss => { m with misses := m.misses + n }
  | .build => { m with builds := m.builds + n }
  | .clear => { m with clears := m.clears + n }

/-- The part of the look-ups that were hits; zero if there were none. -/
def hitRate (m : Metrics) : Float :=
  let total := m.hits.toFloat + m.misses.toFloat
  if 0 < total then m.hits.toFloat / total else 0

end Metrics

/-- The places where counters are published, by their names. -/
structure MetricsRegistry where
  names : List String
deriving DecidableEq

namespace MetricsRegistry

def empty : MetricsRegistry := ⟨[]⟩

def counterNames : List String :=
  [ "stream_analysis_cache_hits_total", "stream_analysis_cache_misses_total",
    "stream_analysis_cache_builds_total", "stream_analysis_cache_clears_total" ]

/-- Publishes the counters of a cache; a name can be taken only once. -/
def register? (r : MetricsRegistry) : Option MetricsRegistry :=
  if counterNames.any fun n => n ∈ r.names then none else some ⟨r.names ++ counterNames⟩

end MetricsRegistry
end StreamVerdict
