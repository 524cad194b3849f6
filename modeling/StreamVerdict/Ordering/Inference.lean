/-
  The order of a stream from the possible types of its source.

  A static factory has an order of its own.  Otherwise every type that is known is probed, in
  order and until one fails, and the types have to agree.  Whatever answers may probe, over a
  state of its own; a session is one such state.
-/
import StreamVerdict.Probe.Prober
import StreamVerdict.Source.CreationSite
import StreamVerdict.StaticType.Basic

namespace StreamVerdict
namespace SourceOrder

/-- A probe, over any state that it changes. -/
abbrev Probe (σ : Type) := TypeRef → σ → Except (Failure OrderingError) Characteristics × σ

/-- Whatever answers probes: a probe for each method that creates streams, and their state. -/
structure Probing (σ : Type) where
  probe : String → Probe σ
  state : σ

variable {σ : Type}

/-- Probes types one after the other until one fails. -/
def observe (probe : Probe σ) :
    List TypeRef → σ → Except (Failure OrderingError) (List (String × SourceOrder)) × σ
  | [], s => (.ok [], s)
  | t :: ts, s =>
    match probe t s with
    | (.error e, s) => (.error e, s)
    | (.ok c, s) =>
      match observe probe ts s with
      | (.error e, s) => (.error e, s)
      | (.ok observed, s) => (.ok ((t.binary, c.order) :: observed), s)

/-- Without a probe no type tells its order. -/
def noProbe : Probe σ := fun t s => (.error (.precondition (.cannotExtract t.binary)), s)

/-- The order on which all known candidates agree. -/
def survey (probe : Probe σ) (candidates : OrdSet StaticType) (s : σ) :
    Except (Failure OrderingError) SourceOrder × σ :=
  match observe probe (candidates.toList.filterMap StaticType.typeRef?) s with
  | (.error e, s) => (.error e, s)
  | (.ok observed, s) =>
    match reconcile observed with
    | .ok o => (.ok o, s)
    | .error e => (.error (.precondition e), s)

/-- The order of the stream that a site creates. -/
def infer (site : CreationSite) (candidates : OrdSet StaticType) (probe : Probe σ) (s : σ) :
    Except (Failure OrderingError) SourceOrder × σ :=
  if site.isStatic then (.ok (ofFactory site.method), s) else survey probe candidates s

/-- A session answers by the objects that it makes. -/
def Probing.ofSession (s : Session) : Probing Session := ⟨Prober.probe Strategy.standard, s⟩

end SourceOrder
end StreamVerdict
