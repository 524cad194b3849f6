/-
  Whatever a probe is handed, it gives back.

  The state of a session is compared with the state at the start: the catalog and the faults are
  the same, the ledger has grown by entries that keep the rules of custody, and the counts of live
  objects and open streams have grown by what is held.  Every call of a session keeps this, so
  that a probe, which starts and ends with nothing held on every path, leaves the counts as they
  were.  An inference probes one type after the other, up to the first that fails.
-/
import StreamVerdict.Ordering.Inference
import StreamVerdict.Proofs.Probe.Custody

namespace StreamVerdict

namespace Session

/-- The same catalog and the same faults. -/
structure Alike (s s' : Session) : Prop where
  catalog : s'.catalog = s.catalog
  faults : s'.faults = s.faults

/-- A session that started as `s₀` and in which `h` is held. -/
structure Keeps (s₀ s : Session) (h : Custody) : Prop where
  alike : s₀.Alike s
  ledger : ∃ es, s.ledger = s₀.ledger ++ es ∧ Custody.Run .nothing es h
  live : s.live = s₀.live + h.objects.length
  openStreams : s.openStreams = s₀.openStreams + h.streams.length
  object : ∀ o ∈ h.objects, ∃ x, s.objects[o]? = some x ∧ x.released = false
  stream : ∀ n ∈ h.streams, ∃ x, s.streams[n]? = some x ∧ x.closed = false

namespace Keeps

variable {s₀ s : Session} {h h' : Custody}

theorem start (s : Session) : s.Keeps s .nothing where
  alike := ⟨rfl, rfl⟩
  ledger := ⟨[], (List.append_nil _).symm, Custody.Run.nil _⟩
  live := rfl
  openStreams := rfl
  object := fun _ ho => (List.not_mem_nil ho).elim
  stream := fun _ hn => (List.not_mem_nil hn).elim

/-- One more entry in the ledger that keeps the rules. -/
theorem enter (hs : s₀.Keeps s h) {call : ProbeCall} {grant : Grant}
    (hstep : Custody.Step h ⟨call, grant⟩ h') :
    ∃ es, (s.note call grant).ledger = s₀.ledger ++ es ∧ Custody.Run .nothing es h' := by
  obtain ⟨es, hledger, hrun⟩ := hs.ledger
  refine ⟨es ++ [⟨call, grant⟩], ?_, hrun.append (Custody.Run.single hstep)⟩
  simp only [note, hledger, List.append_assoc]

/-- A call after which the same is held, and nothing else happened. -/
theorem note (hs : s₀.Keeps s h) {call : ProbeCall}
    (hstep : Custody.Step h ⟨call, .nothing⟩ h) : s₀.Keeps (s.note call .nothing) h where
  alike := ⟨hs.alike.catalog, hs.alike.faults⟩
  ledger := hs.enter hstep
  live := hs.live
  openStreams := hs.openStreams
  object := hs.object
  stream := hs.stream

/-! ### Objects -/

theorem load (hs : s₀.Keeps s .nothing) (type : String) :
    s₀.Keeps (s.load type).2 .nothing := by
  have hnote := hs.note (Custody.Step.loaded type)
  rw [Session.load]
  cases s.fault? type .load with
  | some e => exact hnote
  | none => exact hnote

/-- A new object is held. -/
theorem hand (hs : s₀.Keeps s .nothing) (d : TypeDescriptor) {call : ProbeCall}
    (hstep : Custody.Step .nothing ⟨call, .object s.objects.length⟩ (.object s.objects.length)) :
    s₀.Keeps ((s.handObject d).note call (.object s.objects.length))
      (.object s.objects.length) where
  alike := ⟨hs.alike.catalog, hs.alike.faults⟩
  ledger := hs.enter hstep
  live := congrArg (· + 1) hs.live
  openStreams := hs.openStreams
  object := by
    intro o ho
    obtain rfl := List.mem_singleton.mp ho
    exact ⟨⟨d, false⟩, List.getElem?_concat_length, rfl⟩
  stream := fun _ hn => (List.not_mem_nil hn).elim

/-- Making an object: it is held, or nothing is. -/
theorem make (hs : s₀.Keeps s .nothing) {call : ProbeCall} (type : String) (point : FaultPoint)
    (refusal? : TypeDescriptor → Option String)
    (hmade : ∀ o, Custody.Step .nothing ⟨call, .object o⟩ (.object o))
    (hrefused : Custody.Step .nothing ⟨call, .nothing⟩ .nothing) :
    (∃ e s', s.make call type point refusal? = (.error e, s') ∧ s₀.Keeps s' .nothing) ∨
    ∃ o s', s.make call type point refusal? = (.ok o, s') ∧ s₀.Keeps s' (.object o) := by
  have hnote := hs.note hrefused
  rw [Session.make]
  cases s.fault? type point with
  | some e => exact Or.inl ⟨e, _, rfl, hnote⟩
  | none =>
      cases s.catalog.load type with
      | error e => exact Or.inl ⟨e, _, rfl, hnote⟩
      | ok d =>
          cases hrefusal : refusal? d with
          | some reason =>
              refine Or.inl ⟨.constructionFailed d.binaryName reason, _, ?_, hnote⟩
              simp only [hrefusal]
          | none => exact Or.inr ⟨_, _, by simp only [hrefusal], hs.hand d (hmade _)⟩

theorem attempt (hs : s₀.Keeps s .nothing) (strategy : Strategy) (type : String) :
    (∃ e s', strategy.attempt s type = (.error e, s') ∧ s₀.Keeps s' .nothing) ∨
    ∃ o s', strategy.attempt s type = (.ok o, s') ∧ s₀.Keeps s' (.object o) := by
  cases strategy with
  | zeroArg =>
      exact hs.make type .construct _ (Custody.Step.constructed type)
        (Custody.Step.notConstructed type)
  | bypass =>
      exact hs.make type .allocate _ (Custody.Step.allocated type)
        (Custody.Step.notAllocated type)

theorem release {o : Nat} (hs : s₀.Keeps s (.object o)) :
    s₀.Keeps (s.release o) .nothing where
  alike := ⟨hs.alike.catalog, hs.alike.faults⟩
  ledger := hs.enter (Custody.Step.released o)
  live := by
    -- The object that is held was not given back before, so that it counts.
    obtain ⟨x, hx, hreleased⟩ := hs.object o (List.mem_singleton.mpr rfl)
    have hcounts : (s.objects[o]?).any ProbeObject.isLive = true := by
      rw [hx, Option.any_some, ProbeObject.isLive, hreleased]
      rfl
    show (if (s.objects[o]?).any ProbeObject.isLive then s.live - 1 else s.live) = s₀.live
    rw [if_pos hcounts, hs.live]
    rfl
  openStreams := hs.openStreams
  object := fun _ ho => (List.not_mem_nil ho).elim
  stream := fun _ hn => (List.not_mem_nil hn).elim

/-! ### Streams -/

/-- A call on the object: a stream that it returns is held, too. -/
theorem invoke {o : Nat} (hs : s₀.Keeps s (.object o)) (method : String) :
    (∃ n s', s.invoke o method = (.ok (.stream n), s') ∧ s₀.Keeps s' (.stream o n)) ∨
    (∃ r s', s.invoke o method = (.ok r, s') ∧ (∀ n, r ≠ .stream n) ∧
      s₀.Keeps s' (.object o)) ∨
    ∃ e s', s.invoke o method = (.error e, s') ∧ s₀.Keeps s' (.object o) := by
  have hnote := hs.note (Custody.Step.invoked o method)
  obtain ⟨x, hx, -⟩ := hs.object o (List.mem_singleton.mpr rfl)
  simp only [Session.invoke, hx]
  cases s.fault? x.descriptor.binaryName .invoke with
  | some e => exact Or.inr (Or.inr ⟨e, _, rfl, hnote⟩)
  | none =>
      rcases x.descriptor.methods.lookup method with _ | (c | t | _ | reason)
      · exact Or.inr (Or.inr ⟨_, _, rfl, hnote⟩)
      · refine Or.inl ⟨s.streams.length, _, rfl, ?_⟩
        exact
          { alike := ⟨hs.alike.catalog, hs.alike.faults⟩
            ledger := hs.enter (Custody.Step.returned o method s.streams.length)
            live := hs.live
            openStreams := congrArg (· + 1) hs.openStreams
            object := hs.object
            stream := by
              intro n hn
              obtain rfl := List.mem_singleton.mp hn
              exact ⟨_, List.getElem?_concat_length, rfl⟩ }
      · exact Or.inr (Or.inl ⟨_, _, rfl, fun n => by simp, hnote⟩)
      · exact Or.inr (Or.inl ⟨_, _, rfl, fun n => by simp, hnote⟩)
      · exact Or.inr (Or.inr ⟨_, _, rfl, hnote⟩)

theorem streamSpliterator {o n : Nat} (hs : s₀.Keeps s (.stream o n)) :
    s₀.Keeps (s.streamSpliterator n).2 (.stream o n) := by
  have hnote := hs.note (Custody.Step.streamAsked o n)
  obtain ⟨x, hx, -⟩ := hs.stream n (List.mem_singleton.mpr rfl)
  simp only [Session.streamSpliterator, hx]
  cases s.fault? x.type .stream with
  | some e => exact hnote
  | none => exact hnote

theorem close {o n : Nat} (hs : s₀.Keeps s (.stream o n)) :
    s₀.Keeps (s.close n) (.object o) where
  alike := ⟨hs.alike.catalog, hs.alike.faults⟩
  ledger := hs.enter (Custody.Step.closed o n)
  live := hs.live
  openStreams := by
    obtain ⟨x, hx, hclosed⟩ := hs.stream n (List.mem_singleton.mpr rfl)
    have hcounts : (s.streams[n]?).any ProbeStream.isOpen = true := by
      rw [hx, Option.any_some, ProbeStream.isOpen, hclosed]
      rfl
    show (if (s.streams[n]?).any ProbeStream.isOpen then s.openStreams - 1 else s.openStreams) =
      s₀.openStreams
    rw [if_pos hcounts, hs.openStreams]
    rfl
  object := hs.object
  stream := fun _ hn => (List.not_mem_nil hn).elim

end Keeps
end Session

/-! ### Probes -/

namespace Prober

open Session

variable {s₀ s : Session}

/-- Of the strategies at most one makes an object. -/
theorem keeps_instantiate (hs : s₀.Keeps s .nothing) (type : String) (strategies : List Strategy) :
    (∃ e s', instantiate type strategies s = (.error e, s') ∧ s₀.Keeps s' .nothing) ∨
    ∃ o s', instantiate type strategies s = (.ok o, s') ∧ s₀.Keeps s' (.object o) := by
  induction strategies generalizing s with
  | nil => exact Or.inl ⟨_, s, rfl, hs⟩
  | cons strategy strategies ih =>
      rw [instantiate]
      rcases hs.attempt strategy type with ⟨e, s', hattempt, hs'⟩ | ⟨o, s', hattempt, hs'⟩
      · rw [hattempt]
        -- Only a failed construction is followed by the next strategy.
        cases e with
        | constructionFailed _ _ => exact ih hs'
        | typeNotFound _ => exact Or.inl ⟨_, s', rfl, hs'⟩
        | invocationFailed _ _ _ => exact Or.inl ⟨_, s', rfl, hs'⟩
        | noSpliterator _ => exact Or.inl ⟨_, s', rfl, hs'⟩
        | internal _ => exact Or.inl ⟨_, s', rfl, hs'⟩
      · rw [hattempt]
        exact Or.inr ⟨o, s', rfl, hs'⟩

/-- However a stream answers, it is closed. -/
theorem keeps_extractStream {o n : Nat} (hs : s₀.Keeps s (.stream o n)) (type : String) :
    s₀.Keeps (extractStream type n s).2 (.object o) := by
  have hasked := hs.streamSpliterator
  rw [extractStream]
  generalize s.streamSpliterator n = answer at hasked ⊢
  obtain ⟨e | c, s'⟩ := answer
  · cases e <;> exact hasked.close
  · exact hasked.close

/-- However an object answers, it alone is held afterwards. -/
theorem keeps_extract {o : Nat} (hs : s₀.Keeps s (.object o)) (type method : String) :
    s₀.Keeps (extract type o method s).2 (.object o) := by
  have hasked : s₀.Keeps (s.spliterator o).2 (.object o) := hs.note (Custody.Step.asked o)
  rw [extract]
  generalize s.spliterator o = answer at hasked ⊢
  obtain ⟨_ | c, s'⟩ := answer
  · rcases hasked.invoke method with
      ⟨n, s'', hinvoke, hs''⟩ | ⟨r, s'', hinvoke, hr, hs''⟩ | ⟨e, s'', hinvoke, hs''⟩
    · simp only [hinvoke]
      exact keeps_extractStream hs'' type
    · simp only [hinvoke]
      cases r with
      | stream n => exact absurd rfl (hr n)
      | other t => exact hs''
      | void => exact hs''
    · simp only [hinvoke]
      exact hs''
  · exact hasked

/-- A probe ends with nothing held, on every path. -/
theorem keeps_probe (hs : s₀.Keeps s .nothing) (strategies : List Strategy) (method : String)
    (t : TypeRef) : s₀.Keeps (probe strategies method t s).2 .nothing := by
  rw [probe]
  split
  · exact hs
  · have hloaded := hs.load t.binary
    generalize s.load t.binary = loaded at hloaded ⊢
    obtain ⟨e | d, s'⟩ := loaded
    · exact hloaded
    · simp only
      split
      · exact hloaded
      · rcases keeps_instantiate hloaded d.binaryName strategies with
          ⟨e, s'', hmade, hs''⟩ | ⟨o, s'', hmade, hs''⟩
        · rw [hmade]
          exact hs''
        · rw [hmade]
          exact (keeps_extract hs'' t.binary method).release

end Prober

/-! ### Inference -/

namespace SourceOrder

open Session

variable {s₀ s : Session}

theorem keeps_observe (hs : s₀.Keeps s .nothing) (strategies : List Strategy) (method : String)
    (ts : List TypeRef) :
    s₀.Keeps (observe (Prober.probe strategies method) ts s).2 .nothing := by
  induction ts generalizing s with
  | nil => exact hs
  | cons t ts ih =>
      have hprobe := Prober.keeps_probe hs strategies method t
      rw [observe]
      generalize Prober.probe strategies method t s = probed at hprobe ⊢
      obtain ⟨e | c, s'⟩ := probed
      · exact hprobe
      · have hrest := ih hprobe
        simp only
        generalize observe (Prober.probe strategies method) ts s' = observed at hrest ⊢
        obtain ⟨e | os, s''⟩ := observed
        · exact hrest
        · exact hrest

theorem keeps_infer (s : Session) (strategies : List Strategy) (site : CreationSite)
    (candidates : OrdSet StaticType) :
    s.Keeps (infer site candidates (Prober.probe strategies site.method.name) s).2 .nothing := by
  rw [infer]
  split
  · exact Keeps.start s
  · have hobserved := keeps_observe (Keeps.start s) strategies site.method.name
      (candidates.toList.filterMap StaticType.typeRef?)
    rw [survey]
    generalize observe (Prober.probe strategies site.method.name)
      (candidates.toList.filterMap StaticType.typeRef?) s = observed at hobserved ⊢
    obtain ⟨e | os, s'⟩ := observed
    · exact hobserved
    · simp only
      cases reconcile os with
      | ok o => exact hobserved
      | error e => exact hobserved

open Ledger

/-- An inference by probes, whatever it comes to, gives back all that it was handed.  The objects
    that it releases are those that were made, and the streams that it closes are those that were
    returned, both in the same order.  A stream is closed before the object that it came from is
    released.  A type is looked up, and an object is made, only while nothing is held, so that
    at no time more than one object and one stream are held.  The counts of live objects and
    open streams are what they were. -/
theorem infer_releases (s : Session) (strategies : List Strategy) (site : CreationSite)
    (candidates : OrdSet StaticType) :
    ∃ s' es,
      (infer site candidates (Prober.probe strategies site.method.name) s).2 = s' ∧
      s'.ledger = s.ledger ++ es ∧
      released es = made es ∧ closed es = returned es ∧
      (∀ before later o m n, es = before ++ ⟨.invoke o m, .stream n⟩ :: later →
        ∃ between rest, later = between ++ ⟨.close n, .nothing⟩ :: rest ∧
          released between = [] ∧ o ∈ released rest) ∧
      (∀ before later e, es = before ++ e :: later → e.call.isOpening = true →
        released before = made before ∧ closed before = returned before) ∧
      (∀ before later, es = before ++ later →
        (made before).length ≤ (released before).length + 1 ∧
        (returned before).length ≤ (closed before).length + 1) ∧
      s'.live = s.live ∧ s'.openStreams = s.openStreams := by
  have hkeeps := keeps_infer s strategies site candidates
  obtain ⟨es, hledger, hrun⟩ := hkeeps.ledger
  -- What is made but not yet given back at some point is what is held there.
  have haccounts : ∀ {before : List LedgerEntry} {h : Custody},
      Custody.Run .nothing before h → made before = released before ++ h.objects ∧
        returned before = closed before ++ h.streams :=
    fun hbefore => ⟨hbefore.objects, hbefore.streams⟩
  refine ⟨_, es, rfl, hledger, ?_, ?_, ?_, ?_, ?_, hkeeps.live, hkeeps.openStreams⟩
  · have hobjects := (haccounts hrun).1
    rw [hobjects, Custody.objects, List.append_nil]
  · have hstreams := (haccounts hrun).2
    rw [hstreams, Custody.streams, List.append_nil]
  · intro before later o m n hes
    subst hes
    obtain ⟨h, -, hlater⟩ := hrun.split
    cases hlater with
    | cons hstep hlater =>
        cases hstep with
        | returned _ _ _ =>
            obtain ⟨between, rest, hlater', hnone, hrest⟩ := hlater.closes
            exact ⟨between, rest, hlater', hnone, hrest.releases⟩
  · intro before later e hes hopening
    subst hes
    obtain ⟨h, hbefore, hlater⟩ := hrun.split
    cases hlater with
    | cons hstep _ =>
        obtain rfl := hstep.eq_nothing hopening
        obtain ⟨hobjects, hstreams⟩ := haccounts hbefore
        rw [hobjects, hstreams, Custody.objects, Custody.streams, List.append_nil,
          List.append_nil]
        exact ⟨rfl, rfl⟩
  · intro before later hes
    subst hes
    obtain ⟨h, hbefore, -⟩ := hrun.split
    obtain ⟨hobjects, hstreams⟩ := haccounts hbefore
    have ho := h.length_objects_le
    have hn := h.length_streams_le
    rw [hobjects, hstreams, List.length_append, List.length_append]
    omega

end SourceOrder

end StreamVerdict
