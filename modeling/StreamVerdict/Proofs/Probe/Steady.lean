/-
  What a probe answers does not depend on what was probed before.

  Two sessions with the same catalog and the same faults answer alike.  They may hand out their
  objects and streams under different numbers, but what stands under the numbers is the same, and
  no answer shows a number.  As a probe changes neither the catalog nor the faults, the answers
  of one probe after the other are a function of the types.
-/
import StreamVerdict.Proofs.Probe.Release

namespace StreamVerdict
namespace Session

variable {s s' : Session} {o o' n n' : Nat}

/-- The descriptor of an object. -/
def described? (s : Session) (o : Nat) : Option TypeDescriptor :=
  (s.objects[o]?).map fun x => x.descriptor

/-- The type that returned a stream, and the characteristics of the stream. -/
def streamed? (s : Session) (n : Nat) : Option (String × Characteristics) :=
  (s.streams[n]?).map fun x => (x.type, x.characteristics)

namespace Alike

theorem trans {s'' : Session} (h : s.Alike s') (h' : s'.Alike s'') : s.Alike s'' :=
  ⟨h'.catalog.trans h.catalog, h'.faults.trans h.faults⟩

theorem note (h : s.Alike s') (call call' : ProbeCall) (grant grant' : Grant) :
    (s.note call grant).Alike (s'.note call' grant') := ⟨h.catalog, h.faults⟩

theorem fault? (h : s.Alike s') (type : String) (point : FaultPoint) :
    s'.fault? type point = s.fault? type point := by
  rw [Session.fault?, Session.fault?, h.faults]

theorem load (h : s.Alike s') (type : String) :
    (s'.load type).1 = (s.load type).1 ∧ (s.load type).2.Alike (s'.load type).2 := by
  rw [Session.load, Session.load, h.fault?, h.catalog]
  cases s.fault? type .load with
  | some e => exact ⟨rfl, h.note _ _ _ _⟩
  | none => exact ⟨rfl, h.note _ _ _ _⟩

/-- New objects of the same descriptor. -/
theorem hand (h : s.Alike s') (d : TypeDescriptor) (call : ProbeCall) :
    ((s.handObject d).note call (.object s.objects.length)).Alike
      ((s'.handObject d).note call (.object s'.objects.length)) ∧
    ((s'.handObject d).note call (.object s'.objects.length)).described? s'.objects.length =
      ((s.handObject d).note call (.object s.objects.length)).described? s.objects.length := by
  refine ⟨⟨h.catalog, h.faults⟩, ?_⟩
  simp only [described?, Session.note, Session.handObject, List.getElem?_concat_length,
    Option.map_some]

/-- Both refuse for the same reason, or both hand out an object of the same descriptor. -/
theorem make (h : s.Alike s') (call : ProbeCall) (type : String) (point : FaultPoint)
    (refusal? : TypeDescriptor → Option String) :
    (∃ e t t', s.make call type point refusal? = (.error e, t) ∧
      s'.make call type point refusal? = (.error e, t') ∧ t.Alike t') ∨
    ∃ o o' t t', s.make call type point refusal? = (.ok o, t) ∧
      s'.make call type point refusal? = (.ok o', t') ∧ t.Alike t' ∧
      t'.described? o' = t.described? o := by
  have hnote := h.note call call .nothing .nothing
  have hload : s'.catalog.load type = s.catalog.load type := by rw [h.catalog]
  rw [Session.make, Session.make, h.fault?, hload]
  cases s.fault? type point with
  | some e => exact Or.inl ⟨e, _, _, rfl, rfl, hnote⟩
  | none =>
      cases s.catalog.load type with
      | error e => exact Or.inl ⟨e, _, _, rfl, rfl, hnote⟩
      | ok d =>
          cases hrefusal : refusal? d with
          | some reason =>
              refine Or.inl ⟨.constructionFailed d.binaryName reason, _, _, ?_, ?_, hnote⟩
              · simp only [hrefusal]
              · simp only [hrefusal]
          | none =>
              obtain ⟨halike, hdescribed⟩ := h.hand d call
              refine Or.inr ⟨_, _, _, _, ?_, ?_, halike, hdescribed⟩
              · simp only [hrefusal]
              · simp only [hrefusal]

theorem attempt (h : s.Alike s') (strategy : Strategy) (type : String) :
    (∃ e t t', strategy.attempt s type = (.error e, t) ∧
      strategy.attempt s' type = (.error e, t') ∧ t.Alike t') ∨
    ∃ o o' t t', strategy.attempt s type = (.ok o, t) ∧
      strategy.attempt s' type = (.ok o', t') ∧ t.Alike t' ∧ t'.described? o' = t.described? o := by
  cases strategy with
  | zeroArg => exact h.make _ type .construct _
  | bypass => exact h.make _ type .allocate _

/-- A call of a method of the same descriptor: both return a stream of the same kind, or the
    answers are the same. -/
theorem invoke (h : s.Alike s') (ho : s'.described? o' = s.described? o) (method : String) :
    (∃ n n' t t', s.invoke o method = (.ok (.stream n), t) ∧
      s'.invoke o' method = (.ok (.stream n'), t') ∧ t.Alike t' ∧
      t'.streamed? n' = t.streamed? n) ∨
    ∃ r t t', s.invoke o method = (r, t) ∧ s'.invoke o' method = (r, t') ∧
      ∀ n, r ≠ .ok (.stream n) := by
  rw [described?, described?] at ho
  rw [Session.invoke, Session.invoke]
  cases hx : s.objects[o]? with
  | none =>
      have hx' : s'.objects[o']? = none := by simpa [hx] using ho
      simp only [hx']
      exact Or.inr ⟨_, _, _, rfl, rfl, fun n => by simp⟩
  | some x =>
      obtain ⟨x', hx', hdescriptor⟩ : ∃ x', s'.objects[o']? = some x' ∧
          x'.descriptor = x.descriptor := by simpa [hx] using ho
      simp only [hx', hdescriptor, h.fault?]
      cases s.fault? x.descriptor.binaryName .invoke with
      | some e => exact Or.inr ⟨_, _, _, rfl, rfl, fun n => by simp⟩
      | none =>
          rcases x.descriptor.methods.lookup method with _ | (c | t | _ | reason)
          · exact Or.inr ⟨_, _, _, rfl, rfl, fun n => by simp⟩
          · refine Or.inl ⟨s.streams.length, s'.streams.length, _, _, rfl, rfl,
              ⟨h.catalog, h.faults⟩, ?_⟩
            simp only [streamed?, Session.note, Session.handStream, List.getElem?_concat_length,
              Option.map_some]
          · exact Or.inr ⟨_, _, _, rfl, rfl, fun n => by simp⟩
          · exact Or.inr ⟨_, _, _, rfl, rfl, fun n => by simp⟩
          · exact Or.inr ⟨_, _, _, rfl, rfl, fun n => by simp⟩

theorem streamSpliterator (h : s.Alike s') (hn : s'.streamed? n' = s.streamed? n) :
    (s'.streamSpliterator n').1 = (s.streamSpliterator n).1 := by
  rw [streamed?, streamed?] at hn
  rw [Session.streamSpliterator, Session.streamSpliterator]
  cases hx : s.streams[n]? with
  | none =>
      have hx' : s'.streams[n']? = none := by simpa [hx] using hn
      simp only [hx']
  | some x =>
      obtain ⟨x', hx', htype, hcharacteristics⟩ : ∃ x', s'.streams[n']? = some x' ∧
          x'.type = x.type ∧ x'.characteristics = x.characteristics := by simpa [hx] using hn
      simp only [hx', htype, hcharacteristics, h.fault?]
      cases s.fault? x.type .stream with
      | some e => rfl
      | none => rfl

end Alike
end Session

namespace Prober

open Session

variable {s s' : Session} {o o' n n' : Nat}

/-- The strategies fail alike, or make objects of the same descriptor. -/
theorem alike_instantiate (h : s.Alike s') (type : String) (strategies : List Strategy) :
    (∃ e t t', instantiate type strategies s = (.error e, t) ∧
      instantiate type strategies s' = (.error e, t')) ∨
    ∃ o o' t t', instantiate type strategies s = (.ok o, t) ∧
      instantiate type strategies s' = (.ok o', t') ∧ t.Alike t' ∧
      t'.described? o' = t.described? o := by
  induction strategies generalizing s s' with
  | nil => exact Or.inl ⟨_, s, s', rfl, rfl⟩
  | cons strategy strategies ih =>
      rw [instantiate, instantiate]
      rcases h.attempt strategy type with
        ⟨e, t, t', hs, hs', ht⟩ | ⟨o, o', t, t', hs, hs', ht, ho⟩
      · rw [hs, hs']
        -- Both go on to the next strategy, or neither does.
        cases e with
        | constructionFailed _ _ => exact ih ht
        | typeNotFound _ => exact Or.inl ⟨_, t, t', rfl, rfl⟩
        | invocationFailed _ _ _ => exact Or.inl ⟨_, t, t', rfl, rfl⟩
        | noSpliterator _ => exact Or.inl ⟨_, t, t', rfl, rfl⟩
        | internal _ => exact Or.inl ⟨_, t, t', rfl, rfl⟩
      · rw [hs, hs']
        exact Or.inr ⟨o, o', t, t', rfl, rfl, ht, ho⟩

/-- What is made of the answer of a stream. -/
theorem extractStream_fst (type : String) (n : Nat) (s : Session) :
    (extractStream type n s).1 = match (s.streamSpliterator n).1 with
      | .ok c => .ok c
      | .error (.noSpliterator _) => .error (.precondition (.cannotExtract type))
      | .error e => .error (extractionFailure type e) := by
  rw [extractStream]
  generalize s.streamSpliterator n = answer
  obtain ⟨e | c, t⟩ := answer
  · cases e <;> rfl
  · rfl

theorem alike_extract (h : s.Alike s') (ho : s'.described? o' = s.described? o)
    (type method : String) :
    (extract type o' method s').1 = (extract type o method s).1 := by
  have hiterable : ∀ (s : Session) (o : Nat), (s.spliterator o).1 =
      (s.described? o).bind fun d => d.iterable := by
    intro s o
    rw [spliterator, described?, Option.bind_map]
    rfl
  have hasked : (s'.spliterator o').1 = (s.spliterator o).1 := by rw [hiterable, hiterable, ho]
  have hsame : (s.spliterator o).2.Alike (s'.spliterator o').2 := h.note _ _ _ _
  have hdescribed : (s'.spliterator o').2.described? o' = (s.spliterator o).2.described? o := ho
  rw [extract, extract]
  generalize s.spliterator o = answer at hasked hsame hdescribed ⊢
  generalize s'.spliterator o' = answer' at hasked hsame hdescribed ⊢
  obtain ⟨c, t⟩ := answer
  obtain ⟨c', t'⟩ := answer'
  obtain rfl : c' = c := hasked
  cases c' with
  | some c => rfl
  | none =>
      -- Neither object is iterable, so that both are asked for a stream.
      rcases hsame.invoke hdescribed method with
        ⟨n, n', u, u', hs, hs', hu, hn⟩ | ⟨r, u, u', hs, hs', hr⟩
      · simp only [hs, hs', extractStream_fst, hu.streamSpliterator hn]
      · simp only [hs, hs']
        rcases r with e | (m | t | _)
        · rfl
        · exact absurd rfl (hr m)
        · rfl
        · rfl

/-- Sessions with the same catalog and the same faults answer a probe alike. -/
theorem alike_probe (h : s.Alike s') (strategies : List Strategy) (method : String) (t : TypeRef) :
    (probe strategies method t s').1 = (probe strategies method t s).1 := by
  rw [probe, probe]
  split
  · rfl
  · obtain ⟨hloaded, hsame⟩ := h.load t.binary
    generalize s.load t.binary = loaded at hloaded hsame ⊢
    generalize s'.load t.binary = loaded' at hloaded hsame ⊢
    obtain ⟨l, u⟩ := loaded
    obtain ⟨l', u'⟩ := loaded'
    obtain rfl : l' = l := hloaded
    cases l' with
    | error e => rfl
    | ok d =>
        simp only
        split
        · rfl
        · rcases alike_instantiate hsame d.binaryName strategies with
            ⟨e, w, w', hs, hs'⟩ | ⟨o, o', w, w', hs, hs', hw, ho⟩
          · rw [hs, hs']
          · rw [hs, hs']
            exact alike_extract hw ho t.binary method

end Prober

/-! ### Probes whose answers are a function of the type -/

namespace SourceOrder

variable {σ : Type}

/-- From good states the answer of the probe is a function of the type, and states stay good. -/
structure Steady (probe : Probe σ) (good : σ → Prop)
    (answer : TypeRef → Except (Failure OrderingError) Characteristics) : Prop where
  answers : ∀ t s, good s → (probe t s).1 = answer t
  keeps : ∀ t s, good s → good (probe t s).2

/-- The answers in a session are those that it gives at first. -/
theorem steady_probe (strategies : List Strategy) (method : String) (s₀ : Session) :
    Steady (Prober.probe strategies method) s₀.Alike
      fun t => (Prober.probe strategies method t s₀).1 where
  answers := fun t _ hs => Prober.alike_probe hs strategies method t
  keeps := fun t s hs =>
    hs.trans (Prober.keeps_probe (Session.Keeps.start s) strategies method t).alike

end SourceOrder
end StreamVerdict
