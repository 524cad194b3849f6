/-
  What a probe finds can be read off a descriptor.

  A strategy makes an object of a type unless the descriptor refuses it, and the next strategy is
  tried only after a refusal.  The object knows its descriptor, so that what is asked of it is
  answered by the descriptor again.  If no call is set up to fail, a probe is therefore a function
  of the catalog, and the one thing that is fatal is that the catalog does not have the type.
-/
import StreamVerdict.Proofs.Probe.Steady

namespace StreamVerdict

/-! ### Reading a descriptor -/

namespace TypeDescriptor

/-- Objects of the type can be made, by a constructor or without. -/
def IsConstructible (d : TypeDescriptor) : Prop := d.kind = .concrete ∧ d.construction ≠ .none

instance (d : TypeDescriptor) : Decidable d.IsConstructible :=
  inferInstanceAs (Decidable (_ ∧ _))

/-- The characteristics of the type's own spliterator, or else of the streams of a method. -/
def characteristics? (d : TypeDescriptor) (method : String) : Option Characteristics :=
  match d.iterable with
  | some c => some c
  | none =>
    match d.methods.lookup method with
    | some (.stream c) => some c
    | _ => none

/-- Only concrete classes have objects of their own. -/
theorem isInstantiable_iff {k : TypeKind} : k.isInstantiable = true ↔ k = .concrete := by
  rw [TypeKind.isInstantiable, decide_eq_true_eq]

theorem constructRefusal?_eq_none_iff {d : TypeDescriptor} :
    d.constructRefusal? = none ↔ d.kind = .concrete ∧ d.construction = .zeroArg := by
  rw [← isInstantiable_iff, constructRefusal?]
  cases d.kind.isInstantiable with
  | false => simp
  | true => cases d.construction <;> simp

theorem allocateRefusal?_eq_none_iff {d : TypeDescriptor} :
    d.allocateRefusal? = none ↔ d.IsConstructible := by
  rw [IsConstructible, ← isInstantiable_iff, allocateRefusal?, ite_eq_left_iff]
  simp

end TypeDescriptor

namespace Catalog

/-- What is to be said of a type whose objects are asked for a stream by a method. -/
def reading (c : Catalog) (method : String) (t : TypeRef) :
    Except (Failure OrderingError) Characteristics :=
  if t.name.isPrimitive ∨ t.name.isArray then .error (.precondition (.nonIterable t.binary))
  else
    match c.descriptor? t.binary with
    | none => .error (.fatal (ProbeError.typeNotFound t.binary).toAnalysisError)
    | some d =>
      if d.IsConstructible then
        match d.characteristics? method with
        | some c => .ok c
        | none => .error (.precondition (.cannotExtract t.binary))
      else .error (.precondition (.nonInstantiable t.binary))

theorem binaryName_of_descriptor? {c : Catalog} {name : String} {d : TypeDescriptor}
    (h : c.descriptor? name = some d) : d.binaryName = name := by
  simpa using List.find?_some h

theorem load_eq_ok_iff {c : Catalog} {name : String} {d : TypeDescriptor} :
    c.load name = .ok d ↔ c.descriptor? name = some d := by
  rw [load]
  cases c.descriptor? name <;> simp

end Catalog

/-! ### Calls without faults -/

namespace Session

variable {s : Session} {type method : String} {d : TypeDescriptor} {o n : Nat}

theorem fault?_eq_none (hs : s.faults = []) (type : String) (point : FaultPoint) :
    s.fault? type point = none := by
  rw [fault?, hs]
  rfl

theorem load_fst (hs : s.faults = []) (type : String) : (s.load type).1 = s.catalog.load type := by
  rw [Session.load, fault?_eq_none hs]

theorem alike_load (s : Session) (type : String) : s.Alike (s.load type).2 := by
  rw [Session.load]
  cases s.fault? type .load with
  | some e => exact ⟨rfl, rfl⟩
  | none => exact ⟨rfl, rfl⟩

/-- A type is found only if the catalog has it. -/
theorem descriptor?_of_load (h : (s.load type).1 = .ok d) :
    s.catalog.descriptor? type = some d := by
  rw [Session.load] at h
  cases hfault : s.fault? type .load with
  | some e => simp [hfault] at h
  | none =>
      simp only [hfault] at h
      exact Catalog.load_eq_ok_iff.mp h

/-- Nothing is made and nothing else happens, unless the type has a descriptor that does not
    refuse. -/
theorem make_cases (s : Session) (call : ProbeCall) (type : String) (point : FaultPoint)
    (refusal? : TypeDescriptor → Option String) :
    (∃ e, s.make call type point refusal? = (.error e, s.note call .nothing)) ∨
    ∃ d, s.catalog.descriptor? type = some d ∧ refusal? d = none := by
  rw [Session.make]
  cases s.fault? type point with
  | some e => exact Or.inl ⟨e, rfl⟩
  | none =>
      cases hload : s.catalog.load type with
      | error e => exact Or.inl ⟨e, rfl⟩
      | ok d =>
          cases hrefusal : refusal? d with
          | some reason =>
              refine Or.inl ⟨.constructionFailed d.binaryName reason, ?_⟩
              simp only [hrefusal]
          | none => exact Or.inr ⟨d, Catalog.load_eq_ok_iff.mp hload, hrefusal⟩

theorem make_of_refusal (hs : s.faults = []) (hd : s.catalog.descriptor? type = some d)
    {refusal? : TypeDescriptor → Option String} {reason : String} (h : refusal? d = some reason)
    (call : ProbeCall) (point : FaultPoint) :
    s.make call type point refusal? =
      (.error (.constructionFailed d.binaryName reason), s.note call .nothing) := by
  rw [Session.make, fault?_eq_none hs, Catalog.load_eq_ok_iff.mpr hd]
  simp only [h]

theorem make_of_no_refusal (hs : s.faults = []) (hd : s.catalog.descriptor? type = some d)
    {refusal? : TypeDescriptor → Option String} (h : refusal? d = none) (call : ProbeCall)
    (point : FaultPoint) :
    ∃ o s', s.make call type point refusal? = (.ok o, s') ∧ s'.faults = [] ∧
      s'.described? o = some d := by
  refine ⟨s.objects.length, (s.handObject d).note call (.object s.objects.length), ?_, hs, ?_⟩
  · rw [Session.make, fault?_eq_none hs, Catalog.load_eq_ok_iff.mpr hd]
    simp only [h]
  · simp only [described?, Session.note, Session.handObject, List.getElem?_concat_length,
      Option.map_some]

end Session

/-! ### Making an object -/

namespace Strategy

/-- Why an object cannot be made in this way. -/
def refusal? : Strategy → TypeDescriptor → Option String
  | zeroArg => TypeDescriptor.constructRefusal?
  | bypass => TypeDescriptor.allocateRefusal?

/-- Either way needs a concrete class with some way to be made. -/
theorem isConstructible_of_refusal? {st : Strategy} {d : TypeDescriptor}
    (h : st.refusal? d = none) : d.IsConstructible := by
  cases st with
  | zeroArg =>
      obtain ⟨hkind, hconstruction⟩ := TypeDescriptor.constructRefusal?_eq_none_iff.mp h
      refine ⟨hkind, ?_⟩
      rw [hconstruction]
      exact Constructibility.noConfusion
  | bypass => exact TypeDescriptor.allocateRefusal?_eq_none_iff.mp h

theorem attempt_eq_make (st : Strategy) (s : Session) (type : String) :
    ∃ call point, st.attempt s type = s.make call type point st.refusal? := by
  cases st with
  | zeroArg => exact ⟨.construct type, .construct, rfl⟩
  | bypass => exact ⟨.allocate type, .allocate, rfl⟩

end Strategy

namespace Prober

variable {s : Session} {type method : String} {d : TypeDescriptor} {o n : Nat}
  {strategies : List Strategy}

/-- If an object is made, the descriptor does not refuse one of the strategies.  Calls may be set up
    to fail. -/
theorem exists_strategy_of_instantiate (h : (instantiate type strategies s).1 = .ok o) :
    ∃ st ∈ strategies, ∃ d, s.catalog.descriptor? type = some d ∧ st.refusal? d = none := by
  induction strategies generalizing s with
  | nil => cases h
  | cons st strategies ih =>
      obtain ⟨call, point, hattempt⟩ := st.attempt_eq_make s type
      rw [instantiate, hattempt] at h
      rcases s.make_cases call type point st.refusal? with
        ⟨e, hmake⟩ | ⟨d, hd, hrefusal⟩
      · rw [hmake] at h
        -- Only a failed construction leaves the question to the other strategies.
        cases e with
        | constructionFailed _ _ =>
            obtain ⟨st', hst', hmade⟩ := ih h
            exact ⟨st', List.mem_cons_of_mem st hst', hmade⟩
        | typeNotFound _ => cases h
        | invocationFailed _ _ _ => cases h
        | noSpliterator _ => cases h
        | internal _ => cases h
      · exact ⟨st, List.mem_cons_self, d, hd, hrefusal⟩

/-- An object is made by the first strategy that the descriptor does not refuse. -/
theorem instantiate_of_no_refusal (hs : s.faults = []) (hd : s.catalog.descriptor? type = some d)
    (h : ∃ st ∈ strategies, st.refusal? d = none) :
    ∃ o s', instantiate type strategies s = (.ok o, s') ∧ s'.faults = [] ∧
      s'.described? o = some d := by
  induction strategies generalizing s with
  | nil =>
      obtain ⟨st, hst, -⟩ := h
      exact absurd hst List.not_mem_nil
  | cons st strategies ih =>
      obtain ⟨call, point, hattempt⟩ := st.attempt_eq_make s type
      rw [instantiate, hattempt]
      cases hrefusal : st.refusal? d with
      | none =>
          obtain ⟨o, s', hmake, hs', ho⟩ := Session.make_of_no_refusal hs hd hrefusal call point
          exact ⟨o, s', by rw [hmake], hs', ho⟩
      | some reason =>
          have hlater : ∃ st ∈ strategies, st.refusal? d = none := by
            obtain ⟨st', hst', hnone⟩ := h
            rcases List.mem_cons.mp hst' with rfl | hst'
            · rw [hnone] at hrefusal
              cases hrefusal
            · exact ⟨st', hst', hnone⟩
          rw [Session.make_of_refusal hs hd hrefusal call point]
          exact ih hs hd hlater

/-- Nothing is made if the descriptor refuses every strategy, which is not fatal. -/
theorem instantiate_of_refusal (hs : s.faults = []) (hd : s.catalog.descriptor? type = some d)
    (h : ∀ st ∈ strategies, st.refusal? d ≠ none) :
    ∃ s', instantiate type strategies s = (.error (.precondition (.nonInstantiable type)), s') := by
  induction strategies generalizing s with
  | nil => exact ⟨s, rfl⟩
  | cons st strategies ih =>
      obtain ⟨call, point, hattempt⟩ := st.attempt_eq_make s type
      obtain ⟨reason, hrefusal⟩ := Option.ne_none_iff_exists'.mp (h st List.mem_cons_self)
      rw [instantiate, hattempt, Session.make_of_refusal hs hd hrefusal call point]
      exact ih hs hd fun st' hst' => h st' (List.mem_cons_of_mem st hst')

/-- The two standard strategies come to an object just if there is a way to make one. -/
theorem exists_standard_iff {d : TypeDescriptor} :
    (∃ st ∈ Strategy.standard, st.refusal? d = none) ↔ d.IsConstructible := by
  constructor
  · rintro ⟨st, -, hrefusal⟩
    exact Strategy.isConstructible_of_refusal? hrefusal
  · intro hd
    exact ⟨.bypass, by decide, TypeDescriptor.allocateRefusal?_eq_none_iff.mpr hd⟩

/-! ### Asking the object -/

/-- A stream that an object returns has the characteristics that the descriptor gives it. -/
theorem extract_eq (hs : s.faults = []) (ho : s.described? o = some d) (type method : String) :
    (extract type o method s).1 =
      match d.characteristics? method with
      | some c => .ok c
      | none => .error (.precondition (.cannotExtract type)) := by
  obtain ⟨x, hx, rfl⟩ := Option.map_eq_some_iff.mp ho
  rw [extract, Session.spliterator, hx, TypeDescriptor.characteristics?]
  simp only [Option.bind_some]
  cases x.descriptor.iterable with
  | some c => rfl
  | none =>
      have hnote : (s.note (.spliterator o) .nothing).objects[o]? = some x := hx
      have hfault : ∀ point, (s.note (.spliterator o) .nothing).fault? x.descriptor.binaryName
          point = none := Session.fault?_eq_none hs _
      simp only [Session.invoke, hnote, hfault]
      rcases x.descriptor.methods.lookup method with _ | (c | t | _ | reason)
      · rfl
      · -- The stream that was handed out last is the one that is asked.
        simp only [extractStream_fst, Session.streamSpliterator, Session.note, Session.handStream,
          Session.fault?, hs, List.getElem?_concat_length, List.find?_nil, Option.map_none]
      · rfl
      · rfl
      · rfl

/-! ### Probes -/

/-- A type whose probe succeeds is in the catalog, and objects of it can be made.  Calls may be set
    up to fail. -/
theorem exists_descriptor_of_probe {t : TypeRef} {c : Characteristics}
    (h : (probe strategies method t s).1 = .ok c) :
    ∃ d, s.catalog.descriptor? t.binary = some d ∧ d.IsConstructible := by
  rw [probe] at h
  split at h
  · cases h
  · have hload : ∀ d, (s.load t.binary).1 = .ok d → s.catalog.descriptor? t.binary = some d :=
      fun d => Session.descriptor?_of_load
    have hsame := s.alike_load t.binary
    generalize s.load t.binary = loaded at h hload hsame
    obtain ⟨e | d, s'⟩ := loaded
    · cases h
    · have hd := hload d rfl
      simp only at h
      split at h
      · cases h
      · rcases hmade : instantiate d.binaryName strategies s' with ⟨e | o, s''⟩
        · rw [hmade] at h
          cases h
        · obtain ⟨st, -, d', hd', hrefusal⟩ :=
            exists_strategy_of_instantiate (congrArg Prod.fst hmade)
          rw [hsame.catalog, Catalog.binaryName_of_descriptor? hd] at hd'
          exact ⟨d', hd', Strategy.isConstructible_of_refusal? hrefusal⟩

/-- A probe answers what is to be read off the catalog. -/
theorem probe_fst (hs : s.faults = []) (method : String) (t : TypeRef) :
    (probe Strategy.standard method t s).1 = s.catalog.reading method t := by
  rw [probe, Catalog.reading]
  by_cases hname : t.name.isPrimitive = true ∨ t.name.isArray = true
  · rw [if_pos hname, if_pos (by simpa using hname)]
  · rw [if_neg hname, if_neg (by simpa using hname)]
    have hload := Session.load_fst hs t.binary
    have hsame := s.alike_load t.binary
    generalize s.load t.binary = loaded at hload hsame
    obtain ⟨l, s'⟩ := loaded
    obtain rfl : l = s.catalog.load t.binary := hload
    have hs' : s'.faults = [] := hsame.faults.trans hs
    rw [Catalog.load]
    cases hd : s.catalog.descriptor? t.binary with
    | none => rfl
    | some d =>
        have hd' : s'.catalog.descriptor? d.binaryName = some d := by
          rw [hsame.catalog, Catalog.binaryName_of_descriptor? hd, hd]
        simp only
        by_cases hconstructible : d.IsConstructible
        · -- An object of this descriptor is made, and what it is asked the descriptor answers.
          have hkind : ¬ d.kind.isInstantiable = false := by
            rw [Bool.not_eq_false, TypeDescriptor.isInstantiable_iff]
            exact hconstructible.1
          obtain ⟨o, s'', hmade, hs'', ho⟩ :=
            instantiate_of_no_refusal hs' hd' (exists_standard_iff.mpr hconstructible)
          rw [if_neg hkind, if_pos hconstructible, hmade]
          exact extract_eq hs'' ho t.binary method
        · rw [if_neg hconstructible]
          split
          · rfl
          · -- A concrete class of which no object can be made.
            have hrefused : ∀ st ∈ Strategy.standard, st.refusal? d ≠ none := by
              intro st hst hnone
              exact hconstructible (exists_standard_iff.mp ⟨st, hst, hnone⟩)
            obtain ⟨s'', hmade⟩ := instantiate_of_refusal hs' hd' hrefused
            rw [hmade, Catalog.binaryName_of_descriptor? hd]

end Prober

/-! ### Errors of a reading -/

namespace Catalog

variable {c : Catalog} {method : String} {t : TypeRef}

/-- Whatever the program lacks is told of the type by its name. -/
theorem precondition_of_reading {e : OrderingError}
    (h : c.reading method t = .error (.precondition e)) :
    e ∈ [OrderingError.nonIterable t.binary, .nonInstantiable t.binary,
      .cannotExtract t.binary] := by
  rw [reading] at h
  split at h
  · cases h
    simp
  · split at h
    · cases h
    · split at h
      · split at h
        · cases h
        · cases h
          simp
      · cases h
        simp

/-- Nothing but the lack of the type is fatal. -/
theorem fatal_of_reading {e : AnalysisError} (h : c.reading method t = .error (.fatal e)) :
    c.descriptor? t.binary = none ∧ e = (ProbeError.typeNotFound t.binary).toAnalysisError := by
  rw [reading] at h
  split at h
  · cases h
  · split at h
    · next hnone =>
      cases h
      exact ⟨hnone, rfl⟩
    · split at h
      · split at h
        · cases h
        · cases h
      · cases h

end Catalog

namespace Prober

/-- A probe in a session where no call is set up to fail answers what is to be read off the
    catalog, whatever was probed before.  What the program lacks is told of the type that is
    probed, and the probe is fatal only because the catalog does not have that type. -/
theorem probe_eq_reading {s : Session} (hs : s.faults = []) (method : String) (t : TypeRef) :
    (probe Strategy.standard method t s).1 = s.catalog.reading method t ∧
    (∀ e, (probe Strategy.standard method t s).1 = .error (.precondition e) →
      e ∈ [OrderingError.nonIterable t.binary, .nonInstantiable t.binary,
        .cannotExtract t.binary]) ∧
    (∀ e, (probe Strategy.standard method t s).1 = .error (.fatal e) →
      s.catalog.descriptor? t.binary = none ∧ e.kind = .probe ∧
        e = (ProbeError.typeNotFound t.binary).toAnalysisError) := by
  rw [probe_fst hs]
  refine ⟨rfl, fun e => Catalog.precondition_of_reading, ?_⟩
  intro e he
  obtain ⟨hnone, rfl⟩ := Catalog.fatal_of_reading he
  exact ⟨hnone, rfl, rfl⟩

/-! A till that is made without a constructor and hands out its slips as a stream, a safe that
cannot be made, and a counter that is an interface. -/

namespace Tills

def type (binary : String) : TypeRef := ⟨.application, .ofBinary binary⟩

def catalog : Catalog :=
  ⟨[⟨"shop.Till", .concrete, .bypassOnly, none,
      [("slips", .stream ⟨Characteristics.ordered⟩), ("total", .returns "shop.Sum"),
        ("jam", .throws "stuck")]⟩,
    ⟨"shop.Safe", .concrete, .none, some ⟨Characteristics.ordered⟩, []⟩,
    .nonInstantiable .interface "shop.Counter"], by decide⟩

/-- The session after a first probe of the till. -/
def session : Session :=
  (probe Strategy.standard "slips" (type "shop.Till") (.start catalog [])).2

/-- The till has an object of its own number by now, and still answers as at first. -/
theorem probe_eq_reading_tills :
    session.faults = [] ∧
    (probe Strategy.standard "slips" (type "shop.Till") session).1 =
      .ok ⟨Characteristics.ordered⟩ ∧
    (∀ method ∈ ["total", "jam", "close"],
      (probe Strategy.standard method (type "shop.Till") session).1 =
        .error (.precondition (.cannotExtract "shop.Till"))) ∧
    (probe Strategy.standard "slips" (type "shop.Safe") session).1 =
      .error (.precondition (.nonInstantiable "shop.Safe")) ∧
    (probe Strategy.standard "slips" (type "shop.Safe[]") session).1 =
      .error (.precondition (.nonIterable "shop.Safe[]")) ∧
    (probe Strategy.standard "slips" (type "shop.Cart") session).1 =
      .error (.fatal (ProbeError.typeNotFound "shop.Cart").toAnalysisError) := by
  have hs : session.faults = [] := by decide +kernel
  have hreading : ∀ method t, (probe Strategy.standard method t session).1 =
      session.catalog.reading method t := fun method t => (probe_eq_reading hs method t).1
  simp only [hreading]
  refine ⟨hs, rfl, ?_, rfl, rfl, rfl⟩
  intro method hmethod
  simp only [List.mem_cons, List.not_mem_nil, or_false] at hmethod
  rcases hmethod with rfl | rfl | rfl
  · rfl
  · rfl
  · rfl

end Tills
end Prober
end StreamVerdict
