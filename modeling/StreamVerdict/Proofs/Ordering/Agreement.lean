/-
  When candidates agree on an order.

  The known candidates are probed one after the other.  The first that fails decides, and nothing
  is probed behind it, even if candidates before it disagree.  If none fails, all have to agree,
  and if there is none, nothing is known.  Candidates of which nothing is known play no part.
-/
import StreamVerdict.Proofs.Data.OrdSet
import StreamVerdict.Proofs.Data.Order
import StreamVerdict.Proofs.Probe.Steady

namespace StreamVerdict
namespace SourceOrder

/-! ### Candidates -/

/-- The types that are known, in the order of the set. -/
def known (candidates : OrdSet StaticType) : List TypeRef :=
  candidates.toList.filterMap StaticType.typeRef?

theorem known_eq_nil_iff {candidates : OrdSet StaticType} :
    known candidates = [] ↔ ∀ c ∈ candidates, c = .top := by
  rw [known, List.filterMap_eq_nil_iff]
  refine forall₂_congr fun c _ => ?_
  cases c <;> simp [StaticType.typeRef?]

theorem known_ne_nil_iff {candidates : OrdSet StaticType} :
    known candidates ≠ [] ↔ ∃ c ∈ candidates, c ≠ .top := by
  rw [Ne, known_eq_nil_iff]
  simp only [Classical.not_forall, exists_prop, ne_eq]

/-- Sets that differ by the lack of information at most have the same known types. -/
theorem known_congr {candidates others : OrdSet StaticType}
    (h : ∀ c, c ≠ .top → (c ∈ others ↔ c ∈ candidates)) : known others = known candidates := by
  -- Without the top the sets have the same members, and so are the same.
  have hfiltered : ∀ s : OrdSet StaticType,
      known s = (s.filter (· ≠ .top)).toList.filterMap StaticType.typeRef? := by
    intro s
    rw [known, OrdSet.filter, List.filterMap_filter]
    congr 1
    funext c
    cases c <;> simp [StaticType.typeRef?]
  have hsame : others.filter (· ≠ .top) = candidates.filter (· ≠ .top) := by
    apply OrdSet.ext
    intro c
    simp only [OrdSet.mem_filter, decide_eq_true_eq]
    constructor
    · rintro ⟨hmem, hne⟩
      exact ⟨(h c hne).mp hmem, hne⟩
    · rintro ⟨hmem, hne⟩
      exact ⟨(h c hne).mpr hmem, hne⟩
  rw [hfiltered, hfiltered, hsame]

/-! ### Agreement -/

/-- All agree on an order, or nothing was observed, or they are inconsistent. -/
theorem reconcile_cases (observed : List (String × SourceOrder)) :
    (observed = [] ∧ reconcile observed = .error .noTypeInformation) ∨
    (∃ o, observed ≠ [] ∧ (∀ x ∈ observed, x.2 = o) ∧ reconcile observed = .ok o) ∨
    (∃ x ∈ observed, ∃ y ∈ observed, x.2 ≠ y.2) ∧
      reconcile observed = .error (.inconsistent (observed.map Prod.fst)) := by
  cases observed with
  | nil => exact Or.inl ⟨rfl, rfl⟩
  | cons x rest =>
      obtain ⟨t, first⟩ := x
      rw [reconcile]
      split
      · next hall =>
        have hsame : ∀ x ∈ (t, first) :: rest, x.2 = first := by simpa using hall
        exact Or.inr (Or.inl ⟨first, List.cons_ne_nil _ _, hsame, rfl⟩)
      · next hnot =>
        obtain ⟨y, hy, hne⟩ : ∃ y ∈ rest, y.2 ≠ first := by simpa using hnot
        exact Or.inr (Or.inr ⟨⟨y, List.mem_cons_of_mem _ hy, (t, first), List.mem_cons_self, hne⟩,
          rfl⟩)

/-! ### One probe after the other -/

variable {σ : Type} {probe : Probe σ} {good : σ → Prop} {s : σ} {ts : List TypeRef}
  {answer : TypeRef → Except (Failure OrderingError) Characteristics}

/-- The state after the types were probed, one after the other. -/
def after (probe : Probe σ) (ts : List TypeRef) (s : σ) : σ :=
  ts.foldl (fun s t => (probe t s).2) s

/-- If no probe fails, all types are probed and observed. -/
theorem Steady.observe_ok (h : Steady probe good answer) {c : TypeRef → Characteristics}
    (hts : ∀ t ∈ ts, answer t = .ok (c t)) (hs : good s) :
    observe probe ts s =
      (.ok (ts.map fun t => (t.binary, (c t).order)), after probe ts s) := by
  induction ts generalizing s with
  | nil => rfl
  | cons t ts ih =>
      have hfirst : probe t s = (.ok (c t), (probe t s).2) :=
        Prod.ext ((h.answers t s hs).trans (hts t List.mem_cons_self)) rfl
      have hrest := ih (fun u hu => hts u (List.mem_cons_of_mem t hu)) (h.keeps t s hs)
      rw [observe, hfirst]
      simp only [hrest]
      rfl

/-- The first probe that fails is the last that is made. -/
theorem Steady.observe_error (h : Steady probe good answer) {before later : List TypeRef}
    {t : TypeRef} {e : Failure OrderingError} (hbefore : ∀ u ∈ before, ∃ c, answer u = .ok c)
    (ht : answer t = .error e) (hs : good s) :
    observe probe (before ++ t :: later) s = (.error e, after probe (before ++ [t]) s) := by
  induction before generalizing s with
  | nil =>
      have hfails : probe t s = (.error e, (probe t s).2) :=
        Prod.ext ((h.answers t s hs).trans ht) rfl
      rw [List.nil_append, observe, hfails]
      rfl
  | cons u before ih =>
      obtain ⟨c, hc⟩ := hbefore u List.mem_cons_self
      have hfirst : probe u s = (.ok c, (probe u s).2) :=
        Prod.ext ((h.answers u s hs).trans hc) rfl
      have hrest := ih (fun w hw => hbefore w (List.mem_cons_of_mem u hw)) (h.keeps u s hs)
      rw [List.cons_append, observe, hfirst]
      simp only [hrest]
      rfl

/-- All types have an answer, or there is a first that fails. -/
theorem answered_or_fails (answer : TypeRef → Except (Failure OrderingError) Characteristics)
    (ts : List TypeRef) :
    (∀ t ∈ ts, ∃ c, answer t = .ok c) ∨
    ∃ before t later e, ts = before ++ t :: later ∧ (∀ u ∈ before, ∃ c, answer u = .ok c) ∧
      answer t = .error e := by
  induction ts with
  | nil => exact Or.inl fun t ht => absurd ht List.not_mem_nil
  | cons t ts ih =>
      cases ht : answer t with
      | error e => exact Or.inr ⟨[], t, ts, e, rfl, fun u hu => absurd hu List.not_mem_nil, ht⟩
      | ok c =>
          rcases ih with hall | ⟨before, u, later, e, rfl, hbefore, hu⟩
          · exact Or.inl (List.forall_mem_cons.mpr ⟨⟨c, ht⟩, hall⟩)
          · exact Or.inr ⟨t :: before, u, later, e, rfl,
              List.forall_mem_cons.mpr ⟨⟨c, ht⟩, hbefore⟩, hu⟩

/-- Types that all have one order do not disagree. -/
theorem not_disagree {o : SourceOrder}
    (hall : ∀ t ∈ ts, ∃ c, answer t = .ok c ∧ c.order = o) :
    ¬ ∃ t ∈ ts, ∃ u ∈ ts, ∃ c d, answer t = .ok c ∧ answer u = .ok d ∧ c.order ≠ d.order := by
  rintro ⟨t, ht, u, hu, c, d, hc, hd, hne⟩
  obtain ⟨c', hc', hcorder⟩ := hall t ht
  obtain ⟨d', hd', hdorder⟩ := hall u hu
  cases hc.symm.trans hc'
  cases hd.symm.trans hd'
  exact hne (hcorder.trans hdorder.symm)

/-! ### Surveys -/

variable {candidates : OrdSet StaticType}

theorem survey_eq (probe : Probe σ) (candidates : OrdSet StaticType) (s : σ) :
    survey probe candidates s =
      match observe probe (known candidates) s with
      | (.error e, s) => (.error e, s)
      | (.ok observed, s) =>
        match reconcile observed with
        | .ok o => (.ok o, s)
        | .error e => (.error (.precondition e), s) := rfl

theorem Steady.survey_error (h : Steady probe good answer) {before later : List TypeRef}
    {t : TypeRef} {e : Failure OrderingError} (hknown : known candidates = before ++ t :: later)
    (hbefore : ∀ u ∈ before, ∃ c, answer u = .ok c) (ht : answer t = .error e) (hs : good s) :
    survey probe candidates s = (.error e, after probe (before ++ [t]) s) := by
  have hobserved : observe probe (known candidates) s = (.error e, after probe (before ++ [t]) s) :=
    hknown ▸ h.observe_error hbefore ht hs
  rw [survey_eq, hobserved]

/-- A survey without a failure comes to what the orders of the known types come to. -/
theorem Steady.survey_ok (h : Steady probe good answer) {c : TypeRef → Characteristics}
    (hall : ∀ t ∈ known candidates, answer t = .ok (c t)) (hs : good s) :
    survey probe candidates s =
      ((reconcile ((known candidates).map fun t => (t.binary, (c t).order))).mapError
        Failure.precondition, after probe (known candidates) s) := by
  rw [survey_eq, h.observe_ok hall hs]
  dsimp only
  cases reconcile ((known candidates).map fun t => (t.binary, (c t).order)) <;> rfl

/-- Whatever the answers are, a survey ends in one of four ways. -/
theorem Steady.survey_cases (h : Steady probe good answer) (hs : good s)
    (candidates : OrdSet StaticType) :
    (∃ before t later e, known candidates = before ++ t :: later ∧
      (∀ u ∈ before, ∃ c, answer u = .ok c) ∧ answer t = .error e ∧
      survey probe candidates s = (.error e, after probe (before ++ [t]) s)) ∨
    (known candidates = [] ∧
      survey probe candidates s = (.error (.precondition .noTypeInformation), s)) ∨
    (∃ o, known candidates ≠ [] ∧ (∀ t ∈ known candidates, ∃ c, answer t = .ok c ∧ c.order = o) ∧
      survey probe candidates s = (.ok o, after probe (known candidates) s)) ∨
    ((∀ t ∈ known candidates, ∃ c, answer t = .ok c) ∧
      (∃ t ∈ known candidates, ∃ u ∈ known candidates, ∃ c d, answer t = .ok c ∧
        answer u = .ok d ∧ c.order ≠ d.order) ∧
      survey probe candidates s =
        (.error (.precondition (.inconsistent ((known candidates).map TypeRef.binary))),
          after probe (known candidates) s)) := by
  rcases answered_or_fails answer (known candidates) with
    hall | ⟨before, t, later, e, hknown, hbefore, ht⟩
  · right
    -- Every known type has an answer, so that only agreement is in question.
    obtain ⟨c, hc⟩ : ∃ c : TypeRef → Characteristics,
        ∀ t ∈ known candidates, answer t = .ok (c t) := by
      refine ⟨fun t => (answer t).toOption.getD ⟨0⟩, fun t ht => ?_⟩
      obtain ⟨x, hx⟩ := hall t ht
      simp [hx, Except.toOption]
    rw [h.survey_ok hc hs]
    rcases reconcile_cases ((known candidates).map fun t => (t.binary, (c t).order)) with
      ⟨hnil, hreconcile⟩ | ⟨o, hne, hsame, hreconcile⟩ | ⟨⟨x, hx, y, hy, hne⟩, hreconcile⟩
    · have hknown := List.map_eq_nil_iff.mp hnil
      rw [hreconcile, hknown]
      exact Or.inl ⟨rfl, rfl⟩
    · rw [hreconcile]
      refine Or.inr (Or.inl ⟨o, fun hnil => hne (List.map_eq_nil_iff.mpr hnil), ?_, rfl⟩)
      intro t ht
      exact ⟨c t, hc t ht, hsame _ (List.mem_map_of_mem ht)⟩
    · obtain ⟨t, ht, rfl⟩ := List.mem_map.mp hx
      obtain ⟨u, hu, rfl⟩ := List.mem_map.mp hy
      rw [hreconcile, List.map_map]
      exact Or.inr (Or.inr ⟨hall, ⟨t, ht, u, hu, c t, c u, hc t ht, hc u hu, hne⟩, rfl⟩)
  · exact Or.inl ⟨before, t, later, e, hknown, hbefore, ht, h.survey_error hknown hbefore ht hs⟩

/-- An order is found if and only if there is a known type and all known types have it. -/
theorem Steady.survey_eq_ok_iff (h : Steady probe good answer) (hs : good s) {o : SourceOrder} :
    (survey probe candidates s).1 = .ok o ↔
      known candidates ≠ [] ∧ ∀ t ∈ known candidates, ∃ c, answer t = .ok c ∧ c.order = o := by
  constructor
  · intro hok
    rcases h.survey_cases hs candidates with ⟨before, t, later, e, -, -, -, hsurvey⟩ |
      ⟨-, hsurvey⟩ | ⟨o', hne, hsame, hsurvey⟩ | ⟨-, -, hsurvey⟩
    · cases hsurvey ▸ hok
    · cases hsurvey ▸ hok
    · cases hsurvey ▸ hok
      exact ⟨hne, hsame⟩
    · cases hsurvey ▸ hok
  · rintro ⟨hne, hall⟩
    rcases h.survey_cases hs candidates with ⟨before, t, later, e, hknown, -, ht, -⟩ |
      ⟨hnil, -⟩ | ⟨o', -, hsame, hsurvey⟩ | ⟨-, hdisagree, -⟩
    · have hmem : t ∈ known candidates := hknown ▸ List.mem_append_right _ List.mem_cons_self
      obtain ⟨c, hc, -⟩ := hall t hmem
      cases ht.symm.trans hc
    · exact absurd hnil hne
    · obtain ⟨t, ht⟩ := List.exists_mem_of_ne_nil _ hne
      obtain ⟨c, hc, rfl⟩ := hall t ht
      obtain ⟨d, hd, rfl⟩ := hsame t ht
      cases hc.symm.trans hd
      rw [hsurvey]
    · exact absurd hdisagree (not_disagree hall)

theorem Steady.survey_disagree (h : Steady probe good answer) (hs : good s)
    (hall : ∀ t ∈ known candidates, ∃ c, answer t = .ok c)
    (hdisagree : ∃ t ∈ known candidates, ∃ u ∈ known candidates, ∃ c d, answer t = .ok c ∧
      answer u = .ok d ∧ c.order ≠ d.order) :
    survey probe candidates s =
      (.error (.precondition (.inconsistent ((known candidates).map TypeRef.binary))),
        after probe (known candidates) s) := by
  rcases h.survey_cases hs candidates with ⟨before, t, later, e, hknown, -, ht, -⟩ |
    ⟨hnil, -⟩ | ⟨o, -, hsame, -⟩ | ⟨-, -, hsurvey⟩
  · have hmem : t ∈ known candidates := hknown ▸ List.mem_append_right _ List.mem_cons_self
    obtain ⟨c, hc⟩ := hall t hmem
    cases ht.symm.trans hc
  · obtain ⟨t, ht, -⟩ := hdisagree
    rw [hnil] at ht
    exact absurd ht List.not_mem_nil
  · exact absurd hdisagree (not_disagree hsame)
  · exact hsurvey

/-! ### Inference -/

theorem ofFactory_ne_unknown (m : MethodBinding) : ofFactory m ≠ unknown := by
  rw [ofFactory]
  split
  · exact SourceOrder.noConfusion
  · exact SourceOrder.noConfusion

theorem order_ne_unknown (c : Characteristics) : c.order ≠ unknown := by
  rw [Characteristics.order]
  split
  · exact SourceOrder.noConfusion
  · exact SourceOrder.noConfusion

/-- Every type that is probed has an order. -/
theorem observe_ne_unknown {probe : Probe σ} {ts : List TypeRef} {s : σ}
    {observed : List (String × SourceOrder)} (h : (observe probe ts s).1 = .ok observed) :
    ∀ o ∈ observed, o.2 ≠ unknown := by
  induction ts generalizing s observed with
  | nil =>
      cases h
      exact fun o ho => absurd ho List.not_mem_nil
  | cons t ts ih =>
      rw [observe] at h
      rcases hprobe : probe t s with ⟨e | c, s'⟩
      · simp [hprobe] at h
      · rcases hrest : observe probe ts s' with ⟨e | rest, s''⟩
        · simp [hprobe, hrest] at h
        · simp only [hprobe, hrest, Except.ok.injEq] at h
          subst h
          rw [List.forall_mem_cons]
          exact ⟨order_ne_unknown c, ih (congrArg Prod.fst hrest)⟩

theorem reconcile_mem {observed : List (String × SourceOrder)} {o : SourceOrder}
    (h : reconcile observed = .ok o) : ∃ t, (t, o) ∈ observed := by
  cases observed with
  | nil => cases h
  | cons first rest =>
      rw [reconcile] at h
      split at h
      · cases h
        exact ⟨first.1, List.mem_cons_self⟩
      · cases h

theorem infer_ne_unknown {site : CreationSite} {candidates : OrdSet StaticType} {probe : Probe σ}
    {s : σ} {o : SourceOrder} (h : (infer site candidates probe s).1 = .ok o) : o ≠ unknown := by
  rw [infer] at h
  split at h
  · cases h
    exact ofFactory_ne_unknown site.method
  · rw [survey] at h
    rcases hobserve : observe probe (candidates.toList.filterMap StaticType.typeRef?) s with
      ⟨e | observed, s'⟩
    · simp [hobserve] at h
    · rcases hreconcile : reconcile observed with e | o'
      · simp [hobserve, hreconcile] at h
      · simp only [hobserve, hreconcile, Except.ok.injEq] at h
        subst h
        obtain ⟨t, ht⟩ := reconcile_mem hreconcile
        exact observe_ne_unknown (congrArg Prod.fst hobserve) _ ht

theorem infer_of_instance {site : CreationSite} (hsite : site.isStatic = false)
    (candidates : OrdSet StaticType) (probe : Probe σ) (s : σ) :
    infer site candidates probe s = survey probe candidates s := by
  rw [infer, hsite]
  rfl

theorem survey_of_known_eq_nil (hknown : known candidates = []) (probe : Probe σ) (s : σ) :
    survey probe candidates s = (.error (.precondition .noTypeInformation), s) := by
  rw [survey_eq, hknown]
  rfl

theorem survey_noProbe {t : TypeRef} {later : List TypeRef}
    (hknown : known candidates = t :: later) (s : σ) :
    survey noProbe candidates s = (.error (.precondition (.cannotExtract t.binary)), s) := by
  rw [survey_eq, hknown]
  rfl

/-- The order of a stream that is created from an object, by a probe whose answers are a function
    of the type.  It is found exactly if some candidate is known and every known candidate has
    this order, and it is never the unknown one.  The first known candidate that fails decides,
    whatever is observed before it, and no candidate behind it is probed.  If none fails but two
    disagree, all known candidates are named.  If none is known, nothing is.  Without a probe the
    first known candidate fails.  Whether the lack of information is itself among the candidates
    makes no difference. -/
theorem infer_outcome (h : Steady probe good answer) {site : CreationSite}
    (hsite : site.isStatic = false) (candidates : OrdSet StaticType) (hs : good s) :
    (∀ o, (infer site candidates probe s).1 = .ok o ↔
      (∃ c ∈ candidates, c ≠ .top) ∧
        ∀ t ∈ known candidates, ∃ c, answer t = .ok c ∧ c.order = o) ∧
    (infer site candidates probe s).1 ≠ .ok .unknown ∧
    (∀ before t later e, known candidates = before ++ t :: later →
      (∀ u ∈ before, ∃ c, answer u = .ok c) → answer t = .error e →
      infer site candidates probe s = (.error e, after probe (before ++ [t]) s)) ∧
    ((∀ t ∈ known candidates, ∃ c, answer t = .ok c) →
      (∃ t ∈ known candidates, ∃ u ∈ known candidates, ∃ c d, answer t = .ok c ∧
        answer u = .ok d ∧ c.order ≠ d.order) →
      infer site candidates probe s =
        (.error (.precondition (.inconsistent ((known candidates).map TypeRef.binary))),
          after probe (known candidates) s)) ∧
    ((∀ c ∈ candidates, c = .top) → ∀ p : Probe σ,
      infer site candidates p s = (.error (.precondition .noTypeInformation), s)) ∧
    (∀ t later, known candidates = t :: later →
      infer site candidates noProbe s = (.error (.precondition (.cannotExtract t.binary)), s)) ∧
    (∀ others : OrdSet StaticType, (∀ c, c ≠ .top → (c ∈ others ↔ c ∈ candidates)) →
      ∀ p : Probe σ, infer site others p s = infer site candidates p s) := by
  simp only [infer_of_instance hsite]
  refine ⟨fun o => ?_, ?_, ?_, ?_, ?_, ?_, ?_⟩
  · rw [h.survey_eq_ok_iff hs, known_ne_nil_iff]
  · rw [← infer_of_instance hsite]
    exact fun hok => infer_ne_unknown hok rfl
  · intro before t later e hknown hbefore ht
    exact h.survey_error hknown hbefore ht hs
  · intro hall hdisagree
    exact h.survey_disagree hs hall hdisagree
  · intro htop p
    exact survey_of_known_eq_nil (known_eq_nil_iff.mpr htop) p s
  · intro t later hknown
    exact survey_noProbe hknown s
  · intro others hsame p
    rw [survey_eq, survey_eq, known_congr hsame]

/-! A shop with a list that is ordered, a bag that is not, and an interface that both implement. -/

namespace Shop

def type (binary : String) : TypeRef := ⟨.application, .ofBinary binary⟩

def list : TypeRef := type "shop.List"

def bag : TypeRef := type "shop.Bag"

def holder : TypeRef := type "shop.Holder"

def catalog : Catalog :=
  ⟨[.ofIterable "shop.List" .zeroArg [Characteristics.ordered],
    .ofIterable "shop.Bag" .bypassOnly [Characteristics.distinct],
    .nonInstantiable .interface "shop.Holder"], by decide⟩

def session : Session := .start catalog []

def main : MethodBinding := ⟨⟨"shop.Main"⟩, "main", [], ⟨"void"⟩, true, .application⟩

def streamOf : MethodBinding :=
  ⟨⟨"shop.Holder"⟩, "stream", [], ⟨"shop.Stream"⟩, false, .application⟩

def site : CreationSite :=
  ⟨⟨"shop"⟩, "Main.java", "holder.stream()", streamOf, some ⟨"shop.Holder"⟩, ⟨"shop.Stream"⟩, 2,
    Span.onLine 2 4 19, ⟨main, Span.onLine 1 0 40⟩⟩

def trial : Probe Session := Prober.probe Strategy.standard streamOf.name

def unanimous : OrdSet StaticType := ⟨[.top, .point list, .cone list], by decide +kernel⟩

def divided : OrdSet StaticType := ⟨[.top, .point bag, .point list], by decide +kernel⟩

def failing : OrdSet StaticType :=
  ⟨[.point bag, .point list, .cone holder, .cone list], by decide +kernel⟩

/-- The divided candidates without the lack of information. -/
def informed : OrdSet StaticType := ⟨[.point bag, .point list], by decide +kernel⟩

theorem answer_list : (trial list session).1 = .ok ⟨Characteristics.ordered⟩ := rfl

theorem answer_bag : (trial bag session).1 = .ok ⟨Characteristics.distinct⟩ := rfl

theorem answer_holder :
    (trial holder session).1 = .error (.precondition (.nonInstantiable "shop.Holder")) := rfl

theorem steady_trial : Steady trial session.Alike fun t => (trial t session).1 :=
  steady_probe Strategy.standard streamOf.name session

/-- The list alone is ordered, the bag and the list disagree, and the interface fails before the
    list is probed once more. -/
theorem infer_outcome_shop :
    site.isStatic = false ∧
    (infer site unanimous trial session).1 = .ok .ordered ∧
    infer site divided trial session =
      (.error (.precondition (.inconsistent ["shop.Bag", "shop.List"])),
        after trial [bag, list] session) ∧
    infer site failing trial session =
      (.error (.precondition (.nonInstantiable "shop.Holder")),
        after trial [bag, list, holder] session) ∧
    infer site divided noProbe session =
      (.error (.precondition (.cannotExtract "shop.Bag")), session) ∧
    infer site informed trial session = infer site divided trial session := by
  have halike : session.Alike session := ⟨rfl, rfl⟩
  have hbag : ∃ c, (trial bag session).1 = .ok c := ⟨_, answer_bag⟩
  have hlist : ∃ c, (trial list session).1 = .ok c := ⟨_, answer_list⟩
  obtain ⟨hunanimous, -⟩ := infer_outcome steady_trial (show site.isStatic = false from rfl)
    unanimous halike
  obtain ⟨-, -, -, hdivided, -, hnone, htop⟩ := infer_outcome steady_trial
    (show site.isStatic = false from rfl) divided halike
  obtain ⟨-, -, hfailing, -⟩ := infer_outcome steady_trial (show site.isStatic = false from rfl)
    failing halike
  refine ⟨rfl, ?_, ?_, ?_, ?_, ?_⟩
  · refine (hunanimous .ordered).mpr ⟨⟨.point list, by decide, by decide⟩, ?_⟩
    have hall : ∀ t ∈ [list, list], t = list := by decide
    intro t ht
    exact ⟨_, hall t ht ▸ answer_list, by decide⟩
  · have hall : ∀ t ∈ [bag, list], ∃ c, (trial t session).1 = .ok c :=
      List.forall_mem_cons.mpr ⟨hbag, List.forall_mem_singleton.mpr hlist⟩
    have hnames : [bag, list].map TypeRef.binary = ["shop.Bag", "shop.List"] := by decide +kernel
    rw [← hnames]
    exact hdivided hall ⟨bag, by decide, list, by decide, _, _, answer_bag, answer_list, by decide⟩
  · exact hfailing [bag, list] holder [list] _ rfl
      (List.forall_mem_cons.mpr ⟨hbag, List.forall_mem_singleton.mpr hlist⟩) answer_holder
  · have hname : bag.binary = "shop.Bag" := by decide +kernel
    rw [← hname]
    exact hnone bag [list] rfl
  · refine htop informed ?_ trial
    intro c hc
    simp [informed, divided, OrdSet.mem_def, hc]

end Shop

end SourceOrder
end StreamVerdict
