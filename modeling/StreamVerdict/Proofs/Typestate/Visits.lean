/-
  What a solve has to come to.

  Given the sets with which nodes may be left, the walk over a body from a set of states is a
  list of visits: the sets that are met on the way, those that flow into a called node and
  those that flow out of the node itself.  Sets for all nodes are a solution if whatever flows
  is already there.
-/
import Mathlib.Data.Set.Image
import StreamVerdict.Proofs.Typestate.Protocol
import StreamVerdict.Typestate.Solver

namespace StreamVerdict
namespace Typestate

/-! ### Instructions -/

/-- What an instruction of node `n` does to the object: its allocation, or a call on it. -/
def actionAt? (p : Problem) (n : Nat) (x : Node) : Instruction → Option Action
  | .new _ _ site _ =>
    if Instance.allocated x.method site x.context.callString = p.object then some .alloc else none
  | .invoke _ _ args site _ =>
    if !site.kind.isStatic && args.head?.any fun v => p.object ∈ p.graph.pointsTo.get n v then
      some ⟨site.declaredTarget.name⟩
    else none
  | .ret _ _ _ => none

/-- The same as a relation: what an instruction of node `n` does to an object. -/
inductive Acts (g : BuiltGraph) (n : Nat) (x : Node) (o : Instance) :
    Instruction → Action → Prop where
  /-- It allocates the object in the context of the node. -/
  | allocates {k : Nat} {v : ValueNumber} {site : NewSite} {line : UInt32}
      (hobject : Instance.allocated x.method site x.context.callString = o) :
      Acts g n x o (.new k v site line) .alloc
  /-- It calls a method on a value that may be the object. -/
  | calls {k : Nat} {result : Option ValueNumber} {args : List ValueNumber} {site : CallSite}
      {line : UInt32} {v : ValueNumber} (hstatic : site.kind.isStatic = false)
      (hreceiver : args.head? = some v) (hobject : o ∈ g.pointsTo.get n v) :
      Acts g n x o (.invoke k result args site line) ⟨site.declaredTarget.name⟩

theorem actionAt?_eq_some_iff {p : Problem} {n : Nat} {x : Node} {i : Instruction} {a : Action} :
    actionAt? p n x i = some a ↔ Acts p.graph n x p.object i a := by
  constructor
  · intro h
    cases i with
    | new k v site line =>
        simp only [actionAt?, Option.ite_none_right_eq_some, Option.some.injEq] at h
        obtain ⟨hobject, rfl⟩ := h
        exact Acts.allocates hobject
    | invoke k result args site line =>
        simp only [actionAt?, Option.ite_none_right_eq_some, Option.some.injEq, Bool.and_eq_true,
          Bool.not_eq_true', Option.any_eq_true, decide_eq_true_eq] at h
        obtain ⟨⟨hstatic, v, hv, hmay⟩, rfl⟩ := h
        exact Acts.calls hstatic hv hmay
    | ret k value line => cases h
  · intro h
    cases h with
    | allocates hobject => rw [actionAt?, if_pos hobject]
    | calls hstatic hreceiver hobject => simp [actionAt?, hstatic, hreceiver, hobject]

/-- The state of the object after an instruction, whatever the called nodes do. -/
def afterInstruction (p : Problem) (n : Nat) (x : Node) (i : Instruction) (q : State) : State :=
  match actionAt? p n x i with
  | some a => p.protocol.after a q
  | none => q

/-- The nodes that an instruction of node `n` calls, in the order of the walk. -/
def calledBy (p : Problem) (n : Nat) : Instruction → List Nat
  | .new _ _ _ _ => []
  | .invoke _ _ _ site _ => p.graph.graph.targets n site
  | .ret _ _ _ => []

def isReturn : Instruction → Bool
  | .new _ _ _ _ => false
  | .invoke _ _ _ _ _ => false
  | .ret _ _ _ => true

theorem calledBy_eq_nil (p : Problem) (n : Nat) {i : Instruction} (h : isReturn i = true) :
    calledBy p n i = [] := by
  cases i with
  | new _ _ _ _ => rfl
  | invoke _ _ _ _ _ => cases h
  | ret _ _ _ => rfl

/-! ### Walks -/

/-- Sets of states by node. -/
abbrev Sets := Nat → Set State

/-- A set of states that a walk meets. -/
inductive Visit where
  | pass (C : Set State)
  /-- The states flow into a called node. -/
  | enter (callee : Nat) (C : Set State)
  /-- The states flow out of the node. -/
  | leave (C : Set State)

namespace Visit

def states : Visit → Set State
  | pass C => C
  | enter _ C => C
  | leave C => C

/-- What flows is already there. -/
def Agrees (E X : Sets) (n : Nat) : Visit → Prop
  | pass _ => True
  | enter c C => C ⊆ E c
  | leave C => C ⊆ X n

end Visit

/-- The visits of the called nodes one after the other; each adds what it may be left with. -/
def calls (X : Sets) : List Nat → Set State → List Visit
  | [], _ => []
  | c :: cs, C => .enter c C :: calls X cs (C ∪ X c)

/-- The states after the called nodes. -/
def joined (X : Sets) : List Nat → Set State → Set State
  | [], C => C
  | c :: cs, C => joined X cs (C ∪ X c)

/-- The visits of a walk over the rest of a body. -/
def visits (p : Problem) (X : Sets) (n : Nat) (x : Node) :
    List Instruction → Set State → List Visit
  | [], C => [.leave C]
  | i :: is, C =>
    let C' := afterInstruction p n x i '' C
    .pass C :: ((if isReturn i then [.leave C'] else []) ++ calls X (calledBy p n i) C' ++
      visits p X n x is (joined X (calledBy p n i) C'))

/-- Every entry point may be entered with the initial state, and in the walk over the body of
    every node, what flows is already there. -/
structure Solves (p : Problem) (E X : Sets) : Prop where
  initial : ∀ n ∈ p.graph.graph.entrypoints, p.protocol.initial ∈ E n
  walks : ∀ n x b, p.graph.graph.node? n = some x → p.graph.body? n = some b →
    ∀ v ∈ visits p X n x b.instructions (E n), v.Agrees E X n

/-- The states that occur: the initial one, those with which nodes may be entered or left, and
    all that the walks meet. -/
def Occurs (p : Problem) (E X : Sets) (q : State) : Prop :=
  q = p.protocol.initial ∨ (∃ n, q ∈ E n) ∨ (∃ n, q ∈ X n) ∨
    ∃ n x b, p.graph.graph.node? n = some x ∧ p.graph.body? n = some b ∧
      ∃ v ∈ visits p X n x b.instructions (E n), q ∈ v.states

/-- The walk agrees with the sets and meets states of `R` only. -/
def WalkedWithin (p : Problem) (E X : Sets) (R : Set State) (n : Nat) (x : Node)
    (is : List Instruction) (C : Set State) : Prop :=
  ∀ v ∈ visits p X n x is C, v.Agrees E X n ∧ v.states ⊆ R

/-- A solution with a set that all occurring states are in. -/
structure SolvesWithin (p : Problem) (E X : Sets) (R : Set State) : Prop where
  initial : ∀ n ∈ p.graph.graph.entrypoints, p.protocol.initial ∈ E n
  initial_mem : p.protocol.initial ∈ R
  entry_subset : ∀ n, E n ⊆ R
  exit_subset : ∀ n, X n ⊆ R
  walks : ∀ n x b, p.graph.graph.node? n = some x → p.graph.body? n = some b →
    WalkedWithin p E X R n x b.instructions (E n)

theorem Solves.within {p : Problem} {E X : Sets} (h : Solves p E X) :
    SolvesWithin p E X {q | Occurs p E X q} where
  initial := h.initial
  initial_mem := Or.inl rfl
  entry_subset n _ hq := Or.inr (Or.inl ⟨n, hq⟩)
  exit_subset n _ hq := Or.inr (Or.inr (Or.inl ⟨n, hq⟩))
  walks n x b hx hb v hv :=
    ⟨h.walks n x b hx hb v hv, fun _ hq => Or.inr (Or.inr (Or.inr ⟨n, x, b, hx, hb, v, hv, hq⟩))⟩

theorem SolvesWithin.solves {p : Problem} {E X : Sets} {R : Set State}
    (h : SolvesWithin p E X R) : Solves p E X where
  initial := h.initial
  walks n x b hx hb v hv := (h.walks n x b hx hb v hv).1

theorem SolvesWithin.occurs_subset {p : Problem} {E X : Sets} {R : Set State}
    (h : SolvesWithin p E X R) {q : State} (hq : Occurs p E X q) : q ∈ R := by
  rcases hq with rfl | ⟨n, hq⟩ | ⟨n, hq⟩ | ⟨n, x, b, hx, hb, v, hv, hq⟩
  · exact h.initial_mem
  · exact h.entry_subset n hq
  · exact h.exit_subset n hq
  · exact (h.walks n x b hx hb v hv).2 hq

/-! ### Walks step by step -/

section

variable {p : Problem} {E X : Sets} {R : Set State} {n : Nat} {x : Node}

/-- The visits of called nodes agree and meet states of `R` only. -/
def CallsWithin (E X : Sets) (R : Set State) : List Nat → Set State → Prop
  | [], _ => True
  | c :: cs, C => C ⊆ E c ∧ C ⊆ R ∧ CallsWithin E X R cs (C ∪ X c)

theorem forall_mem_calls {cs : List Nat} {C : Set State} :
    (∀ v ∈ calls X cs C, v.Agrees E X n ∧ v.states ⊆ R) ↔ CallsWithin E X R cs C := by
  induction cs generalizing C with
  | nil => simp [calls, CallsWithin]
  | cons c cs ih =>
      rw [calls, List.forall_mem_cons, ih, CallsWithin, ← and_assoc]
      rfl

theorem walkedWithin_nil {C : Set State} :
    WalkedWithin p E X R n x [] C ↔ C ⊆ X n ∧ C ⊆ R := by
  simp [WalkedWithin, visits, Visit.Agrees, Visit.states]

/-- A walk over an instruction: the states before it are known, those after it flow out of the
    node if it is a return and into the nodes that it calls, and the walk goes on. -/
theorem walkedWithin_cons {i : Instruction} {is : List Instruction} {C : Set State} :
    WalkedWithin p E X R n x (i :: is) C ↔
      C ⊆ R ∧
      (isReturn i = true → afterInstruction p n x i '' C ⊆ X n ∧
        afterInstruction p n x i '' C ⊆ R) ∧
      CallsWithin E X R (calledBy p n i) (afterInstruction p n x i '' C) ∧
      WalkedWithin p E X R n x is (joined X (calledBy p n i) (afterInstruction p n x i '' C)) := by
  have hpass : (Visit.pass C).Agrees E X n ∧ (Visit.pass C).states ⊆ R ↔ C ⊆ R :=
    ⟨And.right, fun h => ⟨trivial, h⟩⟩
  rw [WalkedWithin, visits, List.forall_mem_cons, List.forall_mem_append, List.forall_mem_append,
    forall_mem_calls, hpass, and_assoc (a := ∀ _ ∈ _, _)]
  by_cases hret : isReturn i = true
  · simp [hret, Visit.Agrees, Visit.states, WalkedWithin]
  · simp [hret, WalkedWithin]

theorem WalkedWithin.subset {is : List Instruction} {C : Set State}
    (h : WalkedWithin p E X R n x is C) : C ⊆ R := by
  cases is with
  | nil => exact (walkedWithin_nil.mp h).2
  | cons i is => exact (walkedWithin_cons.mp h).1

theorem subset_joined (X : Sets) (cs : List Nat) (C : Set State) : C ⊆ joined X cs C := by
  induction cs generalizing C with
  | nil => exact Set.Subset.rfl
  | cons c cs ih => exact Set.subset_union_left.trans (ih (C ∪ X c))

theorem exit_subset_joined {cs : List Nat} {c : Nat} (hc : c ∈ cs) (C : Set State) :
    X c ⊆ joined X cs C := by
  induction cs generalizing C with
  | nil => cases hc
  | cons d cs ih =>
      rcases List.mem_cons.mp hc with rfl | hc
      · exact Set.subset_union_right.trans (subset_joined X cs (C ∪ X c))
      · exact ih hc (C ∪ X d)

theorem CallsWithin.enters {cs : List Nat} {c : Nat} {C : Set State}
    (h : CallsWithin E X R cs C) (hc : c ∈ cs) : C ⊆ E c := by
  induction cs generalizing C with
  | nil => cases hc
  | cons d cs ih =>
      obtain ⟨henter, -, hrest⟩ := h
      rcases List.mem_cons.mp hc with rfl | hc
      · exact henter
      · exact Set.subset_union_left.trans (ih hrest hc)

theorem joined_congr {X' : Sets} {cs : List Nat} (h : ∀ c ∈ cs, X c = X' c) (C : Set State) :
    joined X cs C = joined X' cs C := by
  induction cs generalizing C with
  | nil => rfl
  | cons c cs ih =>
      rw [joined, joined, h c List.mem_cons_self]
      exact ih (fun d hd => h d (List.mem_cons_of_mem _ hd)) _

theorem CallsWithin.mono {E' X' : Sets} {R' : Set State} {cs : List Nat} {C : Set State}
    (h : CallsWithin E X R cs C) (hE : ∀ m, E m ⊆ E' m) (hR : R ⊆ R')
    (hX : ∀ c ∈ cs, X c = X' c) : CallsWithin E' X' R' cs C := by
  induction cs generalizing C with
  | nil => trivial
  | cons c cs ih =>
      obtain ⟨henter, hmet, hrest⟩ := h
      rw [hX c List.mem_cons_self] at hrest
      exact ⟨henter.trans (hE c), hmet.trans hR,
        ih hrest fun d hd => hX d (List.mem_cons_of_mem _ hd)⟩

/-- A walk that agrees stays one while the sets grow, if the nodes that it calls can be left
    with no more than before. -/
theorem WalkedWithin.mono {E' X' : Sets} {R' : Set State} {is : List Instruction} {C : Set State}
    (h : WalkedWithin p E X R n x is C) (hE : ∀ m, E m ⊆ E' m) (hX : ∀ m, X m ⊆ X' m)
    (hR : R ⊆ R') (hquiet : ∀ i ∈ is, ∀ c ∈ calledBy p n i, X' c ⊆ X c) :
    WalkedWithin p E' X' R' n x is C := by
  induction is generalizing C with
  | nil =>
      rw [walkedWithin_nil] at h ⊢
      exact ⟨h.1.trans (hX n), h.2.trans hR⟩
  | cons i is ih =>
      rw [walkedWithin_cons] at h ⊢
      obtain ⟨hmet, hret, hcalls, hrest⟩ := h
      -- The walk goes on from the same set only because nothing is added at this call.
      have heq : ∀ c ∈ calledBy p n i, X c = X' c :=
        fun c hc => Set.Subset.antisymm (hX c) (hquiet i List.mem_cons_self c hc)
      rw [joined_congr heq] at hrest
      refine ⟨hmet.trans hR, ?_, hcalls.mono hE hR heq, ?_⟩
      · intro hi
        exact ⟨(hret hi).1.trans (hX n), (hret hi).2.trans hR⟩
      · exact ih hrest fun j hj => hquiet j (List.mem_cons_of_mem _ hj)

/-- Nothing flows where there is nothing. -/
theorem walkedWithin_empty (hX : ∀ m, X m = ∅) (is : List Instruction) :
    WalkedWithin p E X R n x is ∅ := by
  have hjoined : ∀ cs : List Nat, joined X cs ∅ = ∅ := by
    intro cs
    induction cs with
    | nil => rfl
    | cons c cs ih => rw [joined, hX c, Set.empty_union, ih]
  have hcalls : ∀ cs : List Nat, CallsWithin E X R cs ∅ := by
    intro cs
    induction cs with
    | nil => trivial
    | cons c cs ih =>
        refine ⟨Set.empty_subset _, Set.empty_subset _, ?_⟩
        rw [hX c, Set.empty_union]
        exact ih
  induction is with
  | nil => exact walkedWithin_nil.mpr ⟨Set.empty_subset _, Set.empty_subset _⟩
  | cons i is ih =>
      rw [walkedWithin_cons, Set.image_empty, hjoined]
      exact ⟨Set.empty_subset _, fun _ => ⟨Set.empty_subset _, Set.empty_subset _⟩, hcalls _, ih⟩

end

end Typestate
end StreamVerdict
