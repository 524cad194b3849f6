/-
  What is held at each point of a ledger.

  A prober holds nothing, or one object, or one object and one stream that the object returned.
  The rules below say which calls may be made in which of these situations and what is held
  afterwards.  A ledger that keeps the rules from nothing to nothing gives back whatever it was
  handed, each stream before the object that it came from.
-/
import StreamVerdict.Probe.Session

namespace StreamVerdict

/-! ### What entries of a ledger hand out and give back -/

namespace LedgerEntry

/-- The object that was made by the call. -/
def made? : LedgerEntry → Option Nat
  | ⟨.construct _, .object o⟩ => some o
  | ⟨.allocate _, .object o⟩ => some o
  | _ => none

/-- The object that was given back by the call. -/
def released? : LedgerEntry → Option Nat
  | ⟨.release o, _⟩ => some o
  | _ => none

/-- The stream that was returned by the call. -/
def returned? : LedgerEntry → Option Nat
  | ⟨.invoke _ _, .stream n⟩ => some n
  | _ => none

/-- The stream that was given back by the call. -/
def closed? : LedgerEntry → Option Nat
  | ⟨.close n, _⟩ => some n
  | _ => none

end LedgerEntry

/-- A call that begins something new: a type is looked up, or an object is to be made. -/
def ProbeCall.isOpening : ProbeCall → Bool
  | load _ => true
  | construct _ => true
  | allocate _ => true
  | _ => false

namespace Ledger

/-- The objects that were made, by a constructor or without. -/
def made (es : List LedgerEntry) : List Nat := es.filterMap LedgerEntry.made?

/-- The objects that were given back. -/
def released (es : List LedgerEntry) : List Nat := es.filterMap LedgerEntry.released?

/-- The streams that were returned. -/
def returned (es : List LedgerEntry) : List Nat := es.filterMap LedgerEntry.returned?

/-- The streams that were given back. -/
def closed (es : List LedgerEntry) : List Nat := es.filterMap LedgerEntry.closed?

end Ledger

/-! ### Rules -/

/-- What is held. -/
inductive Custody where
  | nothing
  | object (o : Nat)
  /-- An object and a stream that it returned. -/
  | stream (o n : Nat)

namespace Custody

/-- The objects that are held. -/
def objects : Custody → List Nat
  | nothing => []
  | object o => [o]
  | stream o _ => [o]

/-- The streams that are held. -/
def streams : Custody → List Nat
  | nothing => []
  | object _ => []
  | stream _ n => [n]

/-- Calls that keep the rules.  Something new begins only while nothing is held, and an object is
    given back only while no stream is held. -/
inductive Step : Custody → LedgerEntry → Custody → Prop where
  | loaded (t : String) : Step nothing ⟨.load t, .nothing⟩ nothing
  | notConstructed (t : String) : Step nothing ⟨.construct t, .nothing⟩ nothing
  | notAllocated (t : String) : Step nothing ⟨.allocate t, .nothing⟩ nothing
  | constructed (t : String) (o : Nat) : Step nothing ⟨.construct t, .object o⟩ (object o)
  | allocated (t : String) (o : Nat) : Step nothing ⟨.allocate t, .object o⟩ (object o)
  | asked (o : Nat) : Step (object o) ⟨.spliterator o, .nothing⟩ (object o)
  | invoked (o : Nat) (m : String) : Step (object o) ⟨.invoke o m, .nothing⟩ (object o)
  | returned (o : Nat) (m : String) (n : Nat) :
      Step (object o) ⟨.invoke o m, .stream n⟩ (stream o n)
  | streamAsked (o n : Nat) : Step (stream o n) ⟨.streamSpliterator n, .nothing⟩ (stream o n)
  | closed (o n : Nat) : Step (stream o n) ⟨.close n, .nothing⟩ (object o)
  | released (o : Nat) : Step (object o) ⟨.release o, .nothing⟩ nothing

/-- Entries one after the other that all keep the rules. -/
inductive Run : Custody → List LedgerEntry → Custody → Prop where
  | nil (h : Custody) : Run h [] h
  | cons {h h' h'' : Custody} {e : LedgerEntry} {es : List LedgerEntry} (hstep : Step h e h')
      (hrun : Run h' es h'') : Run h (e :: es) h''

variable {h h' h'' : Custody} {e : LedgerEntry} {es later : List LedgerEntry}

theorem Run.append (hrun : Run h es h') (hlater : Run h' later h'') :
    Run h (es ++ later) h'' := by
  induction hrun with
  | nil _ => exact hlater
  | cons hstep _ ih => exact Run.cons hstep (ih hlater)

theorem Run.single (hstep : Step h e h') : Run h [e] h' := Run.cons hstep (Run.nil h')

/-- A run can be looked at between any two entries. -/
theorem Run.split (hrun : Run h (es ++ later) h'') : ∃ h', Run h es h' ∧ Run h' later h'' := by
  induction es generalizing h with
  | nil => exact ⟨h, Run.nil h, hrun⟩
  | cons e es ih =>
      cases hrun with
      | cons hstep hrest =>
          obtain ⟨h', hes, hlater⟩ := ih hrest
          exact ⟨h', Run.cons hstep hes, hlater⟩

/-! ### Accounts -/

theorem Step.objects (hstep : Step h e h') :
    h.objects ++ e.made?.toList = e.released?.toList ++ h'.objects := by
  cases hstep <;> rfl

theorem Step.streams (hstep : Step h e h') :
    h.streams ++ e.returned?.toList = e.closed?.toList ++ h'.streams := by
  cases hstep <;> rfl

theorem filterMap_cons_toList {α β : Type} (f : α → Option β) (a : α) (as : List α) :
    (a :: as).filterMap f = (f a).toList ++ as.filterMap f := by
  rw [List.filterMap_cons]
  cases f a <;> rfl

/-- If every step balances what comes in against what goes out and what is held, so does a
    run. -/
theorem Run.balance {held : Custody → List Nat} {out back : LedgerEntry → Option Nat}
    (hbalance : ∀ {h e h'}, Step h e h' → held h ++ (out e).toList = (back e).toList ++ held h')
    (hrun : Run h es h') : held h ++ es.filterMap out = es.filterMap back ++ held h' := by
  induction hrun with
  | nil h => simp
  | @cons h h₁ h₂ e es hstep _ ih =>
      calc held h ++ (e :: es).filterMap out
          = held h ++ (out e).toList ++ es.filterMap out := by
            rw [filterMap_cons_toList, List.append_assoc]
        _ = (back e).toList ++ (held h₁ ++ es.filterMap out) := by
            rw [hbalance hstep, List.append_assoc]
        _ = (e :: es).filterMap back ++ held h₂ := by
            rw [ih, filterMap_cons_toList, List.append_assoc]

/-- The objects that were held or made have been given back, in the same order, or are held. -/
theorem Run.objects (hrun : Run h es h') :
    h.objects ++ Ledger.made es = Ledger.released es ++ h'.objects :=
  hrun.balance Step.objects

/-- The streams that were held or returned have been given back, in the same order, or are
    held. -/
theorem Run.streams (hrun : Run h es h') :
    h.streams ++ Ledger.returned es = Ledger.closed es ++ h'.streams :=
  hrun.balance Step.streams

theorem length_objects_le (h : Custody) : h.objects.length ≤ 1 := by
  cases h <;> simp [Custody.objects]

theorem length_streams_le (h : Custody) : h.streams.length ≤ 1 := by
  cases h <;> simp [Custody.streams]

/-! ### Order -/

/-- Something new begins only while nothing is held. -/
theorem Step.eq_nothing (hstep : Step h e h') (he : e.call.isOpening = true) : h = nothing := by
  cases hstep with
  | loaded _ => rfl
  | notConstructed _ => rfl
  | notAllocated _ => rfl
  | constructed _ _ => rfl
  | allocated _ _ => rfl
  | asked _ => cases he
  | invoked _ _ => cases he
  | returned _ _ _ => cases he
  | streamAsked _ _ => cases he
  | closed _ _ => cases he
  | released _ => cases he

/-- A stream that is held is closed before anything is released. -/
theorem Run.closes {o n : Nat} (hrun : Run (stream o n) es nothing) :
    ∃ between rest, es = between ++ ⟨.close n, .nothing⟩ :: rest ∧
      Ledger.released between = [] ∧ Run (object o) rest nothing := by
  generalize hh : stream o n = h, hend : nothing = h' at hrun
  induction hrun with
  | nil h =>
      subst hh
      cases hend
  | @cons h h₁ h₂ e es hstep hrest ih =>
      subst hh
      cases hstep with
      | streamAsked _ _ =>
          obtain ⟨between, rest, hes, hnone, hafter⟩ := ih rfl hend
          refine ⟨⟨.streamSpliterator n, .nothing⟩ :: between, rest, ?_, ?_, hafter⟩
          · rw [hes, List.cons_append]
          · rw [Ledger.released, filterMap_cons_toList]
            exact hnone
      | closed _ _ =>
          subst hend
          exact ⟨[], es, rfl, rfl, hrest⟩

/-- An object that is held is released. -/
theorem Run.releases {o : Nat} (hrun : Run (object o) es nothing) : o ∈ Ledger.released es := by
  have haccount : [o] ++ Ledger.made es = Ledger.released es ++ [] := hrun.objects
  rw [List.append_nil] at haccount
  rw [← haccount]
  exact List.mem_append_left _ (List.mem_singleton.mpr rfl)

end Custody

end StreamVerdict
