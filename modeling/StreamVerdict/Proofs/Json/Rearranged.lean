/-
  JSON values up to the order of members.

  The order in which the members of an object are written says nothing.  A table is written in
  whatever order it has its entries, and a value that is kept before it is written has all its
  members in the order of their names.  Two values are rearranged if they differ in such orders
  only, at whatever depth.  With distinct names, a look-up finds the same member in both.
-/
import Mathlib.Data.List.Forall2
import Mathlib.Data.List.Nodup
import StreamVerdict.Json.Value
import StreamVerdict.Proofs.Data.OrdSet

namespace StreamVerdict
namespace Json

/-- The objects in the second value have the members of those in the first, in any order. -/
inductive Rearranged : Json → Json → Prop where
  | same (j : Json) : Rearranged j j
  | arr {vs ws : List Json} (hlength : vs.length = ws.length)
      (hitems : ∀ p ∈ vs.zip ws, Rearranged p.1 p.2) : Rearranged (arr vs) (arr ws)
  | obj {ms ms' ns : List (String × Json)} (hnames : ms.map Prod.fst = ms'.map Prod.fst)
      (hvalues : ∀ p ∈ ms.zip ms', Rearranged p.1.2 p.2.2) (horder : ms'.Perm ns) :
      Rearranged (obj ms) (obj ns)

/-- Members of the same name, with values that are rearranged. -/
def RearrangedMember (m n : String × Json) : Prop := m.1 = n.1 ∧ Rearranged m.2 n.2

/-- Members that are rearranged one by one and then put in any order. -/
def RearrangedMembers (ms ns : List (String × Json)) : Prop :=
  ∃ ms', List.Forall₂ RearrangedMember ms ms' ∧ ms'.Perm ns

theorem names_eq_of_forall₂ {ms ns : List (String × Json)}
    (h : List.Forall₂ RearrangedMember ms ns) : ms.map Prod.fst = ns.map Prod.fst := by
  rw [← List.forall₂_eq_eq_eq, List.forall₂_map_left_iff, List.forall₂_map_right_iff]
  exact h.imp fun _ _ hmember => hmember.1

namespace Rearranged

variable {j : Json} {vs : List Json} {ms ns : List (String × Json)}

theorem null_inv (h : Rearranged .null j) : j = .null := by
  cases h
  rfl

theorem bool_inv {b : Bool} (h : Rearranged (.bool b) j) : j = .bool b := by
  cases h
  rfl

theorem nat_inv {n : Nat} (h : Rearranged (.nat n) j) : j = .nat n := by
  cases h
  rfl

theorem text_inv {s : String} (h : Rearranged (.text s) j) : j = .text s := by
  cases h
  rfl

theorem arr_inv (h : Rearranged (.arr vs) j) :
    ∃ ws, j = .arr ws ∧ List.Forall₂ Rearranged vs ws := by
  cases h with
  | same => exact ⟨vs, rfl, List.forall₂_same.mpr fun v _ => .same v⟩
  | @arr _ ws hlength hitems =>
      exact ⟨ws, rfl, List.forall₂_iff_zip.mpr ⟨hlength, fun hp => hitems _ hp⟩⟩

theorem obj_inv (h : Rearranged (.obj ms) j) : ∃ ns, j = .obj ns ∧ RearrangedMembers ms ns := by
  cases h with
  | same => exact ⟨ms, rfl, ms, List.forall₂_same.mpr fun m _ => ⟨rfl, .same m.2⟩, .refl ms⟩
  | @obj _ ms' ns hnames hvalues horder =>
      refine ⟨ns, rfl, ms', ?_, horder⟩
      have hlength : ms.length = ms'.length := by simpa using congrArg List.length hnames
      have hsame : List.Forall₂ Eq (ms.map Prod.fst) (ms'.map Prod.fst) := by
        rw [List.forall₂_eq_eq_eq]
        exact hnames
      rw [List.forall₂_map_left_iff, List.forall₂_map_right_iff] at hsame
      refine List.forall₂_iff_zip.mpr ⟨hlength, fun hp => ⟨?_, hvalues _ hp⟩⟩
      exact (List.forall₂_iff_zip.mp hsame).2 hp

theorem of_members (h : RearrangedMembers ms ns) : Rearranged (.obj ms) (.obj ns) := by
  obtain ⟨ms', hmembers, horder⟩ := h
  refine .obj (names_eq_of_forall₂ hmembers) ?_ horder
  exact fun p hp => ((List.forall₂_iff_zip.mp hmembers).2 hp).2

end Rearranged

/-! ### Look-ups -/

theorem exists_of_forall₂ {α β : Type} {R : α → β → Prop} {as : List α} {bs : List β}
    (h : List.Forall₂ R as bs) {a : α} (ha : a ∈ as) : ∃ b ∈ bs, R a b := by
  induction h with
  | nil => cases ha
  | @cons a' b as bs hab _ ih =>
      rcases List.mem_cons.mp ha with rfl | hlater
      · exact ⟨b, List.mem_cons_self, hab⟩
      · obtain ⟨c, hc, hac⟩ := ih hlater
        exact ⟨c, List.mem_cons_of_mem b hc, hac⟩

namespace RearrangedMembers

variable {ms ns : List (String × Json)} {name : String}

theorem names (h : RearrangedMembers ms ns) : (ms.map Prod.fst).Perm (ns.map Prod.fst) := by
  obtain ⟨ms', hmembers, horder⟩ := h
  rw [names_eq_of_forall₂ hmembers]
  exact horder.map Prod.fst

theorem lookup_none (h : RearrangedMembers ms ns) (hnone : ms.lookup name = none) :
    ns.lookup name = none := by
  cases hns : ns.lookup name with
  | none => rfl
  | some w =>
      have hmem : name ∈ ns.map Prod.fst := List.mem_map_of_mem (mem_of_lookup hns)
      exact absurd (h.names.mem_iff.mpr hmem) (notMem_keys_of_lookup hnone)

/-- Of distinct members, the one with a given name is found wherever it stands. -/
theorem lookup_some (h : RearrangedMembers ms ns) (hnames : (ms.map Prod.fst).Nodup) {v : Json}
    (hv : ms.lookup name = some v) : ∃ w, ns.lookup name = some w ∧ Rearranged v w := by
  have hns : (ns.map Prod.fst).Nodup := h.names.nodup_iff.mp hnames
  obtain ⟨ms', hmembers, horder⟩ := h
  obtain ⟨n, hn, hname, hrearranged⟩ := exists_of_forall₂ hmembers (mem_of_lookup hv)
  refine ⟨n.2, lookup_of_mem hns ?_, hrearranged⟩
  have hpair : n = (name, n.2) := Prod.ext hname.symm rfl
  exact horder.mem_iff.mp (hpair ▸ hn)

end RearrangedMembers

/-! ### The order of names -/

mutual

/-- The value with the members of each object in the order of their names. -/
def sorted : Json → Json
  | arr items => arr (sortedItems items)
  | obj ms => obj ((sortedMembers ms).mergeSort fun m n => decide (m.1 ≤ n.1))
  | j => j

def sortedItems : List Json → List Json
  | [] => []
  | v :: vs => sorted v :: sortedItems vs

def sortedMembers : List (String × Json) → List (String × Json)
  | [] => []
  | (name, v) :: ms => (name, sorted v) :: sortedMembers ms

end

mutual

theorem rearranged_sorted : (j : Json) → Rearranged j j.sorted
  | .arr items => by
      rw [sorted]
      have hitems := rearranged_sortedItems items
      rw [List.forall₂_iff_zip] at hitems
      exact .arr hitems.1 fun p hp => hitems.2 hp
  | .obj ms => by
      rw [sorted]
      exact .of_members ⟨_, rearranged_sortedMembers ms, (List.mergeSort_perm _ _).symm⟩
  | .null | .bool _ | .nat _ | .real _ | .text _ | .objEscaped _ | .hollow | .unreadable => by
      rw [sorted]
      · exact .same _
      all_goals nofun

theorem rearranged_sortedItems : (vs : List Json) → List.Forall₂ Rearranged vs (sortedItems vs)
  | [] => by
      rw [sortedItems]
      exact .nil
  | v :: vs => by
      rw [sortedItems]
      exact .cons (rearranged_sorted v) (rearranged_sortedItems vs)

theorem rearranged_sortedMembers :
    (ms : List (String × Json)) → List.Forall₂ RearrangedMember ms (sortedMembers ms)
  | [] => by
      rw [sortedMembers]
      exact .nil
  | (name, v) :: ms => by
      rw [sortedMembers]
      exact .cons ⟨rfl, rearranged_sorted v⟩ (rearranged_sortedMembers ms)

end

end Json
end StreamVerdict
