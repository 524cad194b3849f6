/-
  The order of symbol tables.

  An entry is put in its place by value, and in place of an earlier one of the same value.  So
  a table comes back from its entries in whatever order they come, and an entry that is above
  all others is put behind them.  A table that always takes the next value defines the values
  from one to the largest, each once.
-/
import StreamVerdict.Body.Basic
import StreamVerdict.Proofs.Data.OrdSet

namespace StreamVerdict
namespace SymbolTable

variable {entries given : List (ValueNumber × Definition)} {v : ValueNumber} {d : Definition}

theorem insertEntry_of_forall_lt (h : ∀ e ∈ entries, e.1 < v) :
    insertEntry v d entries = entries ++ [(v, d)] := by
  induction entries with
  | nil => rfl
  | cons f entries ih =>
      have hlt : f.1 < v := h f List.mem_cons_self
      rw [insertEntry, if_neg (Nat.lt_asymm hlt), if_neg (Nat.ne_of_gt hlt),
        ih fun e he => h e (List.mem_cons_of_mem f he)]
      rfl

theorem insertEntry_perm (h : v ∉ entries.map Prod.fst) :
    (insertEntry v d entries).Perm ((v, d) :: entries) := by
  induction entries with
  | nil => exact .refl _
  | cons f entries ih =>
      rw [List.map_cons, List.mem_cons, not_or] at h
      rw [insertEntry]
      split
      · exact .refl _
      · rw [if_neg h.1]
        exact ((ih h.2).cons f).trans (.swap (v, d) f entries)

/-- Of distinct values nothing is replaced. -/
theorem sort_perm (h : (given.map Prod.fst).Nodup) : (sort given).Perm given := by
  suffices ∀ sorted : List (ValueNumber × Definition), ((sorted ++ given).map Prod.fst).Nodup →
      (given.foldl (fun sorted e => insertEntry e.1 e.2 sorted) sorted).Perm (sorted ++ given) from
    this [] h
  clear h
  induction given with
  | nil => exact fun sorted _ => by simp
  | cons e given ih =>
      intro sorted hsorted
      have hmiddle : ((e :: sorted) ++ given).Perm (sorted ++ e :: given) :=
        List.perm_middle.symm
      have hnodup := (hmiddle.map Prod.fst).nodup_iff.mpr hsorted
      have hnew : e.1 ∉ sorted.map Prod.fst := by
        rw [List.cons_append, List.map_cons, List.nodup_cons, List.map_append,
          List.mem_append, not_or] at hnodup
        exact hnodup.1.1
      have hinsert : (insertEntry e.1 e.2 sorted ++ given).Perm ((e :: sorted) ++ given) :=
        (insertEntry_perm hnew).append_right given
      exact (ih _ ((hinsert.map Prod.fst).nodup_iff.mpr hnodup)).trans (hinsert.trans hmiddle)

theorem nodup_values (t : SymbolTable) : (t.entries.map Prod.fst).Nodup := by
  rw [List.Nodup, List.pairwise_map]
  exact t.ascending.imp fun hlt => Nat.ne_of_lt hlt

/-- A table comes back from its entries, in whatever order they are given. -/
theorem ofEntries_of_perm {t : SymbolTable} (h : given.Perm t.entries) :
    ofEntries given t.maxValue = t := by
  have hnodup : (given.map Prod.fst).Nodup := (h.map Prod.fst).nodup_iff.mpr t.nodup_values
  have hentries : sort given = t.entries := by
    refine List.Perm.eq_of_pairwise ?_ (pairwise_sort given) t.ascending
      ((sort_perm hnodup).trans h)
    intro e f _ _ hlt hgt
    exact absurd hgt (Nat.lt_asymm hlt)
  obtain ⟨entries, maxValue, hascending⟩ := t
  subst hentries
  rfl

theorem mem_of_mem_sort {e : ValueNumber × Definition} (he : e ∈ sort given) : e ∈ given := by
  refine List.foldlRecOn given _ (motive := fun sorted => ∀ e ∈ sorted, e ∈ given) ?_ ?_ e he
  · exact fun _ hmem => absurd hmem List.not_mem_nil
  · intro sorted hsorted f hf e he
    rcases mem_insertEntry he with rfl | hold
    · exact hf
    · exact hsorted e hold

/-! ### Look-ups -/

theorem lookup_insertEntry (entries : List (ValueNumber × Definition)) (v w : ValueNumber)
    (d : Definition) :
    (insertEntry v d entries).lookup w = if w = v then some d else entries.lookup w := by
  -- The new entry comes first if it is not behind entries of smaller values.
  have hfront : ∀ rest : List (ValueNumber × Definition),
      ((v, d) :: rest).lookup w = if w = v then some d else rest.lookup w := by
    intro rest
    by_cases hw : w = v
    · rw [if_pos hw, hw, List.lookup_cons_self]
    · rw [if_neg hw, lookup_cons_of_ne hw]
  induction entries with
  | nil => exact hfront []
  | cons f entries ih =>
      obtain ⟨u, e⟩ := f
      rw [insertEntry]
      split
      · exact hfront _
      · split
        · next heq =>
          rw [hfront]
          by_cases hw : w = v
          · rw [if_pos hw, if_pos hw]
          · rw [if_neg hw, if_neg hw, lookup_cons_of_ne (heq ▸ hw)]
        · next hne =>
          by_cases hu : w = u
          · have hwv : w ≠ v := fun hw => hne (hw.symm.trans hu)
            rw [hu, List.lookup_cons_self, List.lookup_cons_self, if_neg (hu ▸ hwv)]
          · rw [lookup_cons_of_ne hu, lookup_cons_of_ne hu, ih]

theorem get?_define (t : SymbolTable) (v w : ValueNumber) (d : Definition) :
    (t.define v d).get? w = if w = v then some d else t.get? w :=
  lookup_insertEntry t.entries v w d

/-- The table defines the values from one to the largest, each once. -/
def Gapless (t : SymbolTable) : Prop := t.entries.map Prod.fst = List.range' 1 t.maxValue

namespace Gapless

variable {t : SymbolTable}

theorem empty : SymbolTable.empty.Gapless := rfl

theorem isSome_get?_iff (h : t.Gapless) (v : ValueNumber) :
    (t.get? v).isSome ↔ 1 ≤ v ∧ v ≤ t.maxValue := by
  have hkey : v ∈ t.entries.map Prod.fst ↔ 1 ≤ v ∧ v ≤ t.maxValue := by
    rw [h, List.mem_range'_1]
    exact and_congr_right fun _ => by rw [Nat.add_comm, Nat.lt_succ_iff]
  rw [← hkey, Option.isSome_iff_exists]
  constructor
  · rintro ⟨d, hd⟩
    exact List.mem_map_of_mem (mem_of_lookup hd)
  · intro hmem
    cases hget : t.get? v with
    | some d => exact ⟨d, rfl⟩
    | none => exact absurd hmem (notMem_keys_of_lookup hget)

theorem get?_next (h : t.Gapless) : t.get? (t.maxValue + 1) = none := by
  rw [← Option.not_isSome_iff_eq_none, h.isSome_get?_iff]
  exact fun hle => Nat.not_succ_le_self _ hle.2

theorem maxValue_define (t : SymbolTable) (d : Definition) :
    (t.define (t.maxValue + 1) d).maxValue = t.maxValue + 1 :=
  Nat.max_eq_right (Nat.le_succ _)

/-- The next value leaves no gap. -/
theorem define (h : t.Gapless) (d : Definition) : (t.define (t.maxValue + 1) d).Gapless := by
  have hlast : ∀ e ∈ t.entries, e.1 < t.maxValue + 1 := by
    intro e he
    have hkey : e.1 ∈ t.entries.map Prod.fst := List.mem_map_of_mem he
    rw [h, List.mem_range'_1] at hkey
    rw [Nat.add_comm]
    exact hkey.2
  rw [Gapless, maxValue_define]
  show (insertEntry (t.maxValue + 1) d t.entries).map Prod.fst = _
  rw [insertEntry_of_forall_lt hlast, List.map_append, h, List.range'_1_concat, Nat.add_comm 1]
  rfl

/-- Of a gapless table that takes the next value, what was defined is still defined. -/
theorem get?_define_next (h : t.Gapless) (d e : Definition) (v : ValueNumber) :
    (t.define (t.maxValue + 1) d).get? v = some e ↔
      (v = t.maxValue + 1 ∧ e = d) ∨ t.get? v = some e := by
  rw [get?_define]
  by_cases hv : v = t.maxValue + 1
  · rw [if_pos hv, hv, h.get?_next]
    simp [eq_comm]
  · rw [if_neg hv]
    simp [hv]

end Gapless

end SymbolTable
end StreamVerdict
