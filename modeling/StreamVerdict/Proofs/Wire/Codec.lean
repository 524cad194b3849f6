/-
  Values that come back only if they fit.

  The numbers of a body are bounded by the width in which they are kept.  A codec says for which
  values writing and reading fit together: such values come back from what is written for them,
  in whatever order the members of the objects stand, and whatever is read is such a value.  So
  what is read once is read again from what is written for it.  From a table its entries come
  back, in the order in which they stand.

  What belongs to a choice between records is set aside until the tag is known; it comes back
  unchanged unless it holds an empty object.
-/
import Mathlib.Data.List.Perm.Basic
import StreamVerdict.Proofs.Wire.Lawful

namespace StreamVerdict
namespace Wire

variable {α β ω : Type}

/-! ### Codecs -/

/-- The values that fit come back from what is written for them, rearranged in any way, and only
    such values are read. -/
structure Codec (write : α → Json) (read : Json → Option α) (Fits : α → Prop) : Prop where
  back : ∀ a, Fits a → ∀ j, (write a).Rearranged j → read j = some a
  fits : ∀ j a, read j = some a → Fits a

theorem forall_of_mapM {read : ω → Option α} {Fits : α → Prop}
    (hfits : ∀ w a, read w = some a → Fits a) {ws : List ω} {as : List α}
    (h : ws.mapM read = some as) : ∀ a ∈ as, Fits a := by
  intro a ha
  obtain ⟨w, -, hw⟩ := Json.exists_of_forall₂ (mapM_eq_some_iff.mp h).flip ha
  exact hfits w a hw

namespace Codec

variable {write : α → Json} {read : Json → Option α} {Fits : α → Prop}

theorem natBelow (bound : Nat) : Codec .nat (natBelow bound) fun n => n < bound where
  back n hn j hj := by
    rw [hj.nat_inv]
    exact if_pos hn
  fits j n h := by
    cases j with
    | nat m =>
        rw [Wire.natBelow] at h
        split at h
        · next hm =>
          cases h
          exact hm
        · cases h
    | _ => cases h

theorem word32 : Codec .nat word32 fun n => n < UInt32.size := natBelow UInt32.size

theorem word64 : Codec .nat word64 fun n => n < UInt64.size := natBelow UInt64.size

theorem listOf (hc : Codec write read Fits) :
    Codec (Json.ofList write) (listOf read) fun as => ∀ a ∈ as, Fits a where
  back as has j hj := by
    obtain ⟨ws, rfl, hws⟩ := hj.arr_inv
    exact mapM_of_forall₂ (fun a ha => hc.back a (has a ha)) hws
  fits j as h := by
    cases j with
    | arr items => exact forall_of_mapM hc.fits h
    | _ => cases h

theorem fits_of_optionOf (hc : Codec write read Fits) {j : Json} {o : Option α}
    (h : optionOf read j = some o) : ∀ a ∈ o, Fits a := by
  rintro a rfl
  rw [Wire.optionOf.eq_def] at h
  split at h
  · cases h
  · obtain ⟨b, hb, hsome⟩ := Option.map_eq_some_iff.mp h
    cases hsome
    exact hc.fits _ a hb

/-- A value that may be missing comes back if no value is written as `null`. -/
theorem optionOf_ofOption (hc : Codec write read Fits)
    (hnull : ∀ a, ¬ (write a).Rearranged .null) {o : Option α} (ho : ∀ a ∈ o, Fits a) (j : Json)
    (hj : (Json.ofOption write o).Rearranged j) : optionOf read j = some o := by
  cases o with
  | none =>
      rw [hj.null_inv]
      rfl
  | some a =>
      rw [optionOf.eq_def]
      split
      · exact absurd hj (hnull a)
      · rw [hc.back a (ho a rfl) _ hj, Option.map_some]

/-! What is read from a field fits. -/

variable {r : Record} {name : String}

theorem exists_of_requiredBy {a : α} (h : r.requiredBy read name = some a) :
    ∃ j, read j = some a := by
  rw [Record.requiredBy] at h
  split at h
  · exact ⟨_, h⟩
  · cases h

theorem fits_of_requiredBy (hc : Codec write read Fits) {a : α}
    (h : r.requiredBy read name = some a) : Fits a := by
  obtain ⟨j, hj⟩ := exists_of_requiredBy h
  exact hc.fits j a hj

theorem fits_of_optionalBy (hc : Codec write read Fits) {o : Option α}
    (h : r.optionalBy read name = some o) : ∀ a ∈ o, Fits a := by
  rw [Record.optionalBy] at h
  split at h
  · exact hc.fits_of_optionOf h
  · cases h
    simp
  · cases h

end Codec

/-! ### Tables -/

section Tables

variable {κ : Type} [DecidableEq κ]

/-- With distinct keys nothing is replaced. -/
theorem lastOfEach_of_nodup {entries : List (κ × α)} (hkeys : (entries.map Prod.fst).Nodup) :
    lastOfEach entries = entries := by
  suffices ∀ table : List (κ × α), ((table ++ entries).map Prod.fst).Nodup →
      entries.foldl (fun table e => table.filter (fun old => old.1 ≠ e.1) ++ [e]) table =
        table ++ entries from this [] hkeys
  induction entries with
  | nil => simp
  | cons e entries ih =>
      intro table htable
      have hkeep : table.filter (fun old => old.1 ≠ e.1) = table := by
        refine List.filter_eq_self.mpr ?_
        intro old hold
        rw [List.map_append, List.nodup_append] at htable
        have hne := htable.2.2 old.1 (List.mem_map_of_mem hold) e.1 List.mem_cons_self
        simpa using hne
      rw [List.map_cons, List.nodup_cons] at hkeys
      rw [List.foldl_cons, hkeep, ih hkeys.2 (table ++ [e]) (by simpa using htable)]
      simp

theorem mem_of_mem_lastOfEach {entries : List (κ × α)} {e : κ × α}
    (he : e ∈ lastOfEach entries) : e ∈ entries := by
  refine List.foldlRecOn entries _ (motive := fun table : List (κ × α) =>
    ∀ e ∈ table, e ∈ entries) ?_ ?_ e he
  · exact fun _ he => absurd he List.not_mem_nil
  · intro table hgiven f hf e he
    rcases List.mem_append.mp he with hold | hnew
    · exact hgiven e (List.mem_filter.mp hold).1
    · rw [List.mem_singleton.mp hnew]
      exact hf

end Tables

/-- A number is read from its decimal digits. -/
theorem natural?_decimal (n : Nat) : Text.natural? (Text.decimal n) = some n := by
  have hdigits : (Text.decimal n).all Char.isDigit = true :=
    List.all_eq_true.mpr fun c hc => Json.Token.isDigit_of_mem_decimal hc
  -- A zero in front stands alone.
  have hfront : (Text.decimal n).length = 1 ∨ (Text.decimal n).head?.any (· ≠ '0') = true := by
    obtain ⟨c, ds, hds⟩ := List.exists_cons_of_ne_nil (Json.Token.decimal_ne_nil n)
    by_cases hc : c = '0'
    · subst hc
      rw [hds, Json.Token.decimal_of_head_zero hds]
      exact Or.inl rfl
    · rw [hds]
      exact Or.inr (by simpa using hc)
  have hvalue : Nat.ofDigitChars 10 (Text.decimal n) 0 = n :=
    Nat.ofDigitChars_toDigits (by decide) (by decide)
  rw [Text.natural?, if_pos ⟨hdigits, hfront⟩, hvalue]

/-- From a table with distinct and small keys its entries are read, in whatever order they
    stand. -/
theorem Codec.numberedOf_rearranged {write : α → Json} {read : Json → Option α}
    {Fits : α → Prop} (hc : Codec write read Fits) {bound : Nat} {entries : List (Nat × α)}
    (hkeys : (entries.map Prod.fst).Nodup) (hfits : ∀ e ∈ entries, e.1 < bound ∧ Fits e.2)
    {j : Json}
    (hj : (Json.obj (entries.map fun e =>
      (String.ofList (Text.decimal e.1), write e.2))).Rearranged j) :
    ∃ given, numberedOf bound read j = some given ∧ given.Perm entries := by
  obtain ⟨ns, rfl, ms, hmembers, horder⟩ := hj.obj_inv
  -- Before they are put in another order, the members are read as the entries.
  have hread : ms.mapM (entryOf (number? bound) read) = some entries := by
    refine mapM_of_forall₂ ?_ hmembers
    rintro e he m ⟨hname, hvalue⟩
    have hkey : number? bound m.1 = some e.1 := by
      rw [number?, ← hname, String.toList_ofList, natural?_decimal]
      simpa using (hfits e he).1
    rw [entryOf, hkey, hc.back e.2 (hfits e he).2 m.2 hvalue]
    rfl
  obtain ⟨given, hgiven, hperm⟩ :=
    List.perm_comp_forall₂ horder.symm (mapM_eq_some_iff.mp hread)
  have hnodup : (given.map Prod.fst).Nodup := (hperm.map Prod.fst).nodup_iff.mpr hkeys
  refine ⟨given, ?_, hperm⟩
  show (ns.mapM (entryOf (number? bound) read)).bind (fun es => some (lastOfEach es)) = some given
  rw [mapM_eq_some_iff.mpr hgiven, Option.bind_some, lastOfEach_of_nodup hnodup]

theorem Codec.fits_of_numberedOf {write : α → Json} {read : Json → Option α} {Fits : α → Prop}
    (hc : Codec write read Fits) {bound : Nat} {j : Json} {given : List (Nat × α)}
    (h : numberedOf bound read j = some given) : ∀ e ∈ given, e.1 < bound ∧ Fits e.2 := by
  rw [Wire.numberedOf.eq_def] at h
  split at h
  · cases h
  · obtain ⟨ms, -, hrest⟩ := Option.bind_eq_some_iff.mp h
    obtain ⟨entries, hentries, htable⟩ := Option.bind_eq_some_iff.mp hrest
    cases htable
    have hentry : ∀ m e, entryOf (number? bound) read m = some e → e.1 < bound ∧ Fits e.2 := by
      intro m e he
      obtain ⟨n, hn, hrest⟩ := Option.bind_eq_some_iff.mp he
      obtain ⟨a, ha, hpair⟩ := Option.bind_eq_some_iff.mp hrest
      cases hpair
      exact ⟨of_decide_eq_true (Option.filter_eq_some_iff.mp hn).2, hc.fits m.2 a ha⟩
    exact fun e he => forall_of_mapM hentry hentries e (mem_of_mem_lastOfEach he)

/-! ### What is set aside -/

/-- Values that are the same after they were set aside. -/
def Settled (j : Json) : Prop := j.setAside = some j

/-- Members that are the same after they were set aside. -/
def SettledMembers (ms : List (String × Json)) : Prop := ∀ m ∈ ms, Settled m.2

theorem Settled.nat (n : Nat) : Settled (.nat n) := rfl

theorem setAsideItems_eq_iff {vs : List Json} :
    Json.setAsideItems vs = some vs ↔ ∀ v ∈ vs, Settled v := by
  induction vs with
  | nil => simp [Json.setAsideItems]
  | cons v vs ih =>
      rw [List.forall_mem_cons, ← ih, Json.setAsideItems, Settled]
      cases v.setAside <;> cases Json.setAsideItems vs <;> simp

theorem setAsideMembers_eq_iff {ms : List (String × Json)} :
    Json.setAsideMembers ms = some ms ↔ SettledMembers ms := by
  rw [SettledMembers]
  induction ms with
  | nil => simp [Json.setAsideMembers]
  | cons m ms ih =>
      rw [List.forall_mem_cons, ← ih, Json.setAsideMembers, Settled]
      cases m.2.setAside <;> cases Json.setAsideMembers ms <;> simp [Prod.ext_iff]

theorem settled_arr_iff {vs : List Json} : Settled (.arr vs) ↔ ∀ v ∈ vs, Settled v := by
  rw [← setAsideItems_eq_iff, Settled, Json.setAside]
  cases Json.setAsideItems vs <;> simp

/-- An empty object is not the same after it was set aside. -/
theorem settled_obj_iff {ms : List (String × Json)} :
    Settled (.obj ms) ↔ ms ≠ [] ∧ SettledMembers ms := by
  cases ms with
  | nil => simp [Settled, Json.setAside]
  | cons m ms =>
      rw [← setAsideMembers_eq_iff, Settled, Json.setAside]
      cases Json.setAsideMembers (m :: ms) <;> simp

namespace SettledMembers

variable {name : String} {j : Json} {ms : List (String × Json)}

theorem nil : SettledMembers [] := fun _ hm => absurd hm List.not_mem_nil

theorem cons (hj : Settled j) (h : SettledMembers ms) : SettledMembers ((name, j) :: ms) :=
  List.forall_mem_cons.mpr ⟨hj, h⟩

end SettledMembers

/-- An object with a member is the same after it was set aside. -/
theorem Settled.obj {name : String} {j : Json} {ms : List (String × Json)}
    (h : SettledMembers ((name, j) :: ms)) : Settled (.obj ((name, j) :: ms)) :=
  settled_obj_iff.mpr ⟨List.cons_ne_nil _ _, h⟩

/-- Whether a value is the same after it was set aside does not depend on its order. -/
theorem Settled.rearranged {j k : Json} (hj : Settled j) (h : j.Rearranged k) : Settled k := by
  induction h with
  | same => exact hj
  | @arr vs ws hlength hitems ih =>
      rw [settled_arr_iff] at hj ⊢
      intro w hw
      have hpairs : List.Forall₂ (fun v w => Settled v → Settled w) vs ws :=
        List.forall₂_iff_zip.mpr ⟨hlength, fun hp => ih _ hp⟩
      obtain ⟨v, hv, hvw⟩ := Json.exists_of_forall₂ hpairs.flip hw
      exact hvw (hj v hv)
  | @obj ms ms' ns hnames hvalues horder ih =>
      rw [settled_obj_iff] at hj ⊢
      have hlength : ms.length = ms'.length := by simpa using congrArg List.length hnames
      have hpairs : List.Forall₂ (fun m n => Settled m.2 → Settled n.2) ms ms' :=
        List.forall₂_iff_zip.mpr ⟨hlength, fun hp => ih _ hp⟩
      constructor
      · have hlength' : ms.length = ns.length := hlength.trans horder.length_eq
        rw [← List.length_pos_iff] at hj ⊢
        exact hlength' ▸ hj.1
      · intro n hn
        obtain ⟨m, hm, hmn⟩ := Json.exists_of_forall₂ hpairs.flip (horder.mem_iff.mpr hn)
        exact hmn (hj.2 m hm)

theorem SettledMembers.rearranged {ms ns : List (String × Json)} (h : SettledMembers ms)
    (hns : Json.RearrangedMembers ms ns) : SettledMembers ns := by
  obtain ⟨ms', hmembers, horder⟩ := hns
  intro n hn
  obtain ⟨m, hm, -, hmn⟩ := Json.exists_of_forall₂ hmembers.flip (horder.mem_iff.mpr hn)
  exact (h m hm).rearranged hmn

theorem Settled.ofList {write : α → Json} (h : ∀ a, Settled (write a)) (as : List α) :
    Settled (Json.ofList write as) := by
  refine settled_arr_iff.mpr ?_
  intro v hv
  obtain ⟨a, -, rfl⟩ := List.mem_map.mp hv
  exact h a

theorem Settled.ofOption {write : α → Json} (h : ∀ a, Settled (write a)) (o : Option α) :
    Settled (Json.ofOption write o) := by
  cases o with
  | none => rfl
  | some a => exact h a

/-- A type whose values are written so that they are the same after they were set aside. -/
class SettledWire (α : Type) [Wire α] : Prop where
  settled : ∀ a : α, Settled (encode a)

instance : SettledWire String := ⟨fun _ => rfl⟩

instance : SettledWire UInt32 := ⟨fun _ => rfl⟩

instance [Wire α] [SettledWire α] : SettledWire (List α) := ⟨.ofList SettledWire.settled⟩

/-- The tag is taken from the record, wherever it stands, and the rest of the record is read. -/
theorem bind_untag {tag s : String} {ms : List (String × Json)} {f : String × Json → Option β}
    {b : β} {j : Json} (hnames : (tag :: ms.map Prod.fst).Nodup) (h : SettledMembers ms)
    (hj : (Json.obj ((tag, .text s) :: ms)).Rearranged j)
    (hf : ∀ k, (Json.obj ms).Rearranged k → f (s, k) = some b) : (untag tag j).bind f = some b := by
  obtain ⟨ns, rfl, hns⟩ := hj.obj_inv
  have hcount : ns.countP (fun n => n.1 = tag) ≤ 1 := by
    have hle := List.nodup_iff_count_le_one.mp (hns.names.nodup_iff.mp hnames) tag
    rwa [List.count, List.countP_map] at hle
  have htag : ns.lookup tag = some (.text s) := by
    obtain ⟨w, hw, hrearranged⟩ := hns.lookup_some hnames List.lookup_cons_self
    rw [hw, hrearranged.text_inv]
  have hrest : Json.RearrangedMembers ms (ns.filter fun n => n.1 ≠ tag) := by
    obtain ⟨ms', hmembers, horder⟩ := hns
    cases hmembers with
    | @cons _ m _ ms' hm hms =>
        have hother : ∀ n ∈ ms', n.1 ≠ tag := by
          rintro n hn rfl
          refine (List.nodup_cons.mp hnames).1 ?_
          rw [Json.names_eq_of_forall₂ hms]
          exact List.mem_map_of_mem hn
        refine ⟨ms', hms, ?_⟩
        have hfilter := horder.filter fun n => n.1 ≠ tag
        rwa [List.filter_cons_of_neg (by simp [← hm.1]), List.filter_eq_self.mpr
          (by simpa using hother)] at hfilter
  have huntag : untag tag (.obj ns) = some (s, .obj (ns.filter fun n => n.1 ≠ tag)) := by
    simp only [untag, Json.members?, Option.bind_eq_bind, Option.bind_some, if_pos hcount, htag]
    rw [setAsideMembers_eq_iff.mpr (h.rearranged hrest), Option.map_some]
  rw [huntag, Option.bind_some]
  exact hf _ (.of_members hrest)

end Wire
end StreamVerdict
