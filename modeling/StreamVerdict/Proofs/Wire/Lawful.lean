/-
  Types whose values come back from their JSON values.

  They come back in whatever order the members of the objects are written.  A record comes back
  if its fields do: each field is given once, under its name, and is found there again.  A case
  of an enumeration comes back if no other case has its name.
-/
import StreamVerdict.Json.Wire
import StreamVerdict.Proofs.Json.Rearranged
import StreamVerdict.Proofs.Json.RoundTrip

namespace StreamVerdict

/-- A type whose values are decoded from what they are encoded to, with the members of objects
    in any order. -/
class LawfulWire (α : Type) [Wire α] : Prop where
  decode_rearranged : ∀ (a : α) (j : Json), (Wire.encode a).Rearranged j → Wire.decode j = some a

/-- A type whose values can be written, with a bound on how deep they are nested. -/
class WritableWire (α : Type) [Wire α] where
  height : Nat
  writable : ∀ a : α, Json.Writable height (Wire.encode a)

namespace Wire

open LawfulWire WritableWire

variable {α : Type}

/-! ### Texts, numbers and lists -/

instance : LawfulWire Bool where
  decode_rearranged b j hj := by
    rw [hj.bool_inv]
    rfl

instance : WritableWire Bool := ⟨0, fun _ => .bool⟩

instance : LawfulWire String where
  decode_rearranged s j hj := by
    rw [hj.text_inv]
    rfl

instance : WritableWire String := ⟨0, fun _ => .text⟩

instance : LawfulWire UInt32 where
  decode_rearranged n j hj := by
    rw [hj.nat_inv]
    show (natBelow UInt32.size (.nat n.toNat)).map UInt32.ofNat = some n
    rw [natBelow, if_pos n.toNat_lt, Option.map_some, UInt32.ofNat_toNat]

instance : WritableWire UInt32 where
  height := 0
  writable n := .nat (Nat.lt_trans n.toNat_lt (by decide))

/-- Items are read one by one. -/
theorem mapM_eq_some_iff {ω : Type} {read : ω → Option α} {ws : List ω} {as : List α} :
    ws.mapM read = some as ↔ List.Forall₂ (fun w a => read w = some a) ws as := by
  induction ws generalizing as with
  | nil =>
      rw [List.forall₂_nil_left_iff, List.mapM_nil]
      exact Option.some_inj.trans eq_comm
  | cons w ws ih =>
      rw [List.mapM_cons, List.forall₂_cons_left_iff]
      constructor
      · intro h
        obtain ⟨a, ha, hrest⟩ := Option.bind_eq_some_iff.mp h
        obtain ⟨bs, hbs, hcons⟩ := Option.bind_eq_some_iff.mp hrest
        cases hcons
        exact ⟨a, bs, ha, ih.mp hbs, rfl⟩
      · rintro ⟨a, bs, ha, hbs, rfl⟩
        rw [ha, ih.mpr hbs]
        rfl

/-- Values come back one by one from what stands for them. -/
theorem mapM_of_forall₂ {ω : Type} {write : α → ω} {read : ω → Option α} {R : ω → ω → Prop}
    {as : List α} {ws : List ω} (hback : ∀ a ∈ as, ∀ w, R (write a) w → read w = some a)
    (h : List.Forall₂ R (as.map write) ws) : ws.mapM read = some as := by
  rw [List.forall₂_map_left_iff, List.forall₂_iff_zip] at h
  refine mapM_eq_some_iff.mpr (List.Forall₂.flip (List.forall₂_iff_zip.mpr ⟨h.1, ?_⟩))
  intro a w hp
  exact hback a (List.of_mem_zip hp).1 w (h.2 hp)

instance [Wire α] [LawfulWire α] : LawfulWire (List α) where
  decode_rearranged as j hj := by
    obtain ⟨ws, rfl, hws⟩ := hj.arr_inv
    exact mapM_of_forall₂ (fun a _ => decode_rearranged a) hws

instance [Wire α] [WritableWire α] : WritableWire (List α) where
  height := height α + 1
  writable as := by
    refine .arr ?_
    intro v hv
    obtain ⟨a, -, rfl⟩ := List.mem_map.mp hv
    exact writable a

/-! ### Enumerations -/

/-- A case is found by its name, if the names of the cases are distinct. -/
theorem oneOf_name {all : List α} {name : α → String} (hnames : (all.map name).Nodup) {a : α}
    (ha : a ∈ all) {j : Json} (hj : (Json.text (name a)).Rearranged j) :
    oneOf (all.map fun a => (name a, a)) j = some a := by
  rw [hj.text_inv]
  show (all.map fun a => (name a, a)).lookup (name a) = some a
  refine lookup_of_mem ?_ (List.mem_map_of_mem ha)
  rw [List.map_map]
  exact hnames

/-! ### Records -/

namespace Record

variable {names : List String} {ms : List (String × Json)} {name : String}

/-- The record that an object with the given members is read as. -/
def ofMembers (names : List String) (ms : List (String × Json)) : Record :=
  ⟨names.map fun name => (name, slotIn ms name)⟩

theorem read_obj (hnames : (ms.map Prod.fst).Nodup) :
    read names (.obj ms) = some (ofMembers names ms) := by
  have hcount : ∀ name, ms.countP (fun m => m.1 = name) ≤ 1 := by
    intro name
    have hle := List.nodup_iff_count_le_one.mp hnames name
    rwa [List.count, List.countP_map] at hle
  have hall : (names.all fun name => ms.countP (fun m => m.1 = name) ≤ 1) = true :=
    List.all_eq_true.mpr fun name _ => decide_eq_true (hcount name)
  simp only [read, Json.members?, Option.bind_eq_bind, Option.bind_some, hall, if_true]
  rfl

theorem slot_ofMembers (hname : name ∈ names) :
    (ofMembers names ms).slot name = slotIn ms name := by
  have hlookup : (names.map fun n => (n, slotIn ms n)).lookup name = some (slotIn ms name) := by
    induction names with
    | nil => cases hname
    | cons n names ih =>
        rw [List.map_cons]
        by_cases hn : name = n
        · subst hn
          exact List.lookup_cons_self
        · rw [lookup_cons_of_ne hn]
          exact ih ((List.mem_cons.mp hname).resolve_left hn)
  rw [slot, ofMembers, hlookup]
  rfl

theorem slot_given {v : Json} (hname : name ∈ names) (hv : ms.lookup name = some v) :
    (ofMembers names ms).slot name = .given v := by
  rw [slot_ofMembers hname, slotIn, hv]

theorem slot_omitted (hname : name ∈ names) (hnone : ms.lookup name = none) :
    (ofMembers names ms).slot name = .omitted := by
  rw [slot_ofMembers hname, slotIn, hnone]

/-- The second members are the first, which are distinct, rearranged. -/
structure Reordered (ms ns : List (String × Json)) : Prop where
  distinct : (ms.map Prod.fst).Nodup
  members : Json.RearrangedMembers ms ns

/-! A record is read field by field; after each field the rest is read. -/

section Fields

variable {β : Type} {b : β} {ns : List (String × Json)} {j : Json}

/-- The members are fields of the record, each at most once. -/
theorem bind_read {f : Record → Option β} (hfields : (ms.map Prod.fst).Sublist names)
    (hnames : names.Nodup) (hj : (Json.obj ms).Rearranged j)
    (hf : ∀ ns, Reordered ms ns → f (ofMembers names ns) = some b) :
    (read names j).bind f = some b := by
  obtain ⟨ns, rfl, hns⟩ := hj.obj_inv
  have hms : (ms.map Prod.fst).Nodup := hnames.sublist hfields
  rw [read_obj (hns.names.nodup_iff.mp hms), Option.bind_some, hf ns ⟨hms, hns⟩]

variable {f : α → Option β} {a : α} {v : Json} {g : Json → Option α}

/-- What is read from the field may depend on its order, if the rest evens that out. -/
theorem bind_requiredBy_of_forall (hns : Reordered ms ns) (hname : name ∈ names)
    (hv : ms.lookup name = some v) (hg : ∀ w, v.Rearranged w → (g w).bind f = some b) :
    ((ofMembers names ns).requiredBy g name).bind f = some b := by
  obtain ⟨w, hw, hvw⟩ := hns.members.lookup_some hns.distinct hv
  rw [requiredBy, slot_given hname hw]
  exact hg w hvw

theorem bind_requiredBy (hns : Reordered ms ns) (hname : name ∈ names)
    (hv : ms.lookup name = some v) (hg : ∀ w, v.Rearranged w → g w = some a)
    (hf : f a = some b) : ((ofMembers names ns).requiredBy g name).bind f = some b := by
  refine bind_requiredBy_of_forall hns hname hv ?_
  intro w hw
  rw [hg w hw, Option.bind_some, hf]

theorem bind_optionalBy {f : Option α → Option β} {o : Option α} (hns : Reordered ms ns)
    (hname : name ∈ names) (hv : ms.lookup name = some v)
    (hg : ∀ w, v.Rearranged w → optionOf g w = some o) (hf : f o = some b) :
    ((ofMembers names ns).optionalBy g name).bind f = some b := by
  obtain ⟨w, hw, hvw⟩ := hns.members.lookup_some hns.distinct hv
  rw [optionalBy, slot_given hname hw]
  show (optionOf g w).bind f = some b
  rw [hg w hvw, Option.bind_some, hf]

variable [Wire α]

theorem bind_required [LawfulWire α] (hns : Reordered ms ns) (hname : name ∈ names)
    (ha : ms.lookup name = some (encode a)) (hf : f a = some b) :
    ((ofMembers names ns).required name).bind f = some b :=
  bind_requiredBy hns hname ha (decode_rearranged a) hf

theorem bind_orElse [LawfulWire α] {d : α} (hns : Reordered ms ns) (hname : name ∈ names)
    (ha : ms.lookup name = some (encode a)) (hf : f a = some b) :
    ((ofMembers names ns).orElse name d).bind f = some b := by
  obtain ⟨w, hw, haw⟩ := hns.members.lookup_some hns.distinct ha
  rw [orElse, slot_given hname hw]
  show (decode w).bind f = some b
  rw [decode_rearranged a w haw, Option.bind_some, hf]

theorem bind_orElse_omitted (hns : Reordered ms ns) (hname : name ∈ names)
    (hnone : ms.lookup name = none) (hf : f a = some b) :
    ((ofMembers names ns).orElse name a).bind f = some b := by
  rw [orElse, slot_omitted hname (hns.members.lookup_none hnone)]
  exact hf

end Fields

end Record

/-! ### Members that can be written -/

/-- Members with plain names and with values that are nested `k` deep at most. -/
def WritableMembers (k : Nat) (ms : List (String × Json)) : Prop :=
  ∀ m ∈ ms, Json.isPlain m.1 ∧ Json.Writable k m.2

namespace WritableMembers

variable {k : Nat} {ms ms' : List (String × Json)}

theorem nil : WritableMembers k [] := fun _ hm => (List.not_mem_nil hm).elim

theorem cons [Wire α] [WritableWire α] {name : String} {a : α} (hname : Json.isPlain name)
    (hk : height α ≤ k) (h : WritableMembers k ms) :
    WritableMembers k ((name, encode a) :: ms) := by
  intro m hm
  rcases List.mem_cons.mp hm with rfl | hold
  · exact ⟨hname, (writable a).mono hk⟩
  · exact h m hold

theorem append (h : WritableMembers k ms) (h' : WritableMembers k ms') :
    WritableMembers k (ms ++ ms') := by
  intro m hm
  exact (List.mem_append.mp hm).elim (h m) (h' m)

theorem obj (h : WritableMembers k ms) : Json.Writable (k + 1) (.obj ms) :=
  .obj (fun m hm => (h m hm).1) fun m hm => (h m hm).2

end WritableMembers

/-! ### Texts -/

/-- A value is read from the text that is written for it. -/
theorem decode_parse?_pretty [Wire α] [LawfulWire α] [WritableWire α]
    (hheight : height α ≤ Json.maxDepth) (a : α) :
    (Json.parse? (encode a).pretty).bind decode = some a := by
  rw [Json.parse?_pretty (writable a) hheight, Option.bind_some,
    decode_rearranged a _ (.same (encode a))]

end Wire
end StreamVerdict
