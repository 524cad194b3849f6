/-
  Words in a line.

  The characters of a line have places one after the other, and a line break begins the next line
  in its first column.  A plain scalar that begins with a word is the word alone if a colon and a
  blank follow, or a line that begins to the left of the margin.
-/
import StreamVerdict.Proofs.Yaml.Outline

namespace StreamVerdict
namespace Yaml

/-! ### Plain characters -/

section PlainChar

variable {c : Char}

theorem not_mem_of_isPlainChar (hc : isPlainChar c) {cs : List Char}
    (hcs : cs.any isPlainChar = false) : c ∉ cs := by
  intro hmem
  exact absurd hc (List.any_eq_false.mp hcs c hmem)

theorem ne_of_isPlainChar (hc : isPlainChar c) {d : Char} (hd : isPlainChar d = false) : c ≠ d := by
  rintro rfl
  rw [hd] at hc
  cases hc

theorem isBreak_of_isPlainChar (hc : isPlainChar c) : isBreak c = false := by
  have hmem : c ∉ ['\n', '\u2028', '\u2029'] := not_mem_of_isPlainChar hc (by decide)
  simpa [isBreak] using hmem

theorem isBlank_of_isPlainChar (hc : isPlainChar c) : isBlank c = false := by
  have hmem : c ∉ [' ', '\t'] := not_mem_of_isPlainChar hc (by decide)
  simpa [isBlank] using hmem

theorem isIndicator_of_isPlainChar (hc : isPlainChar c) : isIndicator c = false :=
  decide_eq_false (not_mem_of_isPlainChar hc (by decide))

theorem isPrintable_of_isPlainChar (hc : isPlainChar c) : isPrintable c := by
  have hranges : (((decide (c.val ≥ 'A'.val ∧ c.val ≤ 'Z'.val) ||
      (decide (c.val ≥ 'a'.val) && decide (c.val ≤ 'z'.val))) ||
      (decide (c.val ≥ '0'.val) && decide (c.val ≤ '9'.val))) || decide (c = '_')) = true := hc
  simp only [Bool.or_eq_true, Bool.and_eq_true, decide_eq_true_eq, UInt32.le_iff_toNat_le,
    ge_iff_le] at hranges
  have hrange : 0x20 ≤ c.toNat ∧ c.toNat ≤ 0x7E := by
    rcases hranges with ((⟨hl, hu⟩ | ⟨hl, hu⟩) | ⟨hl, hu⟩) | rfl
    · exact ⟨Nat.le_trans (by decide) hl, Nat.le_trans hu (by decide)⟩
    · exact ⟨Nat.le_trans (by decide) hl, Nat.le_trans hu (by decide)⟩
    · exact ⟨Nat.le_trans (by decide) hl, Nat.le_trans hu (by decide)⟩
    · decide
  simp [isPrintable, hrange]

end PlainChar

/-! ### Places -/

namespace Input

/-- The character does not end the line. -/
def Stays (c : Char) : Prop := c ≠ '\r' ∧ c ≠ '\u0085' ∧ isBreak c = false

theorem stays_of_isPlainChar {c : Char} (hc : isPlainChar c) : Stays c :=
  ⟨ne_of_isPlainChar hc (by decide), ne_of_isPlainChar hc (by decide), isBreak_of_isPlainChar hc⟩

theorem stays_of_mem_spaces {n : Nat} : ∀ c ∈ List.replicate n ' ', Stays c := by
  intro c hc
  rw [List.eq_of_mem_replicate hc]
  exact ⟨by decide, by decide, by decide⟩

/-- The places of characters in one line. -/
def along (line column index : Nat) : List Char → Input
  | [] => []
  | c :: cs => ⟨c, line, column, index⟩ :: along line (column + 1) (index + 1) cs

/-- The places that are there already stay before the others. -/
theorem place_append (acc acc' : Input) (line column index : Nat) (cs : List Char) :
    place (acc ++ acc') line column index cs = acc'.reverse ++ place acc line column index cs := by
  fun_induction place acc line column index cs with
  | case1 acc line column index => rw [place, List.reverse_append]
  | case2 acc line column index cs ih => rw [place, ← List.cons_append, ih]
  | case3 acc line column index c cs hcs c' acc'' hbreak ih =>
      rw [place, if_pos hbreak]
      · exact ih
      · exact hcs
  | case4 acc line column index c cs hcs c' acc'' hbreak ih =>
      rw [place, if_neg hbreak]
      · exact ih
      · exact hcs

variable {line column index : Nat}

theorem place_cons {c : Char} (hc : Stays c) (cs : List Char) :
    place [] line column index (c :: cs) =
      ⟨c, line, column, index⟩ :: place [] line (column + 1) (index + 1) cs := by
  obtain ⟨hreturn, hnext, hbreak⟩ := hc
  have hsame : (if c = '\r' ∨ c = '\u0085' then '\n' else c) = c := if_neg (by simp [hreturn, hnext])
  rw [place]
  · simp only [hsame, hbreak, Bool.false_eq_true, if_false]
    exact place_append [] [⟨c, line, column, index⟩] line (column + 1) (index + 1) cs
  · intro _ hc
    exact absurd hc hreturn

theorem place_newline (cs : List Char) :
    place [] line column index ('\n' :: cs) =
      ⟨'\n', line, column, index⟩ :: place [] (line + 1) 0 (index + 1) cs :=
  place_append [] [⟨'\n', line, column, index⟩] (line + 1) 0 (index + 1) cs

theorem place_along {w : List Char} (hw : ∀ c ∈ w, Stays c) (cs : List Char) :
    place [] line column index (w ++ cs) =
      along line column index w ++ place [] line (column + w.length) (index + w.length) cs := by
  induction w generalizing column index with
  | nil => rfl
  | cons c w ih =>
      obtain ⟨hc, hrest⟩ := List.forall_mem_cons.mp hw
      rw [List.cons_append, place_cons hc, ih hrest, List.length_cons, along, List.cons_append]
      congr 3 <;> omega

/-- Only a line break of two characters has one place for both. -/
theorem length_place {acc : Input} {cs : List Char} (hcs : '\r' ∉ cs) :
    (place acc line column index cs).length = acc.length + cs.length := by
  fun_induction place acc line column index cs with
  | case1 acc line column index => rw [List.length_reverse, List.length_nil, Nat.add_zero]
  | case2 acc line column index cs ih => exact absurd List.mem_cons_self hcs
  | case3 acc line column index c cs _ c' acc' _ ih =>
      rw [ih fun h => hcs (List.mem_cons_of_mem c h), List.length_cons, List.length_cons]
      omega
  | case4 acc line column index c cs _ c' acc' _ ih =>
      rw [ih fun h => hcs (List.mem_cons_of_mem c h), List.length_cons, List.length_cons]
      omega

theorem afterMarker?_eq_none {c : Char} {p : Place} (h : p.char ≠ c) (ps : Input) :
    afterMarker? c (p :: ps) = none := by
  rw [afterMarker?.eq_def]
  split
  · next heq =>
    cases heq
    exact if_neg fun hmarker => h hmarker.2.1
  · rfl

end Input

open Input

/-- The text is at its end, or its first line begins with a plain character in a column up to
    `column`. -/
inductive BeginsBy (column : Nat) : List Char → Prop where
  | atEnd : BeginsBy column []
  | line {n : Nat} {c : Char} {cs : List Char} (hn : n ≤ column) (hc : isPlainChar c) :
      BeginsBy column (List.replicate n ' ' ++ c :: cs)

namespace BeginsBy

variable {column : Nat} {text : List Char}

theorem mono {column' : Nat} (h : BeginsBy column text) (hle : column ≤ column') :
    BeginsBy column' text := by
  cases h with
  | atEnd => exact .atEnd
  | line hn hc => exact .line (Nat.le_trans hn hle) hc

theorem of_key {k : String} (hk : IsKey k) (cs : List Char) :
    BeginsBy column (List.replicate column ' ' ++ (k.toList ++ cs)) := by
  obtain ⟨⟨hne, hplain⟩, -⟩ := hk
  obtain ⟨c, w, hword⟩ := List.exists_cons_of_ne_nil hne
  rw [hword] at hplain ⊢
  exact .line (Nat.le_refl column) (hplain c List.mem_cons_self)

/-- An outline begins in its column. -/
theorem of_outline {o : Outline} (ho : o.IsPlain) (h : BeginsBy column text) :
    BeginsBy column (o.text column ++ text) := by
  cases o with
  | done => exact h
  | word k v rest =>
      rw [Outline.text, List.append_assoc, List.append_assoc]
      exact of_key ho.1 _
  | block k inner rest =>
      rw [Outline.text, List.append_assoc, List.append_assoc]
      exact of_key ho.1 _

end BeginsBy

/-! ### Plain scalars -/

section Plain

variable {line column index margin : Nat} {acc : List Char} {ps : Input}

theorem plainRest_along {w : List Char} (hw : ∀ c ∈ w, isPlainChar c) :
    plainRest false margin acc .none (along line column index w ++ ps) =
      plainRest false margin (w.reverse ++ acc) .none ps := by
  induction w generalizing column index acc with
  | nil => rfl
  | cons c w ih =>
      obtain ⟨hc, hrest⟩ := List.forall_mem_cons.mp hw
      have hcolon : c ≠ ':' := ne_of_isPlainChar hc (by decide)
      have hends : endsPlain false margin .none ⟨c, line, column, index⟩
          (along line (column + 1) (index + 1) w ++ ps) = false := by
        simp [endsPlain, Gap.isBroken, hcolon]
      rw [along, List.cons_append, plainRest]
      simp only [isBreak_of_isPlainChar hc, isBlank_of_isPlainChar hc, hends, Bool.false_eq_true,
        if_false, false_and, Gap.onto]
      rw [ih hrest, List.reverse_cons, List.append_assoc]
      rfl

/-- A colon before a blank ends a scalar. -/
theorem plainRest_colon {p : Place} (hp : p.char = ':') (hps : ps.startsBlank) :
    plainRest false margin acc .none (p :: ps) = some (scanned acc (p :: ps), false) := by
  have hends : endsPlain false margin .none p ps = true := by simp [endsPlain, hp, hps]
  have hbreak : isBreak ':' = false := by decide
  have hblank : isBlank ':' = false := by decide
  rw [plainRest]
  simp only [hends, hp, hbreak, hblank, Bool.false_eq_true, if_false, if_true, Gap.isBroken]

theorem plainRest_spaces (n : Nat) :
    plainRest false margin acc (.breaks '\n' [])
        (along line column index (List.replicate n ' ') ++ ps) =
      plainRest false margin acc (.breaks '\n' []) ps := by
  induction n generalizing column index with
  | zero => rfl
  | succ n ih =>
      rw [List.replicate_succ, along, List.cons_append, plainRest]
      exact ih

theorem pass_spaces (inFlow keyAllowed : Bool) (n : Nat) :
    Layout.pass inFlow false keyAllowed (along line column index (List.replicate n ' ') ++ ps) =
      Layout.pass inFlow false keyAllowed ps := by
  induction n generalizing column index with
  | zero => rfl
  | succ n ih =>
      rw [List.replicate_succ, along, List.cons_append, Layout.pass]
      exact ih

/-- A line that begins to the left of the margin ends a scalar.  Only blanks are skipped. -/
theorem plainRest_newline {text : List Char} (htext : BeginsBy column text)
    (hmargin : column < margin) {p : Place} (hp : p.char = '\n') :
    ∃ ps, plainRest false margin acc .none (p :: place [] line 0 index text) =
        some (scanned acc ps, true) ∧
      Layout.pass false false true ps =
        Layout.pass false false true (place [] line 0 index text) := by
  have hgap : plainRest false margin acc .none (p :: place [] line 0 index text) =
      plainRest false margin acc (.breaks '\n' []) (place [] line 0 index text) := by
    rw [plainRest, hp]
    rfl
  rw [hgap]
  cases htext with
  | atEnd => exact ⟨[], rfl, rfl⟩
  | @line n c cs hn hc =>
      rw [place_along stays_of_mem_spaces, plainRest_spaces, pass_spaces, List.length_replicate,
        Nat.zero_add, place_cons (stays_of_isPlainChar hc)]
      refine ⟨_, ?_, rfl⟩
      have hleft : n < margin := Nat.lt_of_le_of_lt hn hmargin
      have hends : endsPlain false margin (.breaks '\n' []) ⟨c, line, n, index + n⟩
          (place [] line (n + 1) (index + n + 1) cs) = true := by
        simp [endsPlain, Gap.isBroken, hleft]
      rw [plainRest]
      simp only [isBreak_of_isPlainChar hc, isBlank_of_isPlainChar hc, hends, Bool.false_eq_true,
        if_false, if_true, Gap.isBroken]

end Plain

end Yaml
end StreamVerdict
