/-
  The lines of an outline are read as its tokens.

  Between two tokens of an outline the layout of a text is known by the tokens so far and by the
  margins of the mappings that are open.  A key and its colon lead from one such state to the
  next, and so do a word and the end of its line.  A line further to the left ends the mappings
  in between.  By induction the text of an outline is read as the mapping of its entries.
-/
import StreamVerdict.Proofs.Yaml.Word

namespace StreamVerdict
namespace Yaml

open Input

/-! ### Layouts between tokens -/

/-- The tokens so far, last first, and the margins of the mappings that are open. -/
structure Blocks where
  tokens : List Token
  margin : Nat
  outerMargins : List Nat

namespace Blocks

/-- The layout of a text of which `ps` is left. -/
def layout (b : Blocks) (keyAllowed : Bool) (ps : Input) : Layout :=
  ⟨ps, b.tokens, b.tokens.length, b.margin, b.outerMargins, none, [], keyAllowed⟩

def add (b : Blocks) (ts : List Token) : Blocks := { b with tokens := ts.reverse ++ b.tokens }

/-- A key comes in a column: a mapping begins there, unless it is open. -/
def enter (b : Blocks) (column : Nat) : Blocks :=
  if column < b.margin then b
  else ⟨.blockMapping :: b.tokens, column + 1, b.margin :: b.outerMargins⟩

variable {b : Blocks} {column : Nat}

theorem add_add (ts ts' : List Token) : (b.add ts).add ts' = b.add (ts ++ ts') := by
  simp only [add, List.reverse_append, List.append_assoc]

theorem enter_of_lt (h : column < b.margin) : b.enter column = b := if_pos h

theorem enter_of_le (h : b.margin ≤ column) :
    b.enter column = ⟨.blockMapping :: b.tokens, column + 1, b.margin :: b.outerMargins⟩ :=
  if_neg (by omega)

theorem margin_enter (h : b.margin ≤ column + 1) : (b.enter column).margin = column + 1 := by
  rw [enter]
  split
  · omega
  · rfl

end Blocks

namespace Layout

variable {b : Blocks} {keyAllowed : Bool} {p : Place} {ps : Input}

theorem marginsBelow_add (limit margin ended : Nat) (ms : List Nat) :
    marginsBelow limit margin ended ms =
      ((marginsBelow limit margin 0 ms).1, (marginsBelow limit margin 0 ms).2.1,
        (marginsBelow limit margin 0 ms).2.2 + ended) := by
  induction ms generalizing margin ended with
  | nil => simp [marginsBelow]
  | cons m ms ih =>
      simp only [marginsBelow]
      split
      · rw [ih m (ended + 1), ih m (0 + 1)]
        simp only [Prod.mk.injEq, true_and]
        omega
      · simp

/-- What stands right of the margin ends no mapping. -/
theorem closeBlocks_of_le {s : Layout} {limit : Nat} (hflow : s.outerCandidates = [])
    (h : s.margin ≤ limit) : s.closeBlocks limit = s := by
  have hnone : marginsBelow limit s.margin 0 s.outerMargins = (s.margin, s.outerMargins, 0) := by
    cases s.outerMargins with
    | nil => rfl
    | cons m ms => rw [marginsBelow, if_neg (by omega)]
  have hends : s.inFlow = false := by rw [inFlow, hflow]; rfl
  rw [closeBlocks]
  simp [hends, hnone]

/-- The innermost mapping ends first. -/
theorem closeBlocks_of_lt {limit margin m : Nat} {ts : List Token} {ms : List Nat}
    (h : limit < margin) :
    (Blocks.layout ⟨ts, margin, m :: ms⟩ keyAllowed ps).closeBlocks limit =
      (Blocks.layout ⟨.blockEnd :: ts, m, ms⟩ keyAllowed ps).closeBlocks limit := by
  have hinner : marginsBelow limit margin 0 (m :: ms) =
      ((marginsBelow limit m 0 ms).1, (marginsBelow limit m 0 ms).2.1,
        (marginsBelow limit m 0 ms).2.2 + 1) := by
    rw [marginsBelow, if_pos h, marginsBelow_add]
  have htokens : ∀ n, List.replicate (n + 1) Token.blockEnd ++ ts =
      List.replicate n Token.blockEnd ++ Token.blockEnd :: ts := by
    intro n
    rw [List.replicate_succ', List.append_assoc]
    rfl
  rw [closeBlocks, closeBlocks]
  simp only [Blocks.layout, hinner, htokens, List.length_cons]
  simp only [inFlow, List.isEmpty_nil, Bool.not_true, Bool.false_eq_true, if_false, mk.injEq,
    true_and, and_true]
  exact Nat.succ_add_eq_add_succ _ _

/-! ### Steps -/

/-- Reading tokens from `s` is the same as from `s'` when `n` more have been read. -/
def Leads (n : Nat) (s s' : Layout) : Prop := ∀ fuel, s.readAll (fuel + n) = s'.readAll fuel

theorem Leads.trans {m n : Nat} {s s' s'' : Layout} (h : Leads m s s') (h' : Leads n s' s'') :
    Leads (m + n) s s'' := by
  intro fuel
  rw [Nat.add_comm m n, ← Nat.add_assoc, h (fuel + n), h' fuel]

theorem Leads.symm {s s' : Layout} (h : Leads 0 s s') : Leads 0 s' s := fun fuel => (h fuel).symm

theorem leads_of_skipBlanks {s s' : Layout} (h : s.skipBlanks = s'.skipBlanks) : Leads 0 s s' := by
  intro fuel
  cases fuel with
  | zero => rfl
  | succ fuel =>
      show readAll (fuel + 1) s = readAll (fuel + 1) s'
      rw [readAll, readAll, h]

/-- What is skipped makes no difference for what is read. -/
theorem leads_of_pass {keyAllowed' : Bool} {ps' : Input}
    (h : pass false false keyAllowed ps = pass false false keyAllowed' ps') :
    Leads 0 (b.layout keyAllowed ps) (b.layout keyAllowed' ps') := by
  refine leads_of_skipBlanks ?_
  show ({ b.layout keyAllowed ps with
      keyAllowed := (pass false false keyAllowed ps).1
      rest := (pass false false keyAllowed ps).2 } : Layout) =
    { b.layout keyAllowed' ps' with
      keyAllowed := (pass false false keyAllowed' ps').1
      rest := (pass false false keyAllowed' ps').2 }
  rw [h]
  rfl

/-- The next token begins with `p`.  Before it is read, the mappings end that it does not belong
    to. -/
theorem readAll_cons {s : Layout}
    (hpass : pass s.inFlow false s.keyAllowed (p :: ps) = (s.keyAllowed, p :: ps))
    (hrest : s.rest = p :: ps) (hstale : s.dropStale p = some s) (fuel : Nat) :
    s.readAll (fuel + 1) = ((s.closeBlocks (p.column + 1)).read p ps).bind (readAll fuel) := by
  have hskip : s.skipBlanks = s := by
    rw [skipBlanks, hrest, hpass]
    simp only [← hrest]
  rw [readAll]
  simp only [hskip, hrest, hstale]
  cases (s.closeBlocks (p.column + 1)).read p ps with
  | none => rfl
  | some s => rfl

/-- At the end of the text all mappings end. -/
theorem readAll_nil (fuel : Nat) :
    (b.layout keyAllowed []).readAll (fuel + 1) =
      some ((b.layout keyAllowed []).closeBlocks 0).tokens.reverse := by
  rw [readAll]
  rfl

theorem leads_read {s s' : Layout}
    (hpass : pass s.inFlow false s.keyAllowed (p :: ps) = (s.keyAllowed, p :: ps))
    (hrest : s.rest = p :: ps) (hstale : s.dropStale p = some s)
    (hclose : s.closeBlocks (p.column + 1) = s) (hread : s.read p ps = some s') :
    Leads 1 s s' := by
  intro fuel
  rw [readAll_cons hpass hrest hstale, hclose, hread, Option.bind_some]

theorem pass_plain (hp : isPlainChar p.char) :
    pass false false keyAllowed (p :: ps) = (keyAllowed, p :: ps) := by
  have hspace : p.char ≠ ' ' := ne_of_isPlainChar hp (by decide)
  have htab : p.char ≠ '\t' := ne_of_isPlainChar hp (by decide)
  have hhash : p.char ≠ '#' := ne_of_isPlainChar hp (by decide)
  have hmark : p.char ≠ '\ufeff' := ne_of_isPlainChar hp (by decide)
  rw [pass]
  simp [isBreak_of_isPlainChar hp, hspace, htab, hhash, hmark]

/-- Mappings that a token ends anyway may have ended before. -/
theorem leads_of_closeBlocks {b' : Blocks} (hp : isPlainChar p.char)
    (h : (b.layout keyAllowed (p :: ps)).closeBlocks (p.column + 1) =
      (b'.layout keyAllowed (p :: ps)).closeBlocks (p.column + 1)) :
    Leads 0 (b.layout keyAllowed (p :: ps)) (b'.layout keyAllowed (p :: ps)) := by
  intro fuel
  cases fuel with
  | zero => rfl
  | succ fuel =>
      have hstep : ∀ b : Blocks, (b.layout keyAllowed (p :: ps)).readAll (fuel + 1) =
          (((b.layout keyAllowed (p :: ps)).closeBlocks (p.column + 1)).read p ps).bind
            (readAll fuel) := by
        intro b
        refine readAll_cons ?_ rfl rfl fuel
        exact pass_plain hp
      rw [Nat.add_zero, hstep, hstep, h]

theorem pass_colon (hp : p.char = ':') :
    pass false false keyAllowed (p :: ps) = (keyAllowed, p :: ps) := by
  rw [pass, hp]
  rfl

/-- A plain character begins a plain scalar. -/
theorem read_plain (s : Layout) (hp : isPlainChar p.char) : s.read p ps = s.readPlain p ps := by
  have hne : ∀ {d : Char}, isPlainChar d = false → p.char ≠ d := fun hd => ne_of_isPlainChar hp hd
  have hstarts : startsPlain s.inFlow (p :: ps) = true := by
    simp [startsPlain, isIndicator_of_isPlainChar hp, Input.startsBlank, Input.startsWith,
      isBlank_of_isPlainChar hp, isBreak_of_isPlainChar hp]
  have hquestion : p.char ≠ '?' := hne (by decide)
  have hcolon : p.char ≠ ':' := hne (by decide)
  rw [read, if_neg fun h => absurd h.2 (hne (by decide)), afterMarker?_eq_none (hne (by decide)),
    afterMarker?_eq_none (hne (by decide))]
  dsimp only
  -- No character that has a meaning of its own is plain.
  split
  case h_11 => simp only [hquestion, hcolon, false_and, if_false, hstarts, if_true]
  all_goals
    next hchar => exact absurd hchar (hne (by decide))

theorem read_colon (s : Layout) (hp : p.char = ':') (hps : ps.startsBlank) :
    s.read p ps = s.readValue p ps := by
  have hne : ∀ {d : Char}, ':' ≠ d → p.char ≠ d := fun hd => hp ▸ hd
  rw [read, if_neg fun h => absurd h.2 (hne (by decide)), afterMarker?_eq_none (hne (by decide)),
    afterMarker?_eq_none (hne (by decide)), hp]
  simp [hps]

/-! ### Keys and values -/

/-- The layout after a scalar that may turn out to be a key. -/
def candidateAt (b : Blocks) (p : Place) (k : String) (ps : Input) : Layout :=
  { (b.add [.scalar .plain k]).layout false ps with
    candidate := some ⟨p, b.tokens.length, b.margin = p.column + 1⟩ }

/-- A word is one token.  What comes after it tells whether the line has ended. -/
theorem readPlain_word {s : Layout} {c : Char} {w : List Char} {line column index : Nat}
    {rest : Input} {isBroken : Bool} (hflow : s.inFlow = false) (hw : ∀ d ∈ w, isPlainChar d)
    (hends : plainRest false s.margin (w.reverse ++ [c]) .none ps =
      some (scanned (w.reverse ++ [c]) rest, isBroken)) :
    s.readPlain ⟨c, line, column, index⟩ (along line (column + 1) (index + 1) w ++ ps) =
      (s.readNode ⟨c, line, column, index⟩ (.scalar .plain (String.ofList (c :: w))) rest).map
        fun s => { s with keyAllowed := isBroken } := by
  have htext : (scanned (w.reverse ++ [c]) rest).text = String.ofList (c :: w) := by
    rw [scanned, List.reverse_append, List.reverse_reverse]
    rfl
  rw [readPlain, hflow, plainRest_along hw, hends, ← htext, Option.map_eq_bind]
  rfl

/-- The candidate is a key, and the mapping that it belongs to begins before it. -/
theorem readValue_candidateAt (p q : Place) (k : String) (ps ps' : Input) :
    (candidateAt b p k ps').readValue q ps =
      some (((b.enter p.column).add [.key, .scalar .plain k, .value]).layout false ps) := by
  -- Two tokens come after the place where the mapping begins.
  have hafter : b.tokens.length + 1 + 1 - b.tokens.length = 2 := by omega
  rw [readValue]
  by_cases hopen : p.column < b.margin
  · simp [candidateAt, Blocks.layout, Blocks.add, putIn, openBlock, emit, inFlow, Blocks.enter,
      hopen]
  · simp [candidateAt, Blocks.layout, Blocks.add, putIn, openBlock, emit, inFlow, Blocks.enter,
      hopen, hafter]

section Lines

variable {line column index : Nat}

theorem leads_spaces (n : Nat) (cs : List Char) :
    Leads 0 (b.layout keyAllowed (place [] line column index (List.replicate n ' ' ++ cs)))
      (b.layout keyAllowed (place [] line (column + n) (index + n) cs)) := by
  refine leads_of_pass ?_
  rw [place_along stays_of_mem_spaces, pass_spaces, List.length_replicate]

/-- The spaces at the start of a line are its column. -/
theorem leads_indent (n : Nat) (cs : List Char) (line index : Nat) :
    Leads 0 (b.layout keyAllowed (place [] line 0 index (List.replicate n ' ' ++ cs)))
      (b.layout keyAllowed (place [] line n (index + n) cs)) := by
  have hspaces : Leads 0 _ (b.layout keyAllowed (place [] line (0 + n) (index + n) cs)) :=
    leads_spaces n cs
  rwa [Nat.zero_add] at hspaces

theorem leads_candidateAt {c : Char} {w : List Char} (hc : isPlainChar c)
    (hw : ∀ d ∈ w, isPlainChar d) (hp : p.char = ':') (hps : ps.startsBlank)
    (hmargin : b.margin ≤ column + 1) :
    Leads 1
      (b.layout true
        (⟨c, line, column, index⟩ :: (along line (column + 1) (index + 1) w ++ p :: ps)))
      (candidateAt b ⟨c, line, column, index⟩ (String.ofList (c :: w)) (p :: ps)) := by
  refine leads_read (pass_plain hc) rfl rfl (closeBlocks_of_le rfl hmargin) ?_
  rw [read_plain _ hc, readPlain_word rfl hw (plainRest_colon hp hps)]
  rfl

/-- A colon on the line of the candidate makes it a key, if it is near enough. -/
theorem leads_colon {q : Place} (k : String) (hq : q.char = ':') (hps : ps.startsBlank)
    (hline : q.line = p.line) (hnear : q.index ≤ p.index + Candidate.maxLength)
    (hmargin : b.margin ≤ q.column + 1) :
    Leads 1 (candidateAt b p k (q :: ps))
      (((b.enter p.column).add [.key, .scalar .plain k, .value]).layout false ps) := by
  have hstale : (candidateAt b p k (q :: ps)).dropStale q = some (candidateAt b p k (q :: ps)) := by
    rw [dropStale, if_neg]
    simp only [candidateAt, Option.any_some, Candidate.isStale, hline, decide_eq_true_eq]
    omega
  refine leads_read (pass_colon hq) rfl hstale (closeBlocks_of_le rfl hmargin) ?_
  rw [read_colon _ hq hps, readValue_candidateAt]

/-- A key and its colon are read in two steps. -/
theorem leads_key {k : String} (hk : IsKey k) (hmargin : b.margin ≤ column + 1) {c : Char}
    (hc : c = ' ' ∨ c = '\n') (cs : List Char) (line index : Nat) :
    ∃ column' index', column < column' ∧ Leads 2
      (b.layout true (place [] line column index (k.toList ++ ':' :: c :: cs)))
      (((b.enter column).add [.key, .scalar .plain k, .value]).layout false
        (place [] line column' index' (c :: cs))) := by
  obtain ⟨⟨hne, hplain⟩, hlength⟩ := hk
  obtain ⟨d, w, hword⟩ := List.exists_cons_of_ne_nil hne
  rw [hword] at hplain hlength
  rw [List.length_cons] at hlength
  obtain ⟨hd, hw⟩ := List.forall_mem_cons.mp hplain
  have hkey : String.ofList (d :: w) = k := by rw [← hword, String.ofList_toList]
  have hcolon : Stays ':' := ⟨by decide, by decide, by decide⟩
  refine ⟨column + 1 + w.length + 1, index + 1 + w.length + 1, by omega, ?_⟩
  have hblank : startsBlank (place [] line (column + 1 + w.length + 1) (index + 1 + w.length + 1)
      (c :: cs)) := by
    rcases hc with rfl | rfl
    · rw [place_cons ⟨by decide, by decide, by decide⟩]
      rfl
    · rw [place_newline]
      rfl
  rw [hword, List.cons_append, place_cons (stays_of_isPlainChar hd),
    place_along fun c hc => stays_of_isPlainChar (hw c hc), place_cons hcolon]
  rw [← hkey]
  refine (leads_candidateAt hd hw ?_ hblank hmargin).trans (leads_colon _ ?_ hblank ?_ ?_ ?_)
  · rfl
  · rfl
  · rfl
  · show index + 1 + w.length ≤ index + Candidate.maxLength
    omega
  · show b.margin ≤ column + 1 + w.length + 1
    omega

/-- A word and the end of its line are read in one step.  What follows begins to the left of the
    margin, so that it does not belong to the word. -/
theorem leads_value {v : String} (hv : IsWord v) (hmargin : b.margin ≤ column + 1)
    {text : List Char} {limit : Nat} (htext : BeginsBy limit text) (hlimit : limit < b.margin)
    (line index : Nat) :
    ∃ line' index', Leads 1
      (b.layout false (place [] line column index (v.toList ++ '\n' :: text)))
      ((b.add [.scalar .plain v]).layout true (place [] line' 0 index' text)) := by
  obtain ⟨hne, hplain⟩ := hv
  obtain ⟨c, w, hword⟩ := List.exists_cons_of_ne_nil hne
  rw [hword] at hplain
  obtain ⟨hc, hw⟩ := List.forall_mem_cons.mp hplain
  have hvalue : String.ofList (c :: w) = v := by rw [← hword, String.ofList_toList]
  refine ⟨line + 1, index + 1 + w.length + 1, ?_⟩
  rw [hword, List.cons_append, place_cons (stays_of_isPlainChar hc),
    place_along fun c hc => stays_of_isPlainChar (hw c hc), place_newline, ← hvalue]
  obtain ⟨ps, hends, hpass⟩ : ∃ ps, plainRest false b.margin (w.reverse ++ [c]) .none
        (⟨'\n', line, column + 1 + w.length, index + 1 + w.length⟩ ::
          place [] (line + 1) 0 (index + 1 + w.length + 1) text) =
        some (scanned (w.reverse ++ [c]) ps, true) ∧
      pass false false true ps =
        pass false false true (place [] (line + 1) 0 (index + 1 + w.length + 1) text) :=
    plainRest_newline htext hlimit rfl
  refine Leads.trans ?_ (leads_of_pass hpass)
  refine leads_read (pass_plain hc) rfl rfl (closeBlocks_of_le rfl hmargin) ?_
  rw [read_plain _ hc, readPlain_word rfl hw hends]
  rfl

/-- A line further to the left ends the innermost mapping, before anything is read of it. -/
theorem leads_leave {text : List Char} (htext : BeginsBy column text) {inner : Nat}
    (hmargin : b.margin ≤ inner) (hinner : column < inner) (ts : List Token) (line index : Nat) :
    Leads 0 (((b.enter inner).add ts).layout true (place [] line 0 index text))
      ((b.add (.blockMapping :: (ts ++ [.blockEnd]))).layout true (place [] line 0 index text)) := by
  have hbefore : (b.enter inner).add ts =
      ⟨ts.reverse ++ .blockMapping :: b.tokens, inner + 1, b.margin :: b.outerMargins⟩ := by
    rw [Blocks.enter_of_le hmargin, Blocks.add]
  have hafter : b.add (.blockMapping :: (ts ++ [.blockEnd])) =
      ⟨.blockEnd :: (ts.reverse ++ .blockMapping :: b.tokens), b.margin, b.outerMargins⟩ := by
    simp [Blocks.add]
  rw [hbefore, hafter]
  cases htext with
  | atEnd =>
      intro fuel
      cases fuel with
      | zero => rfl
      | succ fuel =>
          show readAll (fuel + 1) (Blocks.layout _ true []) =
            readAll (fuel + 1) (Blocks.layout _ true [])
          rw [readAll_nil, readAll_nil, closeBlocks_of_lt (Nat.zero_lt_succ inner)]
  | @line n c cs hn hc =>
      have hindent : ∀ b : Blocks, Leads 0
          (b.layout true (place [] line 0 index (List.replicate n ' ' ++ c :: cs)))
          (b.layout true (⟨c, line, n, index + n⟩ ::
            place [] line (n + 1) (index + n + 1) cs)) := by
        intro b
        rw [← place_cons (stays_of_isPlainChar hc)]
        exact leads_indent n (c :: cs) line index
      have hleft : n + 1 < inner + 1 := by omega
      exact (hindent _).trans
        ((leads_of_closeBlocks hc (closeBlocks_of_lt hleft)).trans (hindent _).symm)

/-- A line with a key and a word. -/
theorem leads_entry {k v : String} (hk : IsKey k) (hv : IsWord v) (hmargin : b.margin ≤ column + 1)
    {text : List Char} (htext : BeginsBy column text) (line index : Nat) :
    ∃ line' index', Leads 3
      (b.layout true (place [] line 0 index (List.replicate column ' ' ++
        (k.toList ++ ':' :: ' ' :: (v.toList ++ '\n' :: text)))))
      (((b.enter column).add [.key, .scalar .plain k, .value, .scalar .plain v]).layout true
        (place [] line' 0 index' text)) := by
  have hopened := Blocks.margin_enter hmargin
  obtain ⟨column', index', hcolumn, hkey⟩ :=
    leads_key hk hmargin (Or.inl rfl) (v.toList ++ '\n' :: text) line (index + column)
  have hspace : Leads 0 _ (((b.enter column).add [.key, .scalar .plain k, .value]).layout false
      (place [] line (column' + 1) (index' + 1) (v.toList ++ '\n' :: text))) :=
    leads_spaces 1 _
  have hright : ((b.enter column).add [.key, .scalar .plain k, .value]).margin ≤ column' + 1 + 1 := by
    show (b.enter column).margin ≤ _
    omega
  have hleft : column < (b.enter column).margin := by omega
  obtain ⟨line', index'', hvalue⟩ := leads_value hv hright htext hleft line (index' + 1)
  refine ⟨line', index'', ?_⟩
  exact (leads_indent column _ line index).trans (hkey.trans (hspace.trans hvalue))

/-- A line with a key alone. -/
theorem leads_heading {k : String} (hk : IsKey k) (hmargin : b.margin ≤ column + 1)
    (text : List Char) (line index : Nat) :
    ∃ line' index', Leads 2
      (b.layout true (place [] line 0 index (List.replicate column ' ' ++
        (k.toList ++ ':' :: '\n' :: text))))
      (((b.enter column).add [.key, .scalar .plain k, .value]).layout true
        (place [] line' 0 index' text)) := by
  obtain ⟨column', index', -, hkey⟩ :=
    leads_key hk hmargin (Or.inr rfl) text line (index + column)
  rw [place_newline] at hkey
  refine ⟨line + 1, index' + 1, ?_⟩
  -- The end of the line is skipped, and after it a key may come again.
  have hnewline : Leads 0
      (((b.enter column).add [.key, .scalar .plain k, .value]).layout false
        (⟨'\n', line, column', index'⟩ :: place [] (line + 1) 0 (index' + 1) text))
      (((b.enter column).add [.key, .scalar .plain k, .value]).layout true
        (place [] (line + 1) 0 (index' + 1) text)) :=
    leads_of_pass rfl
  exact (leads_indent column _ line index).trans (hkey.trans hnewline)

/-- The lines of an outline lead to its tokens.  A first line may begin the mapping; without one
    the mapping has to be open. -/
theorem leads_text (o : Outline) (ho : o.IsPlain) {text : List Char}
    (htext : BeginsBy column text) (hmargin : b.margin ≤ column + 1)
    (hopen : o = .done → b.margin = column + 1) (line index : Nat) :
    ∃ n line' index', n ≤ (o.text column).length ∧
      Leads n (b.layout true (place [] line 0 index (o.text column ++ text)))
        (((b.enter column).add o.tokens).layout true (place [] line' 0 index' text)) := by
  induction o generalizing b column line index text with
  | done =>
      have hsame : b.enter column = b := Blocks.enter_of_lt (by rw [hopen rfl]; omega)
      rw [hsame]
      exact ⟨0, line, index, Nat.le_refl 0, fun _ => rfl⟩
  | word k v rest ih =>
      obtain ⟨hk, hv, hrest⟩ := ho
      obtain ⟨line₁, index₁, hentry⟩ := leads_entry hk hv hmargin (htext.of_outline hrest) line index
      generalize hb₁ : (b.enter column).add
        [.key, .scalar .plain k, .value, .scalar .plain v] = b₁ at hentry
      have hmargin₁ : b₁.margin = column + 1 := by
        rw [← hb₁]
        exact Blocks.margin_enter hmargin
      have hsame : b₁.enter column = b₁ := Blocks.enter_of_lt (by omega)
      have htokens : b₁.add rest.tokens = (b.enter column).add (Outline.word k v rest).tokens := by
        rw [← hb₁, Blocks.add_add]
        rfl
      obtain ⟨n, line', index', hn, hlines⟩ :=
        ih hrest htext (Nat.le_of_eq hmargin₁) (fun _ => hmargin₁) line₁ index₁
      rw [hsame, htokens] at hlines
      refine ⟨3 + n, line', index', ?_, ?_⟩
      · simp only [Outline.text, List.length_append, List.length_cons]
        omega
      · simp only [Outline.text, List.append_assoc, List.cons_append]
        exact hentry.trans hlines
  | block k inner rest ihInner ih =>
      obtain ⟨hk, hne, hinner, hrest⟩ := ho
      have hbeside : BeginsBy column (rest.text column ++ text) := htext.of_outline hrest
      obtain ⟨line₁, index₁, hheading⟩ := leads_heading hk hmargin
        (inner.text (column + 2) ++ (rest.text column ++ text)) line index
      generalize hb₁ : (b.enter column).add [.key, .scalar .plain k, .value] = b₁ at hheading
      have hmargin₁ : b₁.margin = column + 1 := by
        rw [← hb₁]
        exact Blocks.margin_enter hmargin
      have hright : b₁.margin ≤ column + 2 := by omega
      obtain ⟨n, line₂, index₂, hn, hbelow⟩ := ihInner hinner (hbeside.mono (Nat.le_add_right _ 2))
        (Nat.le_succ_of_le hright) (fun h => absurd h hne) line₁ index₁
      -- What comes after the inner mapping stands further to the left.
      have hleave := leads_leave hbeside hright (by omega) inner.tokens line₂ index₂
      generalize hb₂ : b₁.add (.blockMapping :: (inner.tokens ++ [.blockEnd])) = b₂ at hleave
      have hmargin₂ : b₂.margin = column + 1 := by
        rw [← hb₂]
        exact hmargin₁
      have hsame : b₂.enter column = b₂ := Blocks.enter_of_lt (by omega)
      have htokens : b₂.add rest.tokens =
          (b.enter column).add (Outline.block k inner rest).tokens := by
        rw [← hb₂, ← hb₁, Blocks.add_add, Blocks.add_add]
        simp [Outline.tokens]
      obtain ⟨m, line', index', hm, hlines⟩ :=
        ih hrest htext (Nat.le_of_eq hmargin₂) (fun _ => hmargin₂) line₂ index₂
      rw [hsame, htokens] at hlines
      refine ⟨2 + (n + (0 + m)), line', index', ?_, ?_⟩
      · simp only [Outline.text, List.length_append, List.length_cons]
        omega
      · simp only [Outline.text, List.append_assoc, List.cons_append]
        exact hheading.trans (hbelow.trans (hleave.trans hlines))

end Lines

end Layout

/-! ### Texts -/

namespace Outline

theorem mem_text {o : Outline} (ho : o.IsPlain) {column : Nat} {c : Char}
    (hc : c ∈ o.text column) : isPlainChar c ∨ c ∈ [' ', ':', '\n'] := by
  induction o generalizing column with
  | done => cases hc
  | word k v rest ih =>
      obtain ⟨hk, hv, hrest⟩ := ho
      simp only [text, List.mem_append, List.mem_cons, List.mem_replicate] at hc
      rcases hc with ⟨-, rfl⟩ | hc | rfl | rfl | hc | rfl | hc
      · decide
      · exact Or.inl (hk.1.2 c hc)
      · decide
      · decide
      · exact Or.inl (hv.2 c hc)
      · decide
      · exact ih hrest hc
  | block k inner rest ihInner ih =>
      obtain ⟨hk, -, hinner, hrest⟩ := ho
      simp only [text, List.mem_append, List.mem_cons, List.mem_replicate] at hc
      rcases hc with ⟨-, rfl⟩ | hc | rfl | rfl | hc | hc
      · decide
      · exact Or.inl (hk.1.2 c hc)
      · decide
      · decide
      · exact ihInner hinner hc
      · exact ih hrest hc

variable {o : Outline}

theorem ofText?_text (ho : o.IsPlain) :
    Input.ofText? (String.ofList (o.text 0)) = some (place [] 0 0 0 (o.text 0)) := by
  have hmarks : [' ', ':', '\n'].all isPrintable := by decide
  rw [Input.ofText?, String.toList_ofList]
  refine if_pos (List.all_eq_true.mpr fun c hc => ?_)
  rcases mem_text ho hc with hplain | hmark
  · exact isPrintable_of_isPlainChar hplain
  · exact List.all_eq_true.mp hmarks c hmark

/-- The tokens of the text of an outline. -/
theorem tokens?_text (ho : o.IsPlain) (hne : o ≠ done) :
    tokens? (String.ofList (o.text 0)) = some (.blockMapping :: (o.tokens ++ [.blockEnd])) := by
  let b : Blocks := ⟨[], 0, []⟩
  obtain ⟨n, line, index, hn, hlines⟩ := Layout.leads_text (b := b) o ho .atEnd (Nat.zero_le 1)
    (fun h => absurd h hne) 0 0
  rw [List.append_nil] at hlines
  have hreturn : '\r' ∉ o.text 0 := fun h => absurd (mem_text ho h) (by decide)
  have hlength : (place [] 0 0 0 (o.text 0)).length = (o.text 0).length := by
    rw [length_place hreturn, List.length_nil, Nat.zero_add]
  -- Every step uses up characters, so there is fuel left for the end of the text.
  obtain ⟨fuel, hfuel⟩ : ∃ fuel, (o.text 0).length + 1 = fuel + 1 + n :=
    ⟨(o.text 0).length - n, by omega⟩
  have hends : (((b.enter 0).add o.tokens).layout true []).closeBlocks 0 =
      Blocks.layout ⟨.blockEnd :: (o.tokens.reverse ++ [.blockMapping]), 0, []⟩ true [] :=
    (Layout.closeBlocks_of_lt Nat.zero_lt_one).trans
      (Layout.closeBlocks_of_le rfl (Nat.le_refl 0))
  rw [tokens?, ofText?_text ho]
  show (b.layout true (place [] 0 0 0 (o.text 0))).readAll (_ + 1) = _
  rw [hlength, hfuel, hlines (fuel + 1)]
  show (Blocks.layout _ true []).readAll (fuel + 1) = _
  rw [Layout.readAll_nil, hends]
  simp [Blocks.layout]

/-- The text of an outline is read as the mapping of its entries. -/
theorem parse?_text (ho : o.IsPlain) (hne : o ≠ done) (hdepth : o.depth < maxDepth) :
    parse? (String.ofList (o.text 0)) = some (Document.ofRoot (map o.entries)) := by
  rw [parse?, tokens?_text ho hne]
  show (ofTokens? _).bind _ = _
  rw [ofTokens?_tokens hdepth]
  rfl

end Outline

end Yaml
end StreamVerdict
