/-
  Values are read as they were written.

  A value that is not nested too deep, with numbers of 64 bits and member names that need no
  escape, is cut into its words again when it is written over several lines, whatever is to
  follow; and from its words it is read as the same value.
-/
import StreamVerdict.Json.Parser
import StreamVerdict.Proofs.Json.Spelling

namespace StreamVerdict
namespace Json

/-- A value that can be written so that it is read again, nested `k` deep at most. -/
inductive Writable : Nat → Json → Prop where
  | null {k : Nat} : Writable k null
  | bool {k : Nat} {b : Bool} : Writable k (bool b)
  | nat {k n : Nat} (h : n < UInt64.size) : Writable k (nat n)
  | text {k : Nat} {s : String} : Writable k (text s)
  | arr {k : Nat} {items : List Json} (h : ∀ v ∈ items, Writable k v) : Writable (k + 1) (arr items)
  | obj {k : Nat} {members : List (String × Json)} (hnames : ∀ m ∈ members, isPlain m.1)
      (h : ∀ m ∈ members, Writable k m.2) : Writable (k + 1) (obj members)

theorem Writable.mono {k l : Nat} {v : Json} (h : Writable k v) (hkl : k ≤ l) : Writable l v := by
  induction h generalizing l with
  | null => exact .null
  | bool => exact .bool
  | nat hn => exact .nat hn
  | text => exact .text
  | arr _ ih =>
      obtain ⟨l, rfl⟩ := Nat.exists_eq_add_of_le hkl
      rw [Nat.add_right_comm]
      exact .arr fun v hv => ih v hv (Nat.le_add_right _ _)
  | obj hnames _ ih =>
      obtain ⟨l, rfl⟩ := Nat.exists_eq_add_of_le hkl
      rw [Nat.add_right_comm]
      exact .obj hnames fun m hm => ih m hm (Nat.le_add_right _ _)

/-! ### Words -/

mutual

/-- The words of a value; what comes from texts only has none. -/
def tokens : Json → List Token
  | null => [.null]
  | bool b => [.bool b]
  | nat n => [.nat n]
  | text s => [.text s (isPlain s)]
  | arr [] => [.openArray, .closeArray]
  | arr (v :: vs) => .openArray :: (tokens v ++ (itemTokens vs ++ [.closeArray]))
  | obj [] => [.openObject, .closeObject]
  | obj ((name, v) :: ms) =>
    .openObject :: .text name (isPlain name) :: .colon ::
      (tokens v ++ (memberTokens ms ++ [.closeObject]))
  | _ => []

/-- The words of the items after the first. -/
def itemTokens : List Json → List Token
  | [] => []
  | v :: vs => .comma :: (tokens v ++ itemTokens vs)

/-- The words of the members after the first. -/
def memberTokens : List (String × Json) → List Token
  | [] => []
  | (name, v) :: ms =>
    .comma :: .text name (isPlain name) :: .colon :: (tokens v ++ memberTokens ms)

end

/-! ### Cutting into words -/

namespace Token

variable {acc : List Token} {c : Char} {cs rest : List Char} {t : Token}

theorem lexOnto_blank (hc : isBlank c) : lexOnto acc (c :: cs) = lexOnto acc cs := by
  rw [lexOnto, if_pos hc]

theorem lexOnto_word (hc : isBlank c = false) (h : readToken (c :: cs) = some (t, rest)) :
    lexOnto acc (c :: cs) = lexOnto (t :: acc) rest := by
  rw [lexOnto, hc, if_neg Bool.false_ne_true]
  split
  · next hnone =>
    rw [h] at hnone
    cases hnone
  · next hsome =>
    rw [h] at hsome
    cases hsome
    rfl

/-- Line breaks and indentation are no words. -/
theorem lexOnto_lineBreak (acc : List Token) (level : Nat) (rest : List Char) :
    lexOnto acc (lineBreak level ++ rest) = lexOnto acc rest := by
  have hspaces : ∀ n, lexOnto acc (List.replicate n ' ' ++ rest) = lexOnto acc rest := by
    intro n
    induction n with
    | zero => rfl
    | succ n ih =>
        rw [List.replicate_succ, List.cons_append, lexOnto_blank (by decide), ih]
  rw [lineBreak, List.cons_append, lexOnto_blank (by decide), hspaces]

theorem lexOnto_quoted (acc : List Token) (s : String) (rest : List Char) :
    lexOnto acc (quoted s ++ rest) = lexOnto (.text s (isPlain s) :: acc) rest :=
  lexOnto_word (by decide) (readToken_quoted s rest)

theorem isBlank_of_isDigit (hc : c.isDigit) : isBlank c = false := by
  refine decide_eq_false ?_
  rintro (rfl | rfl | rfl | rfl) <;> exact absurd hc (by decide)

theorem lexOnto_decimal (acc : List Token) {n : Nat} (hn : n < UInt64.size)
    (hrest : EndsNumber rest) :
    lexOnto acc (Text.decimal n ++ rest) = lexOnto (.nat n :: acc) rest := by
  have hread := readToken_decimal hn hrest
  obtain ⟨c, ds, hds, hc⟩ := exists_digit_decimal n
  rw [hds, List.cons_append] at hread ⊢
  exact lexOnto_word (isBlank_of_isDigit hc) hread

theorem endsNumber_lineBreak (level : Nat) (rest : List Char) :
    EndsNumber (lineBreak level ++ rest) :=
  endsNumber_cons (by decide) (by decide) (by decide) (by decide) _

/-- After an item comes a comma or a line break. -/
theorem endsNumber_prettyItems (level level' : Nat) (vs : List Json) (rest : List Char) :
    EndsNumber (prettyItems level vs ++ (lineBreak level' ++ rest)) := by
  cases vs with
  | nil =>
      rw [prettyItems]
      exact endsNumber_lineBreak level' rest
  | cons v vs =>
      rw [prettyItems]
      exact endsNumber_cons (by decide) (by decide) (by decide) (by decide) _

theorem endsNumber_prettyMembers (level level' : Nat) (ms : List (String × Json))
    (rest : List Char) : EndsNumber (prettyMembers level ms ++ (lineBreak level' ++ rest)) := by
  cases ms with
  | nil =>
      rw [prettyMembers]
      exact endsNumber_lineBreak level' rest
  | cons m ms =>
      rw [prettyMembers]
      exact endsNumber_cons (by decide) (by decide) (by decide) (by decide) _

/-- A value that is cut into its words, at any level and before anything that ends a number. -/
def Cuts (v : Json) : Prop :=
  ∀ (level : Nat) (acc : List Token) (rest : List Char), EndsNumber rest →
    lexOnto acc (prettyAt level v ++ rest) = lexOnto (v.tokens.reverse ++ acc) rest

theorem lexOnto_prettyItems {vs : List Json} (h : ∀ v ∈ vs, Cuts v) (level level' : Nat)
    (acc : List Token) (rest : List Char) :
    lexOnto acc (prettyItems level vs ++ (lineBreak level' ++ rest)) =
      lexOnto ((itemTokens vs).reverse ++ acc) (lineBreak level' ++ rest) := by
  induction vs generalizing acc with
  | nil =>
      rw [prettyItems, itemTokens]
      rfl
  | cons v vs ih =>
      have hends := endsNumber_prettyItems level level' vs rest
      rw [prettyItems, itemTokens, List.cons_append, List.append_assoc, List.append_assoc,
        lexOnto_word (by decide) (by rfl), lexOnto_lineBreak,
        h v List.mem_cons_self level _ _ hends,
        ih fun v' hv' => h v' (List.mem_cons_of_mem v hv')]
      simp

theorem lexOnto_prettyMembers {ms : List (String × Json)} (h : ∀ m ∈ ms, Cuts m.2)
    (level level' : Nat) (acc : List Token) (rest : List Char) :
    lexOnto acc (prettyMembers level ms ++ (lineBreak level' ++ rest)) =
      lexOnto ((memberTokens ms).reverse ++ acc) (lineBreak level' ++ rest) := by
  induction ms generalizing acc with
  | nil =>
      rw [prettyMembers, memberTokens]
      rfl
  | cons m ms ih =>
      obtain ⟨name, v⟩ := m
      have hends := endsNumber_prettyMembers level level' ms rest
      have hrest := ih fun m' hm' => h m' (List.mem_cons_of_mem _ hm')
      simp only [prettyMembers, memberTokens, List.cons_append, List.append_assoc]
      rw [lexOnto_word (by decide) (by rfl), lexOnto_lineBreak, lexOnto_quoted,
        lexOnto_word (by decide) (by rfl), lexOnto_blank (by decide),
        h (name, v) List.mem_cons_self level _ _ hends, hrest]
      simp

theorem cuts_of_writable {k : Nat} {v : Json} (h : Writable k v) : Cuts v := by
  -- Only a number depends on what follows it; the printer puts a comma or a line break there.
  induction h with
  | null =>
      intro level acc rest _
      exact lexOnto_word (by decide) (by rfl)
  | @bool k b =>
      intro level acc rest _
      cases b with
      | false => exact lexOnto_word (by decide) (by rfl)
      | true => exact lexOnto_word (by decide) (by rfl)
  | nat hn =>
      intro level acc rest hrest
      exact lexOnto_decimal acc hn hrest
  | text =>
      intro level acc rest _
      exact lexOnto_quoted acc _ rest
  | @arr k items _ ih =>
      intro level acc rest hrest
      cases items with
      | nil =>
          rw [prettyAt, tokens]
          exact (lexOnto_word (by decide) (by rfl)).trans (lexOnto_word (by decide) (by rfl))
      | cons v vs =>
          have hends := endsNumber_prettyItems (level + 1) level vs (']' :: rest)
          have hitems : ∀ v' ∈ vs, Cuts v' := fun v' hv' => ih v' (List.mem_cons_of_mem v hv')
          simp only [prettyAt, tokens, List.cons_append, List.append_assoc, List.nil_append]
          rw [lexOnto_word (by decide) (by rfl), lexOnto_lineBreak,
            ih v List.mem_cons_self (level + 1) _ _ hends, lexOnto_prettyItems hitems,
            lexOnto_lineBreak, lexOnto_word (by decide) (by rfl)]
          simp
  | @obj k members _ _ ih =>
      intro level acc rest hrest
      cases members with
      | nil =>
          rw [prettyAt, tokens]
          exact (lexOnto_word (by decide) (by rfl)).trans (lexOnto_word (by decide) (by rfl))
      | cons m ms =>
          obtain ⟨name, v⟩ := m
          have hends := endsNumber_prettyMembers (level + 1) level ms ('\x7d' :: rest)
          have hmembers : ∀ m' ∈ ms, Cuts m'.2 := fun m' hm' => ih m' (List.mem_cons_of_mem _ hm')
          simp only [prettyAt, tokens, List.cons_append, List.append_assoc, List.nil_append]
          rw [lexOnto_word (by decide) (by rfl), lexOnto_lineBreak, lexOnto_quoted,
            lexOnto_word (by decide) (by rfl), lexOnto_blank (by decide),
            ih (name, v) List.mem_cons_self (level + 1) _ _ hends, lexOnto_prettyMembers hmembers,
            lexOnto_lineBreak, lexOnto_word (by decide) (by rfl)]
          simp

theorem lex_pretty {k : Nat} {v : Json} (h : Writable k v) :
    lex v.pretty.toList = some v.tokens := by
  have hcuts := cuts_of_writable h 0 [] [] endsNumber_nil
  rw [List.append_nil, List.append_nil, lexOnto, List.reverse_reverse] at hcuts
  rw [lex, pretty, String.toList_ofList]
  exact hcuts

end Token

/-! ### Reading words -/

namespace Reading

/-- A value is awaited, and there is a place for it. -/
def AwaitsValue (r : Reading) : Prop :=
  match r.awaited, r.opened with
  | .value, .object _ :: _ => False
  | .value, _ => True
  | .valueOrEnd, .array _ :: _ => True
  | _, _ => False

/-- The words of a value are read as the value, where it is nested `k` deep at most. -/
def Reads (k : Nat) (v : Json) : Prop :=
  ∀ r : Reading, r.AwaitsValue → r.depth + k ≤ maxDepth → v.tokens.foldlM step r = r.accept v

/-- The word begins a value, or is one. -/
theorem step_value {r : Reading} (hr : r.AwaitsValue) {t : Token} (ht : t ≠ .closeArray) :
    r.step t = r.value t := by
  obtain ⟨opened, depth, awaited⟩ := r
  cases awaited with
  | value => rfl
  | valueOrEnd =>
      cases t with
      | closeArray => contradiction
      | _ => rfl
  | _ => cases hr

/-- What was open innermost is closed, and is a value for what is open around it. -/
theorem close_opened {r : Reading} {o : Open} {a : Awaited} (hdepth : r.depth + 1 ≤ maxDepth)
    (v : Json) : close ⟨o :: r.opened, r.depth + 1, a⟩ r.opened v = r.accept v := by
  rw [close, if_pos hdepth]
  obtain ⟨opened, depth, awaited⟩ := r
  cases opened with
  | nil => rfl
  | cons o outer => cases o <;> rfl

theorem foldlM_closeArray {r : Reading} {a : Awaited} (ha : a = .valueOrEnd ∨ a = .commaOrEnd)
    (hdepth : r.depth + 1 ≤ maxDepth) (items : List Json) :
    [Token.closeArray].foldlM step ⟨.array items :: r.opened, r.depth + 1, a⟩ =
      r.accept (.arr items.reverse) := by
  have hstep : step ⟨.array items :: r.opened, r.depth + 1, a⟩ .closeArray =
      close ⟨.array items :: r.opened, r.depth + 1, a⟩ r.opened (.arr items.reverse) := by
    rcases ha with rfl | rfl <;> rfl
  rw [List.foldlM_cons, hstep, close_opened hdepth]
  exact bind_pure _

theorem foldlM_closeObject {r : Reading} {a : Awaited} (ha : a = .nameOrEnd ∨ a = .commaOrEnd)
    (hdepth : r.depth + 1 ≤ maxDepth) (ms : List (String × Json)) :
    [Token.closeObject].foldlM step ⟨.object ⟨ms, true, true⟩ :: r.opened, r.depth + 1, a⟩ =
      r.accept (.obj ms.reverse) := by
  have hstep : step ⟨.object ⟨ms, true, true⟩ :: r.opened, r.depth + 1, a⟩ .closeObject =
      close ⟨.object ⟨ms, true, true⟩ :: r.opened, r.depth + 1, a⟩ r.opened
        (.obj ms.reverse) := by
    rcases ha with rfl | rfl <;> rfl
  rw [List.foldlM_cons, hstep, close_opened hdepth]
  exact bind_pure _

section Parts

variable {k depth : Nat} {outer : List Open}

theorem foldlM_itemTokens {vs : List Json} (h : ∀ v ∈ vs, Reads k v) (hdepth : depth + k ≤ maxDepth)
    (items : List Json) :
    (itemTokens vs).foldlM step ⟨.array items :: outer, depth, .commaOrEnd⟩ =
      some ⟨.array (vs.reverse ++ items) :: outer, depth, .commaOrEnd⟩ := by
  induction vs generalizing items with
  | nil =>
      rw [itemTokens]
      rfl
  | cons v vs ih =>
      have hvalue := h v List.mem_cons_self ⟨.array items :: outer, depth, .value⟩ trivial hdepth
      have hrest := ih (fun v' hv' => h v' (List.mem_cons_of_mem v hv')) (v :: items)
      calc (itemTokens (v :: vs)).foldlM step ⟨.array items :: outer, depth, .commaOrEnd⟩
          = (v.tokens ++ itemTokens vs).foldlM step ⟨.array items :: outer, depth, .value⟩ := by
            rw [itemTokens]
            rfl
        _ = (itemTokens vs).foldlM step ⟨.array (v :: items) :: outer, depth, .commaOrEnd⟩ := by
            rw [List.foldlM_append, hvalue]
            rfl
        _ = _ := by
            rw [hrest, List.reverse_cons, List.append_assoc]
            rfl

/-- After a name, a colon and the words of a value, the object has one more member. -/
theorem foldlM_member {v : Json} {name : String} {a : Awaited}
    (ha : a = .name ∨ a = .nameOrEnd) (hname : isPlain name) (h : Reads k v)
    (hdepth : depth + k ≤ maxDepth) (ms : List (String × Json)) (ts : List Token) :
    (.text name (isPlain name) :: .colon :: (v.tokens ++ ts) : List Token).foldlM step
        ⟨.object ⟨ms, true, true⟩ :: outer, depth, a⟩ =
      ts.foldlM step ⟨.object ⟨(name, v) :: ms, true, true⟩ :: outer, depth, .commaOrEnd⟩ := by
  have hvalue := h ⟨.member name ⟨ms, true, true⟩ :: outer, depth, .value⟩ trivial hdepth
  have hfirst : step ⟨.object ⟨ms, true, true⟩ :: outer, depth, a⟩ (.text name true) =
      some ⟨.member name ⟨ms, true, true⟩ :: outer, depth, .colon⟩ := by
    rcases ha with rfl | rfl <;> rfl
  have hcolon : step ⟨.member name ⟨ms, true, true⟩ :: outer, depth, .colon⟩ .colon =
      some ⟨.member name ⟨ms, true, true⟩ :: outer, depth, .value⟩ := rfl
  rw [hname, List.foldlM_cons, hfirst, Option.bind_eq_bind, Option.bind_some, List.foldlM_cons,
    hcolon, Option.bind_eq_bind, Option.bind_some, List.foldlM_append, hvalue]
  rfl

theorem foldlM_memberTokens {ms : List (String × Json)} (hnames : ∀ m ∈ ms, isPlain m.1)
    (h : ∀ m ∈ ms, Reads k m.2) (hdepth : depth + k ≤ maxDepth) (done : List (String × Json)) :
    (memberTokens ms).foldlM step ⟨.object ⟨done, true, true⟩ :: outer, depth, .commaOrEnd⟩ =
      some ⟨.object ⟨ms.reverse ++ done, true, true⟩ :: outer, depth, .commaOrEnd⟩ := by
  induction ms generalizing done with
  | nil =>
      rw [memberTokens]
      rfl
  | cons m ms ih =>
      obtain ⟨name, v⟩ := m
      have hrest := ih (fun m' hm' => hnames m' (List.mem_cons_of_mem _ hm'))
        (fun m' hm' => h m' (List.mem_cons_of_mem _ hm')) ((name, v) :: done)
      rw [memberTokens, List.foldlM_cons]
      refine (foldlM_member (.inl rfl) (hnames (name, v) List.mem_cons_self)
        (h (name, v) List.mem_cons_self) hdepth done (memberTokens ms)).trans ?_
      rw [hrest, List.reverse_cons, List.append_assoc]
      rfl

end Parts

/-- A word that is a value alone. -/
theorem foldlM_single {r : Reading} (hr : r.AwaitsValue) {t : Token} (ht : t ≠ .closeArray) :
    [t].foldlM step r = r.value t := by
  rw [List.foldlM_cons, step_value hr ht]
  exact bind_pure _

theorem reads_of_writable {k : Nat} {v : Json} (h : Writable k v) : Reads k v := by
  -- Inside an array or object the depth is one more, and the values are nested one less.
  induction h with
  | null => exact fun r hr _ => foldlM_single hr Token.noConfusion
  | bool => exact fun r hr _ => foldlM_single hr Token.noConfusion
  | nat _ => exact fun r hr _ => foldlM_single hr Token.noConfusion
  | text => exact fun r hr _ => foldlM_single hr Token.noConfusion
  | @arr k items _ ih =>
      intro r hr hdepth
      have hinside : r.depth + 1 + k ≤ maxDepth := by omega
      have hopen : r.step .openArray = some ⟨.array [] :: r.opened, r.depth + 1, .valueOrEnd⟩ :=
        step_value hr Token.noConfusion
      cases items with
      | nil =>
          rw [tokens, List.foldlM_cons, hopen]
          exact foldlM_closeArray (.inl rfl) (by omega) []
      | cons v vs =>
          have hvalue := ih v List.mem_cons_self
            ⟨.array [] :: r.opened, r.depth + 1, .valueOrEnd⟩ trivial hinside
          have hitems : (itemTokens vs).foldlM step
              ⟨.array [v] :: r.opened, r.depth + 1, .commaOrEnd⟩ =
              some ⟨.array (vs.reverse ++ [v]) :: r.opened, r.depth + 1, .commaOrEnd⟩ :=
            foldlM_itemTokens (fun v' hv' => ih v' (List.mem_cons_of_mem v hv')) hinside [v]
          have hclose := foldlM_closeArray (.inr rfl) (by omega : r.depth + 1 ≤ maxDepth)
            (vs.reverse ++ [v])
          rw [List.reverse_append, List.reverse_reverse] at hclose
          calc (arr (v :: vs)).tokens.foldlM step r
              = (v.tokens ++ (itemTokens vs ++ [Token.closeArray])).foldlM step
                  ⟨.array [] :: r.opened, r.depth + 1, .valueOrEnd⟩ := by
                rw [tokens, List.foldlM_cons, hopen]
                rfl
            _ = (itemTokens vs ++ [Token.closeArray]).foldlM step
                  ⟨.array [v] :: r.opened, r.depth + 1, .commaOrEnd⟩ := by
                rw [List.foldlM_append, hvalue]
                rfl
            _ = r.accept (.arr (v :: vs)) := by
                rw [List.foldlM_append, hitems]
                exact hclose
  | @obj k members hnames _ ih =>
      intro r hr hdepth
      have hinside : r.depth + 1 + k ≤ maxDepth := by omega
      have hopen : r.step .openObject =
          some ⟨.object ⟨[], true, true⟩ :: r.opened, r.depth + 1, .nameOrEnd⟩ :=
        step_value hr Token.noConfusion
      cases members with
      | nil =>
          rw [tokens, List.foldlM_cons, hopen]
          exact foldlM_closeObject (.inl rfl) (by omega) []
      | cons m ms =>
          obtain ⟨name, v⟩ := m
          have hmembers : (memberTokens ms).foldlM step
              ⟨.object ⟨[(name, v)], true, true⟩ :: r.opened, r.depth + 1, .commaOrEnd⟩ =
              some ⟨.object ⟨ms.reverse ++ [(name, v)], true, true⟩ :: r.opened, r.depth + 1,
                .commaOrEnd⟩ :=
            foldlM_memberTokens (fun m' hm' => hnames m' (List.mem_cons_of_mem _ hm'))
              (fun m' hm' => ih m' (List.mem_cons_of_mem _ hm')) hinside [(name, v)]
          have hclose := foldlM_closeObject (.inr rfl) (by omega : r.depth + 1 ≤ maxDepth)
            (ms.reverse ++ [(name, v)])
          rw [List.reverse_append, List.reverse_reverse] at hclose
          rw [tokens, List.foldlM_cons, hopen]
          refine (foldlM_member (.inr rfl) (hnames (name, v) List.mem_cons_self)
            (ih (name, v) List.mem_cons_self) hinside [] _).trans ?_
          rw [List.foldlM_append, hmembers]
          exact hclose

end Reading

/-- The words of a value that can be written make the value again. -/
theorem ofTokens?_tokens {k : Nat} {v : Json} (h : Writable k v) (hk : k ≤ maxDepth) :
    ofTokens? v.tokens = some v := by
  have hdepth : Reading.start.depth + k ≤ maxDepth := by
    simpa [Reading.start] using hk
  have hread := Reading.reads_of_writable h Reading.start trivial hdepth
  rw [ofTokens?, hread]
  rfl

/-- A value that can be written is read from what is written. -/
theorem parse?_pretty {k : Nat} {v : Json} (h : Writable k v) (hk : k ≤ maxDepth) :
    parse? v.pretty = some v := by
  rw [parse?, Token.lex_pretty h, Option.bind_some, ofTokens?_tokens h hk]

end Json
end StreamVerdict
