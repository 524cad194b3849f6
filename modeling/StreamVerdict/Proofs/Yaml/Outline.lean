/-
  Outlines: block mappings of words, written with one entry a line.

  The keys of an outline are words, and its values are words or outlines again, which stand two
  columns further to the right.  A word has only characters that mean nothing but themselves, so
  an outline needs no quotes.  Its tokens are read back as the mapping of its entries.
-/
import StreamVerdict.Yaml.Parser

namespace StreamVerdict
namespace Yaml

/-! ### Words -/

/-- Characters that mean nothing but themselves wherever they stand. -/
def isPlainChar (c : Char) : Bool := c.isAlphanum || c = '_'

/-- A text that needs no quotes. -/
def IsWord (w : String) : Prop := w.toList ≠ [] ∧ ∀ c ∈ w.toList, isPlainChar c

/-- A word that is short enough for a key. -/
def IsKey (w : String) : Prop := IsWord w ∧ w.toList.length ≤ Candidate.maxLength

instance (w : String) : Decidable (IsWord w) :=
  decidable_of_iff (w.toList ≠ [] ∧ w.toList.all isPlainChar = true) <| by
    rw [IsWord, List.all_eq_true]

instance (w : String) : Decidable (IsKey w) := inferInstanceAs (Decidable (IsWord w ∧ _))

/-! ### Outlines -/

/-- The entries of a block mapping, one after the other. -/
inductive Outline where
  | done
  | word (key value : String) (rest : Outline)
  | block (key : String) (inner rest : Outline)
deriving DecidableEq

namespace Outline

/-- All keys and values are words, and no mapping in it is empty. -/
def IsPlain : Outline → Prop
  | done => True
  | word k v rest => IsKey k ∧ IsWord v ∧ rest.IsPlain
  | block k inner rest => IsKey k ∧ inner ≠ done ∧ inner.IsPlain ∧ rest.IsPlain

/-- How deep mappings are nested in it. -/
def depth : Outline → Nat
  | done => 0
  | word _ _ rest => rest.depth
  | block _ inner rest => max (inner.depth + 1) rest.depth

/-- The lines of an outline in a column. -/
def text (column : Nat) : Outline → List Char
  | done => []
  | word k v rest =>
    List.replicate column ' ' ++
      (k.toList ++ ':' :: ' ' :: (v.toList ++ '\n' :: rest.text column))
  | block k inner rest =>
    List.replicate column ' ' ++
      (k.toList ++ ':' :: '\n' :: (inner.text (column + 2) ++ rest.text column))

/-- The tokens of an outline, without those that bound the mapping. -/
def tokens : Outline → List Token
  | done => []
  | word k v rest => .key :: .scalar .plain k :: .value :: .scalar .plain v :: rest.tokens
  | block k inner rest =>
    .key :: .scalar .plain k :: .value :: .blockMapping ::
      (inner.tokens ++ .blockEnd :: rest.tokens)

/-- What the outline says. -/
def entries : Outline → List (Yaml × Yaml)
  | done => []
  | word k v rest => (scalar .plain none k, scalar .plain none v) :: rest.entries
  | block k inner rest => (scalar .plain none k, map inner.entries) :: rest.entries

end Outline

/-! ### From tokens to values -/

section Reading

variable {handles : Handles} {names : List (List Char × Nat)}

theorem blockNode?_scalar (depth fuel : Nat) (s : String) (ts : List Token) :
    blockNode? handles depth (fuel + 2) ⟨.scalar .plain s :: ts, names⟩ =
      some (scalar .plain none s, ⟨ts, names⟩) := rfl

theorem node?_blockMapping (depth fuel : Nat) (ts : List Token) :
    node? handles false (depth + 1) (fuel + 1) ⟨.blockMapping :: ts, names⟩ =
      blockEntries? handles depth fuel [] ⟨ts, names⟩ := by
  show ((blockEntries? handles depth fuel [] ⟨ts, names⟩).bind fun x => some (x.1, x.2)) = _
  exact Option.bind_fun_some _

theorem blockNode?_blockMapping (depth fuel : Nat) (ts : List Token) :
    blockNode? handles (depth + 1) (fuel + 2) ⟨.blockMapping :: ts, names⟩ =
      blockEntries? handles depth fuel [] ⟨ts, names⟩ :=
  node?_blockMapping depth fuel ts

/-- One entry of a block mapping. -/
theorem blockEntries?_key {depth fuel : Nat} {acc : List (Yaml × Yaml)} {k : String} {v : Yaml}
    {ts ts' : List Token}
    (hv : blockNode? handles depth (fuel + 2) ⟨ts, names⟩ = some (v, ⟨ts', names⟩)) :
    blockEntries? handles depth (fuel + 3) acc ⟨.key :: .scalar .plain k :: .value :: ts, names⟩ =
      blockEntries? handles depth (fuel + 2) ((scalar .plain none k, v) :: acc) ⟨ts', names⟩ := by
  rw [blockEntries?]
  simp only [Reading.next, blockNode?_scalar, hv, Option.bind_eq_bind, Option.bind_some]

/-- The tokens of an outline make its entries. -/
theorem blockEntries?_tokens (o : Outline) {depth fuel : Nat} (acc : List (Yaml × Yaml))
    (ts : List Token) (hdepth : o.depth ≤ depth) (hfuel : o.tokens.length < fuel) :
    blockEntries? handles depth fuel acc ⟨o.tokens ++ .blockEnd :: ts, names⟩ =
      some (map (acc.reverse ++ o.entries), ⟨ts, names⟩) := by
  induction o generalizing depth fuel acc ts with
  | done =>
      obtain ⟨fuel, rfl⟩ := Nat.exists_eq_add_of_lt hfuel
      rw [Outline.entries, List.append_nil]
      rfl
  | word k v rest ih =>
      simp only [Outline.tokens, List.length_cons] at hfuel
      obtain ⟨fuel, rfl⟩ : ∃ n, fuel = n + 3 := ⟨fuel - 3, by omega⟩
      have hshorter : rest.tokens.length < fuel + 2 := by omega
      simp only [Outline.tokens, List.cons_append]
      rw [blockEntries?_key (blockNode?_scalar depth fuel v _), ih _ ts hdepth hshorter,
        List.reverse_cons, List.append_assoc]
      rfl
  | block k inner rest ihInner ih =>
      simp only [Outline.tokens, List.length_cons, List.length_append] at hfuel
      simp only [Outline.depth] at hdepth
      obtain ⟨fuel, rfl⟩ : ∃ n, fuel = n + 3 := ⟨fuel - 3, by omega⟩
      obtain ⟨depth, rfl⟩ : ∃ n, depth = n + 1 := ⟨depth - 1, by omega⟩
      have hlower : inner.depth ≤ depth := by omega
      have hbeside : rest.depth ≤ depth + 1 := by omega
      have hinside : inner.tokens.length < fuel := by omega
      have hshorter : rest.tokens.length < fuel + 2 := by omega
      have hinner := ihInner [] (rest.tokens ++ .blockEnd :: ts) hlower hinside
      rw [← blockNode?_blockMapping, List.reverse_nil, List.nil_append] at hinner
      simp only [Outline.tokens, List.cons_append, List.append_assoc]
      rw [blockEntries?_key hinner, ih _ ts hbeside hshorter, List.reverse_cons, List.append_assoc]
      rfl

end Reading

/-- The tokens of a document that is an outline. -/
theorem ofTokens?_tokens {o : Outline} (hdepth : o.depth < maxDepth) :
    ofTokens? (.blockMapping :: (o.tokens ++ [.blockEnd])) = some (map o.entries) := by
  have hroom : o.tokens.length < 3 * (o.tokens ++ [Token.blockEnd]).length + 5 := by
    rw [List.length_append]
    omega
  have hnode : node? Handles.standard false maxDepth
      (3 * (Token.blockMapping :: (o.tokens ++ [.blockEnd])).length + 3)
      ⟨.blockMapping :: (o.tokens ++ [.blockEnd]), []⟩ = some (map o.entries, ⟨[], []⟩) :=
    (node?_blockMapping 127 _ _).trans
      (blockEntries?_tokens o [] [] (Nat.le_of_lt_succ hdepth) hroom)
  have hcontent : content? Handles.standard (.blockMapping :: (o.tokens ++ [.blockEnd])) =
      some (map o.entries, []) := by
    rw [content?, hnode]
    rfl
  show (content? Handles.standard (.blockMapping :: (o.tokens ++ [.blockEnd]))).bind _ = _
  rw [hcontent]
  rfl

end Yaml
end StreamVerdict
