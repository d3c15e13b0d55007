set_option relaxedAutoImplicit false
set_option autoImplicit false

/-!
# Parsing expressions

Patterns with ordered choice, greedy repetition and negative lookahead, over lists of characters. A
pattern is data, so that a grammar is a value and its matcher is one function. Parts of a pattern
can be marked with a rule of the grammar; a match then yields a tree for each of them, with its
place in the text. Places are counted in bytes of UTF-8.

No rule refers to itself: a grammar is a tree of patterns and not a graph.

## Main definitions

* `QueryFilter.Peg.Pattern` — patterns over the rules of a grammar.
* `QueryFilter.Peg.Tree` — what a marked part of a pattern has matched.
* `QueryFilter.Peg.Pattern.run` — the match of a pattern at the start of a text.

## Main results

* `QueryFilter.Peg.Pattern.taken_append_rest` — a match splits the text in two.
-/

namespace QueryFilter.Peg

/-- The number of bytes that a text takes in UTF-8. -/
def utf8Length : List Char → Nat
  | [] => 0
  | c :: text => c.utf8Size + utf8Length text

@[simp] theorem utf8Length_nil : utf8Length [] = 0 := rfl

/-- The bytes of two texts add up. -/
theorem utf8Length_append (first second : List Char) :
    utf8Length (first ++ second) = utf8Length first + utf8Length second := by
  induction first with
  | nil => simp [utf8Length]
  | cons c first ih => simp only [List.cons_append, utf8Length, ih, Nat.add_assoc]

/-- What a marked part of a pattern has matched: the rule that marks it, the place where the matched
text starts, that text, and the trees of the marked parts inside it. -/
inductive Tree (ρ : Type) where
  | node (rule : ρ) (start : Nat) (text : List Char) (inner : List (Tree ρ))

namespace Tree

variable {ρ : Type}

/-- The rule that a tree belongs to. -/
def rule : Tree ρ → ρ
  | node rule _ _ _ => rule

/-- The place where the matched text starts. -/
def start : Tree ρ → Nat
  | node _ start _ _ => start

/-- The matched text. -/
def text : Tree ρ → List Char
  | node _ _ text _ => text

/-- The trees of the marked parts inside, in the order of the text. -/
def inner : Tree ρ → List (Tree ρ)
  | node _ _ _ inner => inner

/-- The place where the matched text ends. -/
def stop (tree : Tree ρ) : Nat :=
  tree.start + utf8Length tree.text

end Tree

/-- Patterns over the rules `ρ`. -/
inductive Pattern (ρ : Type) where
  /-- One character of a class. -/
  | char (accepts : Char → Bool)
  /-- The end of the text. -/
  | finish
  /-- One pattern, then another. -/
  | seq (first second : Pattern ρ)
  /-- The first pattern where it matches, otherwise the second. -/
  | alt (first second : Pattern ρ)
  /-- The pattern where it matches, otherwise nothing. -/
  | opt (body : Pattern ρ)
  /-- The pattern as often as it matches. -/
  | star (body : Pattern ρ)
  /-- Nothing, at a place where the pattern does not match. -/
  | refuse (body : Pattern ρ)
  /-- A pattern whose match yields a tree with the trees inside it. -/
  | node (rule : ρ) (body : Pattern ρ)
  /-- A pattern whose match yields a tree without inner trees. -/
  | leaf (rule : ρ) (body : Pattern ρ)

/-- A match: the trees of its marked parts, the text that it takes, and the text that it leaves. -/
structure Match (ρ : Type) where
  trees : List (Tree ρ)
  taken : List Char
  rest : List Char

namespace Match

variable {ρ : Type}

/-- The match that takes nothing. -/
def empty (text : List Char) : Match ρ :=
  ⟨[], [], text⟩

/-- A match followed by another one on the text that it leaves. -/
def append (m n : Match ρ) : Match ρ :=
  ⟨m.trees ++ n.trees, m.taken ++ n.taken, n.rest⟩

end Match

namespace Pattern

variable {ρ : Type}

/-- Matches as often as possible, at most `bound` times. -/
def iterate (step : Nat → List Char → Option (Match ρ)) : Nat → Nat → List Char → Match ρ
  | 0, _, text => .empty text
  | bound + 1, pos, text =>
    match step pos text with
    | none => .empty text
    | some m => m.append (iterate step bound (pos + utf8Length m.taken) m.rest)

/-- The match of a pattern at the start of a text whose first character stands at the given place. A
repetition that takes characters each time ends within as many rounds as the text has characters. -/
def run : Pattern ρ → Nat → List Char → Option (Match ρ)
  | char _, _, [] => none
  | char accepts, _, c :: rest => if accepts c then some ⟨[], [c], rest⟩ else none
  | finish, _, text => if text.isEmpty then some (.empty text) else none
  | seq first second, pos, text =>
    match first.run pos text with
    | none => none
    | some m =>
      match second.run (pos + utf8Length m.taken) m.rest with
      | none => none
      | some n => some (m.append n)
  | alt first second, pos, text =>
    match first.run pos text with
    | none => second.run pos text
    | some m => some m
  | opt body, pos, text =>
    match body.run pos text with
    | none => some (.empty text)
    | some m => some m
  | star body, pos, text => some (iterate body.run text.length pos text)
  | refuse body, pos, text =>
    match body.run pos text with
    | none => some (.empty text)
    | some _ => none
  | node rule body, pos, text =>
    (body.run pos text).map fun m => ⟨[.node rule pos m.taken m.trees], m.taken, m.rest⟩
  | leaf rule body, pos, text =>
    (body.run pos text).map fun m => ⟨[.node rule pos m.taken []], m.taken, m.rest⟩

/-- The pattern as often as it matches, and at least once. -/
def plus (body : Pattern ρ) : Pattern ρ :=
  seq body (star body)

/-- Any character. -/
def any : Pattern ρ :=
  char fun _ => true

/-! ## One pattern at a time -/

@[simp] theorem run_char_nil (accepts : Char → Bool) (pos : Nat) :
    (char accepts : Pattern ρ).run pos [] = none := rfl

@[simp] theorem run_char_cons (accepts : Char → Bool) (pos : Nat) (c : Char) (rest : List Char) :
    (char accepts : Pattern ρ).run pos (c :: rest)
      = if accepts c then some ⟨[], [c], rest⟩ else none := rfl

@[simp] theorem run_finish (pos : Nat) (text : List Char) :
    (finish : Pattern ρ).run pos text = if text.isEmpty then some (.empty text) else none := rfl

@[simp] theorem run_seq (first second : Pattern ρ) (pos : Nat) (text : List Char) :
    (seq first second).run pos text
      = match first.run pos text with
        | none => none
        | some m =>
          match second.run (pos + utf8Length m.taken) m.rest with
          | none => none
          | some n => some (m.append n) := rfl

@[simp] theorem run_alt (first second : Pattern ρ) (pos : Nat) (text : List Char) :
    (alt first second).run pos text
      = match first.run pos text with
        | none => second.run pos text
        | some m => some m := rfl

@[simp] theorem run_opt (body : Pattern ρ) (pos : Nat) (text : List Char) :
    (opt body).run pos text
      = match body.run pos text with
        | none => some (.empty text)
        | some m => some m := rfl

@[simp] theorem run_star (body : Pattern ρ) (pos : Nat) (text : List Char) :
    (star body).run pos text = some (iterate body.run text.length pos text) := rfl

@[simp] theorem run_refuse (body : Pattern ρ) (pos : Nat) (text : List Char) :
    (refuse body).run pos text
      = match body.run pos text with
        | none => some (.empty text)
        | some _ => none := rfl

@[simp] theorem run_node (rule : ρ) (body : Pattern ρ) (pos : Nat) (text : List Char) :
    (node rule body).run pos text
      = (body.run pos text).map fun m => ⟨[.node rule pos m.taken m.trees], m.taken, m.rest⟩ := rfl

@[simp] theorem run_leaf (rule : ρ) (body : Pattern ρ) (pos : Nat) (text : List Char) :
    (leaf rule body).run pos text
      = (body.run pos text).map fun m => ⟨[.node rule pos m.taken []], m.taken, m.rest⟩ := rfl

/-! ## A match splits the text -/

theorem iterate_taken_append_rest {step : Nat → List Char → Option (Match ρ)}
    (h : ∀ pos text m, step pos text = some m → m.taken ++ m.rest = text) (bound pos : Nat)
    (text : List Char) :
    (iterate step bound pos text).taken ++ (iterate step bound pos text).rest = text := by
  induction bound generalizing pos text with
  | zero => rfl
  | succ bound ih =>
    rw [iterate]
    split
    · rfl
    · next m hm =>
      rw [Match.append, List.append_assoc, ih, h _ _ _ hm]

/-- What a match takes and what it leaves make up the text. -/
theorem taken_append_rest {p : Pattern ρ} {pos : Nat} {text : List Char} {m : Match ρ}
    (h : p.run pos text = some m) : m.taken ++ m.rest = text := by
  induction p generalizing pos text m with
  | char accepts =>
    cases text with
    | nil => simp at h
    | cons c rest =>
      simp only [run_char_cons, Option.ite_none_right_eq_some, Option.some.injEq] at h
      simp [← h.2]
  | finish =>
    simp only [run_finish, Option.ite_none_right_eq_some, Option.some.injEq] at h
    simp [← h.2, Match.empty]
  | seq first second ihf ihs =>
    rw [run_seq] at h
    split at h
    · contradiction
    · next m₁ h₁ =>
      split at h
      · contradiction
      · next m₂ h₂ =>
        simp only [Option.some.injEq] at h
        rw [← h, Match.append, List.append_assoc, ihs h₂, ihf h₁]
  | alt first second ihf ihs =>
    rw [run_alt] at h
    split at h
    · exact ihs h
    · next m₁ h₁ =>
      simp only [Option.some.injEq] at h
      exact h ▸ ihf h₁
  | opt body ih =>
    rw [run_opt] at h
    split at h
    · simp only [Option.some.injEq] at h
      simp [← h, Match.empty]
    · next m₁ h₁ =>
      simp only [Option.some.injEq] at h
      exact h ▸ ih h₁
  | star body ih =>
    simp only [run_star, Option.some.injEq] at h
    rw [← h]
    exact iterate_taken_append_rest (fun _ _ _ hm => ih hm) _ _ _
  | refuse body ih =>
    rw [run_refuse] at h
    split at h
    · simp only [Option.some.injEq] at h
      simp [← h, Match.empty]
    · contradiction
  | node rule body ih =>
    simp only [run_node, Option.map_eq_some_iff] at h
    obtain ⟨m₁, h₁, rfl⟩ := h
    exact ih (m := m₁) h₁
  | leaf rule body ih =>
    simp only [run_leaf, Option.map_eq_some_iff] at h
    obtain ⟨m₁, h₁, rfl⟩ := h
    exact ih (m := m₁) h₁

end Pattern

end QueryFilter.Peg
