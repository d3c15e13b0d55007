import QueryFilter.Peg.Pattern

set_option relaxedAutoImplicit false
set_option autoImplicit false

/-!
# Repetition and sequence of patterns

How the match of a composed pattern comes from the matches of its parts. A repetition is greedy and
never gives back what it has taken, so its match is determined step by step; the induction below
hides the bound on the number of rounds.

## Main results

* `QueryFilter.Peg.Pattern.iterate_induction` — what holds when the body stops matching, and is kept
  by one more round in front, holds of the whole repetition.
* `QueryFilter.Peg.Pattern.run_star_char`, `QueryFilter.Peg.Pattern.run_plus_char` — repeated
  characters of a class are the longest run of them.
-/

namespace QueryFilter.Peg

namespace Pattern

variable {ρ : Type}

/-! ## Sequence and choice -/

/-- A sequence matches when its two parts match one after the other. -/
theorem run_seq_of_some {p q : Pattern ρ} {pos : Nat} {text : List Char} {m n : Match ρ}
    (hp : p.run pos text = some m) (hq : q.run (pos + utf8Length m.taken) m.rest = some n) :
    (seq p q).run pos text = some (m.append n) := by
  rw [run_seq, hp]
  dsimp only
  rw [hq]

/-- A sequence does not match when its first part does not. -/
theorem run_seq_of_none {p q : Pattern ρ} {pos : Nat} {text : List Char}
    (hp : p.run pos text = none) : (seq p q).run pos text = none := by
  rw [run_seq, hp]

/-- A sequence does not match when its second part does not match what the first part leaves. -/
theorem run_seq_of_some_of_none {p q : Pattern ρ} {pos : Nat} {text : List Char} {m : Match ρ}
    (hp : p.run pos text = some m) (hq : q.run (pos + utf8Length m.taken) m.rest = none) :
    (seq p q).run pos text = none := by
  rw [run_seq, hp]
  dsimp only
  rw [hq]

/-- A choice is its first part where that one matches. -/
theorem run_alt_of_some {p q : Pattern ρ} {pos : Nat} {text : List Char} {m : Match ρ}
    (hp : p.run pos text = some m) : (alt p q).run pos text = some m := by
  rw [run_alt, hp]

/-- A choice is its second part where the first one does not match. -/
theorem run_alt_of_none {p q : Pattern ρ} {pos : Nat} {text : List Char}
    (hp : p.run pos text = none) : (alt p q).run pos text = q.run pos text := by
  rw [run_alt, hp]

/-- A choice of characters is a class of characters. -/
theorem run_alt_char {p q : Pattern ρ} {accepts accepts' : Char → Bool}
    (hp : p.run = (char accepts).run) (hq : q.run = (char accepts').run) :
    (alt p q).run = (char fun c => accepts c || accepts' c).run := by
  funext pos text
  rw [run_alt, hp, hq]
  cases text with
  | nil => rfl
  | cons c rest =>
    cases hc : accepts c with
    | true => simp [hc]
    | false => simp [hc]

/-! ## Repetition -/

/-- **Induction along a repetition**: a property of the match that holds where the body does not
match, and that one more round in front keeps, holds of the whole repetition.

**Proof sketch.** Induction on the bound. Every round takes characters, so the bound is still large
enough for what is left; with no characters left the body cannot match at all. -/
theorem iterate_induction {step : Nat → List Char → Option (Match ρ)}
    {motive : Nat → List Char → Match ρ → Prop}
    (progress : ∀ pos text m, step pos text = some m → m.rest.length < text.length)
    (stop : ∀ pos text, step pos text = none → motive pos text (.empty text))
    (more : ∀ pos text m n, step pos text = some m →
      motive (pos + utf8Length m.taken) m.rest n → motive pos text (m.append n))
    {bound : Nat} (pos : Nat) {text : List Char} (h : text.length ≤ bound) :
    motive pos text (iterate step bound pos text) := by
  induction bound generalizing pos text with
  | zero =>
    have hs : step pos text = none := by
      cases hm : step pos text with
      | none => rfl
      | some m =>
        have := progress pos text m hm
        omega
    exact stop pos text hs
  | succ bound ih =>
    rw [iterate]
    cases hm : step pos text with
    | none => exact stop pos text hm
    | some m =>
      have hlt := progress pos text m hm
      exact more pos text m _ hm (ih _ (by omega))

/-- A round that takes characters leaves fewer of them. -/
theorem length_rest_lt {p : Pattern ρ} {pos : Nat} {text : List Char} {m : Match ρ}
    (h : p.run pos text = some m) (hne : m.taken ≠ []) : m.rest.length < text.length := by
  have hlen := congrArg List.length (taken_append_rest h)
  have hpos : 0 < m.taken.length := List.length_pos_iff.2 hne
  rw [List.length_append] at hlen
  omega

/-- The match of a pattern that repeats another one at least once. -/
theorem run_plus_of_some {p : Pattern ρ} {pos : Nat} {text : List Char} {m n : Match ρ}
    (hp : p.run pos text = some m)
    (hs : (star p).run (pos + utf8Length m.taken) m.rest = some n) :
    (plus p).run pos text = some (m.append n) :=
  run_seq_of_some hp hs

/-- A pattern is repeated at least once only where it matches. -/
theorem run_plus_of_none {p : Pattern ρ} {pos : Nat} {text : List Char}
    (hp : p.run pos text = none) : (plus p).run pos text = none :=
  run_seq_of_none hp

/-- Characters of a class, repeated, are the longest run of them. -/
theorem run_star_char (accepts : Char → Bool) (pos : Nat) (text : List Char) :
    (star (char accepts) : Pattern ρ).run pos text
      = some ⟨[], text.takeWhile accepts, text.dropWhile accepts⟩ := by
  rw [run_star, Option.some.injEq]
  refine iterate_induction
    (motive := fun _ text m => m = ⟨[], text.takeWhile accepts, text.dropWhile accepts⟩)
    ?_ ?_ ?_ pos (Nat.le_refl _)
  · intro pos text m hm
    apply length_rest_lt hm
    cases text with
    | nil => simp at hm
    | cons c rest =>
      simp only [run_char_cons, Option.ite_none_right_eq_some, Option.some.injEq] at hm
      simp [← hm.2]
  · intro pos text hm
    cases text with
    | nil => rfl
    | cons c rest =>
      have hc : accepts c = false := by simpa using hm
      simp [Match.empty, hc]
  · intro pos text m n hm hn
    cases text with
    | nil => simp at hm
    | cons c rest =>
      simp only [run_char_cons, Option.ite_none_right_eq_some, Option.some.injEq] at hm
      obtain ⟨hc, rfl⟩ := hm
      subst hn
      simp [Match.append, hc]

/-- Characters of a class, repeated at least once, are the longest run of them unless it is empty.
-/
theorem run_plus_char (accepts : Char → Bool) (pos : Nat) (text : List Char) :
    (plus (char accepts) : Pattern ρ).run pos text
      = if text.takeWhile accepts = [] then none
        else some ⟨[], text.takeWhile accepts, text.dropWhile accepts⟩ := by
  cases text with
  | nil => rfl
  | cons c rest =>
    cases hc : accepts c with
    | false =>
      have hm : (char accepts : Pattern ρ).run pos (c :: rest) = none := by simp [hc]
      rw [run_plus_of_none hm]
      simp [hc]
    | true =>
      have hm : (char accepts : Pattern ρ).run pos (c :: rest) = some ⟨[], [c], rest⟩ := by
        simp [hc]
      rw [run_plus_of_some hm (run_star_char accepts _ _)]
      simp [Match.append, hc]

/-- Whatever matches as a class of characters does is repeated as they are. -/
theorem run_star_of_run_eq {p : Pattern ρ} {accepts : Char → Bool}
    (hp : p.run = (char accepts).run) : (star p).run = (star (char accepts)).run := by
  funext pos text
  rw [run_star, run_star, hp]

/-- The same for one match or more. -/
theorem run_plus_of_run_eq {p : Pattern ρ} {accepts : Char → Bool}
    (hp : p.run = (char accepts).run) : (plus p).run = (plus (char accepts)).run := by
  funext pos text
  rw [plus, plus, run_seq, run_seq, hp, run_star_of_run_eq hp]

end Pattern

end QueryFilter.Peg
