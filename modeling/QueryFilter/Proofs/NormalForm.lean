import QueryFilter.Proofs.RoundTrip

set_option relaxedAutoImplicit false
set_option autoImplicit false

/-!
# The normal form of filter strings

Reading a filter string and writing it again changes nothing but separators that count: those at the
two ends go, and every other run of them becomes a single space. The normal form is defined by a
walk through the characters that knows nothing of terms.

## Main definitions

* `QueryFilter.NormalForm.Place` — where a walk through a text stands.
* `QueryFilter.NormalForm.normalize` — the text with its separators put in order.
* `QueryFilter.NormalForm.IsNormal` — texts in which every separator that counts is a single space
  between two pieces.

## Main results

* `QueryFilter.NormalForm.intercalate_pieces` — the pieces of a text, joined by spaces, are its
  normal form.
* `QueryFilter.NormalForm.normalize_eq_self_iff` — the texts that are normal already.
* `QueryFilter.Filter.toFilterString_ofString` — what becomes of a filter string.
-/

namespace QueryFilter

namespace NormalForm

open Quotes

/-- Where a walk through a text stands: before the first piece, in a piece or in a gap after one. -/
inductive Place where
  | start
  | inside
  | gap
  deriving DecidableEq

/-- What stands in for the separators met since the last piece, when another piece comes. -/
def Place.lead : Place → List Char
  | start => []
  | inside => []
  | gap => [' ']

/-- Where a walk stands after a separator that counts. -/
def Place.afterSeparator : Place → Place
  | start => start
  | inside => gap
  | gap => gap

/-- The text with its separators put in order: those that count are left out, and a single space is
written when another piece comes after them. All other characters stay. -/
def normalize : Place → Bool → List Char → List Char
  | _, _, [] => []
  | place, quoted, c :: text =>
    if quoted || !isSeparator c then
      place.lead ++ c :: normalize .inside (quoted ^^ isQuote c) text
    else
      normalize place.afterSeparator false text

/-- Whether every separator that counts in a text is a single space with a piece on each side, when
the walk through the text starts at the given place with the given flag. -/
def IsNormalFrom (place : Place) (quoted : Bool) (text : List Char) : Prop :=
  ∀ (before : List Char) (c : Char) (after : List Char), text = before ++ c :: after →
    isSeparator c = true → isOpen quoted before = false →
      c = ' ' ∧ (before ≠ [] ∨ place ≠ .start) ∧
        ∃ next rest, after = next :: rest ∧ isSeparator next = false

/-- A text is normal when each separator of it with an even number of quotes before it is a space,
does not stand at the start, and has a character after it that is no separator. -/
def IsNormal (text : List Char) : Prop :=
  ∀ (before : List Char) (c : Char) (after : List Char), text = before ++ c :: after →
    isSeparator c = true → Even (before.count '"') →
      c = ' ' ∧ before ≠ [] ∧ ∃ next rest, after = next :: rest ∧ isSeparator next = false

@[simp] theorem normalize_nil (place : Place) (quoted : Bool) :
    normalize place quoted [] = [] := rfl

@[simp] theorem normalize_cons (place : Place) (quoted : Bool) (c : Char) (text : List Char) :
    normalize place quoted (c :: text)
      = if quoted || !isSeparator c then
          place.lead ++ c :: normalize .inside (quoted ^^ isQuote c) text
        else
          normalize place.afterSeparator false text := rfl

/-! ## Joined pieces -/

/-- The scanner does not drop a piece that it has begun to read. -/
theorem pieces_ne_nil {piece : List Char} (hne : piece ≠ []) (quoted : Bool) (text : List Char) :
    Scanner.pieces quoted piece text ≠ [] := by
  induction text generalizing quoted piece with
  | nil => simp [Scanner.keep, hne]
  | cons c text ih =>
    rw [Scanner.pieces_cons]
    split
    · exact ih (by simp) _
    · simp [Scanner.keep, hne]

/-- The pieces of a text after a piece that has been begun, and after one that is complete, joined
by spaces.

**Proof sketch.** Induction on the text, for both at once. A separator that counts completes the
piece that has been begun; the next other character begins a piece, which is why a space comes
before it. -/
theorem intercalate_pieces_of_ne_nil (text : List Char) :
    (∀ (quoted : Bool) (piece : List Char), piece ≠ [] →
      [' '].intercalate (Scanner.pieces quoted piece text)
        = piece ++ normalize .inside quoted text) ∧
    (∀ piece : List Char, [' '].intercalate (piece :: Scanner.pieces false [] text)
        = piece ++ normalize .gap false text) := by
  induction text with
  | nil =>
    constructor
    · intro quoted piece hne
      rw [Scanner.pieces_nil, Scanner.keep_of_ne_nil hne, List.intercalate_singleton, normalize_nil,
        List.append_nil]
    · intro piece
      rw [Scanner.pieces_nil, Scanner.keep_nil, List.intercalate_singleton, normalize_nil,
        List.append_nil]
  | cons c text ih =>
    obtain ⟨ihInside, ihGap⟩ := ih
    constructor
    · intro quoted piece hne
      rw [Scanner.pieces_cons, normalize_cons]
      split
      · rw [ihInside _ _ (by simp), List.append_assoc]
        rfl
      · rw [Scanner.keep_of_ne_nil hne]
        exact ihGap piece
    · intro piece
      rw [Scanner.pieces_cons, normalize_cons]
      split
      · have hnext := pieces_ne_nil (List.cons_ne_nil c []) (false ^^ isQuote c) text
        rw [List.intercalate_cons_of_ne_nil (by simpa using hnext), List.nil_append,
          ihInside _ _ (List.cons_ne_nil c []), List.append_assoc]
        rfl
      · exact ihGap piece

/-- **The pieces of a text, joined by spaces, are its normal form.** -/
theorem intercalate_pieces (text : List Char) :
    [' '].intercalate (Scanner.pieces false [] text) = normalize .start false text := by
  induction text with
  | nil => rfl
  | cons c text ih =>
    rw [Scanner.pieces_cons, normalize_cons]
    split
    · rw [List.nil_append, (intercalate_pieces_of_ne_nil text).1 _ _ (List.cons_ne_nil c [])]
      rfl
    · exact ih

/-! ## Normal texts -/

namespace IsNormalFrom

/-- The first character, when it is no separator that counts, in front of a normal text. -/
theorem cons {place : Place} {quoted : Bool} {c : Char} {text : List Char}
    (hc : (quoted || !isSeparator c) = true)
    (h : IsNormalFrom .inside (quoted ^^ isQuote c) text) :
    IsNormalFrom place quoted (c :: text) := by
  intro before d after htext hd hopen
  cases before with
  | nil =>
    obtain ⟨rfl, rfl⟩ := List.cons.inj htext
    rw [isOpen_nil] at hopen
    simp [hopen, hd] at hc
  | cons b before =>
    obtain ⟨rfl, rfl⟩ := List.cons.inj htext
    obtain ⟨hspace, -, hnext⟩ := h before d after rfl hd hopen
    exact ⟨hspace, .inl (List.cons_ne_nil _ _), hnext⟩

/-- A space between a piece and the character that another one starts with. -/
theorem space {place : Place} (hplace : place ≠ .start) {c : Char} {text : List Char}
    (hc : isSeparator c = false) (h : IsNormalFrom .inside false (c :: text)) :
    IsNormalFrom place false (' ' :: c :: text) := by
  intro before d after htext hd hopen
  cases before with
  | nil =>
    obtain ⟨rfl, rfl⟩ := List.cons.inj htext
    exact ⟨rfl, .inr hplace, c, text, rfl, hc⟩
  | cons b before =>
    obtain ⟨rfl, htail⟩ := List.cons.inj htext
    rw [isOpen_cons, isQuote_space] at hopen
    obtain ⟨hspace, -, hnext⟩ := h before d after htail hd hopen
    exact ⟨hspace, .inl (List.cons_ne_nil _ _), hnext⟩

/-- What is normal where a piece may have come before is normal in a piece. -/
theorem of_afterSeparator {place : Place} {quoted : Bool} {text : List Char}
    (h : IsNormalFrom place.afterSeparator quoted text) : IsNormalFrom place quoted text := by
  intro before c after htext hc hopen
  obtain ⟨hspace, hplace, hnext⟩ := h before c after htext hc hopen
  refine ⟨hspace, ?_, hnext⟩
  rcases hplace with hne | hplace
  · exact .inl hne
  · right
    rintro rfl
    exact hplace rfl

/-- After a character that is no separator that counts, the rest is normal in a piece. -/
theorem tail {place : Place} {quoted : Bool} {c : Char} {text : List Char}
    (h : IsNormalFrom place quoted (c :: text)) :
    IsNormalFrom .inside (quoted ^^ isQuote c) text := by
  intro before d after htext hd hopen
  obtain ⟨hspace, -, hnext⟩ := h (c :: before) d after (by rw [htext]; rfl) hd hopen
  exact ⟨hspace, .inr (by decide), hnext⟩

end IsNormalFrom

/-- **What has been put in order is normal.**

**Proof sketch.** Induction on the text. A gap is written as a space only when the next piece comes;
the flag is down in a gap, so the character after the space is no separator. -/
theorem isNormalFrom_normalize {place : Place} {quoted : Bool}
    (hgap : place = .gap → quoted = false) (text : List Char) :
    IsNormalFrom place quoted (normalize place quoted text) := by
  induction text generalizing place quoted with
  | nil =>
    intro before c after htext
    simp at htext
  | cons c text ih =>
    rw [normalize_cons]
    split
    · next hc =>
      have hrest : IsNormalFrom .inside (quoted ^^ isQuote c)
          (normalize .inside (quoted ^^ isQuote c) text) := ih (by simp)
      cases place with
      | start => exact .cons hc hrest
      | inside => exact .cons hc hrest
      | gap =>
        have hquoted : quoted = false := hgap rfl
        subst hquoted
        have hsep : isSeparator c = false := by simpa using hc
        exact .space (by decide) hsep (.cons hc hrest)
    · next hc =>
      obtain ⟨rfl, -⟩ := separates_of_not hc
      exact (ih fun _ => rfl).of_afterSeparator

/-- **What is normal stays as it is.**

**Proof sketch.** Induction on the text. A separator that counts is a space here, not at the start,
and a character that is no separator follows it; so the space is left out, but written again before
that character. -/
theorem normalize_eq_self {place : Place} (hplace : place ≠ .gap) {quoted : Bool}
    {text : List Char} (h : IsNormalFrom place quoted text) :
    normalize place quoted text = text := by
  induction text generalizing place quoted with
  | nil => rfl
  | cons c text ih =>
    have hlead : place.lead = [] := by
      cases place with
      | start => rfl
      | inside => rfl
      | gap => exact absurd rfl hplace
    have hrest := ih (by decide) h.tail
    rw [normalize_cons]
    split
    · rw [hlead, hrest]
      rfl
    · next hc =>
      obtain ⟨rfl, hsep⟩ := separates_of_not hc
      obtain ⟨rfl, hstart, next, rest, rfl, hnext⟩ := h [] c text rfl hsep rfl
      have hinside : place.afterSeparator = .gap := by
        cases place with
        | start => simp at hstart
        | inside => rfl
        | gap => rfl
      have hcond : (false || !isSeparator next) = true := by simp [hnext]
      rw [isQuote_space, Bool.xor_false, normalize_cons, if_pos hcond] at hrest
      rw [hinside, normalize_cons, if_pos hcond]
      exact congrArg (' ' :: ·) hrest

/-- A text is normal from its start. -/
theorem isNormalFrom_start_iff (text : List Char) :
    IsNormalFrom .start false text ↔ IsNormal text := by
  simp only [IsNormalFrom, IsNormal, isOpen_eq_false_iff, ne_eq, not_true_eq_false, or_false]

/-- The texts that are in order already are the normal ones. -/
theorem normalize_eq_self_iff (text : List Char) :
    normalize .start false text = text ↔ IsNormal text := by
  rw [← isNormalFrom_start_iff]
  constructor
  · intro h
    rw [← h]
    exact isNormalFrom_normalize (by simp) text
  · exact normalize_eq_self (by decide)

end NormalForm

namespace Filter

/-- The text of what has been read is the normal form. -/
theorem toList_toFilterString_ofString (text : String) :
    (ofString text).toFilterString.toList = NormalForm.normalize .start false text.toList := by
  have hpieces : (Scanner.terms text).map (fun term => term.render.toList)
      = Scanner.pieces false [] text.toList := by
    rw [Scanner.terms, List.map_map]
    refine (List.map_congr_left ?_).trans (List.map_id _)
    intro piece _
    rw [Function.comp_apply, Term.render_ofPiece, String.toList_ofList]
    rfl
  rw [toFilterString, terms_ofString, (Term.faithful_scan text).toList_joinTerms, hpieces,
    NormalForm.intercalate_pieces]

/-- **What becomes of a filter string that is read and written.** It is put into its normal form;
the normal form has the same terms and is its own normal form; and a text comes out as it went in
exactly when it is normal. -/
theorem toFilterString_ofString (text : String) :
    (ofString text).toFilterString.toList = NormalForm.normalize .start false text.toList ∧
      (ofString (ofString text).toFilterString).terms = (ofString text).terms ∧
      (ofString (ofString text).toFilterString).toFilterString = (ofString text).toFilterString ∧
      ((ofString text).toFilterString = text ↔ NormalForm.IsNormal text.toList) := by
  have hnormal := toList_toFilterString_ofString text
  have hterms := terms_ofString_toFilterString text
  refine ⟨hnormal, hterms, ?_, ?_⟩
  · rw [toFilterString, hterms]
    rfl
  · rw [← NormalForm.normalize_eq_self_iff, ← hnormal, String.toList_inj]

end Filter

end QueryFilter
