import QueryFilter.Proofs.RoundTrip

set_option relaxedAutoImplicit false
set_option autoImplicit false

/-!
# Lexical classes, in the grammar and outside it

Which texts are keywords is said twice: by the rule of the grammar, which reads them, and by the
condition that guards the writing of a term. In the same way the separators that the grammar leaves
out of a value are those for which a value is written in quotes. Each time the two agree on every
text: what the guards let through is read back as it was written, and nothing else is.

## Main definitions

* `QueryFilter.Peg.Pattern.MatchesAll` — a pattern takes a whole text.
* `QueryFilter.ReadsAs` — a text is read as a single term with the given parts.

## Main results

* `QueryFilter.Grammar.keyword_matchesAll_iff`, `QueryFilter.Grammar.value_matchesAll_iff` — which
  texts are keywords and values.
* `QueryFilter.readsAs_iff` — which parts are read back once they are put together.
* `QueryFilter.quoteValue_eq_self_iff_isSolid` — which values without quotes are left alone.
* `QueryFilter.guards_agree_with_grammar` — the guards and the grammar say the same.
-/

namespace QueryFilter

/-- A pattern takes a whole text and leaves nothing of it. -/
def Peg.Pattern.MatchesAll {ρ : Type} (p : Pattern ρ) (text : List Char) : Prop :=
  ∃ m, p.run 0 text = some m ∧ m.rest = []

/-- A text is read as a single term that has a keyword, a relation and a value. -/
def ReadsAs (text keyword : String) (relation : Relation) (value : String) : Prop :=
  ∃ term : Term, parseTerms? text = some [term] ∧ term.keyword = some keyword ∧
    term.relation = some relation ∧ term.value = value

/-! ## The rules of the grammar -/

namespace Grammar

open Quotes

/-- **The keywords of the grammar are the valid ones.** -/
theorem keyword_matchesAll_iff (text : String) :
    keyword.MatchesAll text.toList ↔ Keyword.isValid text = true := by
  have hnil : text.toList = [] ↔ text = "" := by simp
  rw [Peg.Pattern.MatchesAll, run_keyword, Keyword.isValid, Bool.and_eq_true, bne_iff_ne, ne_eq,
    ← hnil, List.all_eq_true]
  constructor
  · rintro ⟨m, hm, hrest⟩
    split at hm
    · contradiction
    · next hne =>
      rw [Option.some.injEq] at hm
      subst hm
      refine ⟨?_, List.dropWhile_eq_nil_iff.1 hrest⟩
      intro hnil
      rw [hnil] at hne
      exact hne rfl
  · rintro ⟨hne, hall⟩
    rw [List.takeWhile_eq_self_iff.2 hall, if_neg hne]
    exact ⟨_, rfl, List.dropWhile_eq_nil_iff.2 hall⟩

/-- **The values of the grammar** are the texts that are not empty and have all of their separators
inside quotes. -/
theorem value_matchesAll_iff (text : List Char) :
    value.MatchesAll text ↔ text ≠ [] ∧ isSolid false text = true := by
  rw [Peg.Pattern.MatchesAll, run_value]
  constructor
  · rintro ⟨m, hm, hrest⟩
    split at hm
    · contradiction
    · next hne =>
      rw [Option.some.injEq] at hm
      subst hm
      have hdrop : dropSolid false text = [] := hrest
      have hsplit := takeSolid_append_dropSolid false text
      rw [hdrop, List.append_nil] at hsplit
      have hsolid := isSolid_takeSolid false text
      rw [hsplit] at hne hsolid
      exact ⟨hne, hsolid⟩
  · rintro ⟨hne, hsolid⟩
    have htake := takeSolid_append hsolid []
    have hdrop := dropSolid_append hsolid []
    rw [List.append_nil, takeSolid_nil, List.append_nil] at htake
    rw [List.append_nil, dropSolid_nil] at hdrop
    rw [htake, if_neg hne]
    exact ⟨_, rfl, hdrop⟩

/-- A text that is empty or a value has all of its separators inside quotes, and the other way round.
-/
theorem eq_empty_or_value_matchesAll_iff (text : String) :
    text = "" ∨ value.MatchesAll text.toList ↔ isSolid false text.toList = true := by
  rw [value_matchesAll_iff]
  by_cases h : text = ""
  · simp [h]
  · simp [h]

end Grammar

/-! ## Terms that are read back -/

/-- A term alone is read back from its text exactly when it is canonical. -/
theorem parseTerms?_render_iff (term : Term) :
    parseTerms? term.render = some [term] ↔ term.IsCanonical := by
  rw [parseTerms?_eq_terms, Option.some.injEq]
  constructor
  · intro h
    have hfaithful := Term.faithful_scan term.render
    rw [h] at hfaithful
    exact hfaithful.isCanonical term (List.mem_singleton_self term)
  · intro h
    have hfaithful : Term.Faithful [term] := ⟨by simpa using h, by simp⟩
    have hkept : [term.render].filter (· != "") = [term.render] := by
      simpa using h.render_ne_empty
    have hread := hfaithful.scan_joinTerms
    rwa [Filter.joinTerms, List.map_singleton, hkept, String.intercalate_singleton] at hread

/-- The text of a term that is made for a keyword. -/
theorem render_keyed (keyword : String) (relation : Relation) (value : String) :
    (Term.keyed keyword relation value).render = keyword ++ (relation.render ++ value) :=
  Term.render_ofParts keyword relation value

/-- A keyword, a relation and a value are read back as one term exactly when the keyword is valid and
all separators of the value stand inside quotes. -/
theorem readsAs_iff {keyword value : String} {relation : Relation} :
    ReadsAs (keyword ++ (relation.render ++ value)) keyword relation value ↔
      Keyword.isValid keyword = true ∧ Quotes.isSolid false value.toList = true := by
  constructor
  · rintro ⟨term, hread, hkeyword, hrelation, rfl⟩
    have hrender : term.render = keyword ++ (relation.render ++ term.value) := by
      rw [Term.render, hkeyword, hrelation]
      rfl
    rw [← hrender, parseTerms?_render_iff] at hread
    exact ⟨(hread.keyword_isValid keyword hkeyword).1, hread.value_isSolid⟩
  · rintro ⟨hvalid, hsolid⟩
    have hcanonical := (Term.isCanonical_keyed_iff hvalid relation value).2 hsolid
    refine ⟨.keyed keyword relation value, ?_, Term.keyword_keyed hvalid relation value, rfl, rfl⟩
    rw [← render_keyed, parseTerms?_render_iff]
    exact hcanonical

/-! ## Values that are written in quotes -/

/-- Without quotes in it, a value is left alone exactly when no separator of it has to be quoted. -/
theorem quoteValue_eq_self_iff_isSolid {value : String} (h : '"' ∉ value.toList) :
    quoteValue value = value ↔ Quotes.isSolid false value.toList = true := by
  have hquote : value.toList.any isQuote = false := (Quotes.any_isQuote_eq_false_iff _).2 h
  rw [quoteValue_eq_self_iff]
  constructor
  · intro hself
    refine Quotes.isSolid_of_not_any_isSeparator ?_ false
    cases hsep : value.toList.any isSeparator with
    | false => rfl
    | true =>
      rw [hself hsep] at hquote
      contradiction
  · intro hsolid hsep
    exact Quotes.any_isQuote_of_isSolid hsolid hsep

/-- **The guards agree with the grammar**, on all texts.

* A text is a valid keyword exactly when the rule of keywords takes all of it, and exactly when it is
  read back as the keyword of a single term, whatever relation and value come after it. Such a value
  is empty or taken by the rule of values as a whole.
* A value without quotes is read back after a valid keyword in the form in which it is stored, and it
  is stored as it is exactly when it would also be read back as it is.
* Storing a value that is in this form already changes nothing. -/
theorem guards_agree_with_grammar :
    (∀ keyword : String,
      (Keyword.isValid keyword = true ↔ Grammar.keyword.MatchesAll keyword.toList) ∧
        (Keyword.isValid keyword = true ↔ ∀ (relation : Relation) (value : String),
          value = "" ∨ Grammar.value.MatchesAll value.toList →
            ReadsAs (keyword ++ (relation.render ++ value)) keyword relation value)) ∧
    (∀ keyword value : String, Keyword.isValid keyword = true → '"' ∉ value.toList →
      ReadsAs (keyword ++ (Relation.equal.render ++ quoteValue value)) keyword .equal
        (quoteValue value) ∧
      (quoteValue value = value ↔
        ReadsAs (keyword ++ (Relation.equal.render ++ value)) keyword .equal value)) ∧
    ∀ value : String, quoteValue (quoteValue value) = quoteValue value := by
  refine ⟨fun keyword => ⟨(Grammar.keyword_matchesAll_iff keyword).symm, ?_⟩, ?_,
    quoteValue_quoteValue⟩
  · simp only [Grammar.eq_empty_or_value_matchesAll_iff, readsAs_iff]
    constructor
    · intro hvalid relation value hsolid
      exact ⟨hvalid, hsolid⟩
    · intro h
      exact (h .equal "" rfl).1
  · intro keyword value hvalid hquote
    have hnone : value.toList.any isQuote = false := (Quotes.any_isQuote_eq_false_iff _).2 hquote
    refine ⟨readsAs_iff.2 ⟨hvalid, ?_⟩, ?_⟩
    · exact (Quotes.isSolid_quoteValue_iff value).2 (.inl hnone)
    · rw [readsAs_iff, quoteValue_eq_self_iff_isSolid hquote]
      exact ⟨fun hsolid => ⟨hvalid, hsolid⟩, And.right⟩

/-- A keyword with a dash before a value with a quoted tab, and before a value that ends with a space
and is therefore stored in quotes. -/
theorem guards_agree_with_grammar_two :
    ReadsAs "sort-reverse:a\"\t\"" "sort-reverse" .tag "a\"\t\"" ∧
      ReadsAs "sort-reverse=\"=a \"" "sort-reverse" .equal "\"=a \"" ∧
      ¬ ReadsAs "sort-reverse==a " "sort-reverse" .equal "=a " := by
  obtain ⟨hkeyword, hvalue, -⟩ := guards_agree_with_grammar
  have hvalid : Keyword.isValid "sort-reverse" = true := by decide
  have htab : Grammar.value.MatchesAll "a\"\t\"".toList := ⟨_, rfl, rfl⟩
  obtain ⟨hstored, hself⟩ := hvalue "sort-reverse" "=a " hvalid (by decide)
  have hquoted : quoteValue "=a " = "\"=a \"" := by decide
  rw [hquoted] at hstored hself
  refine ⟨(hkeyword "sort-reverse").2.1 hvalid .tag _ (.inr htab), hstored, ?_⟩
  exact mt hself.2 (by decide)

end QueryFilter
