import QueryFilter.Proofs.PagingCalls
import QueryFilter.Proofs.SavedText

set_option relaxedAutoImplicit false
set_option autoImplicit false

/-!
# Reading listings

The call `terms --json` prints the terms of a filter string as JSON, for programs that take a filter
apart without a parser of their own. Nothing is lost on the way: whatever the characters of a value
are, its text is found in what is printed, and the terms are found there as they are. So two filter
strings with different terms never have the same listing.

## Main definitions

* `QueryFilter.Term.read?` — the reader of a term, as a program would read a row of a listing.
* `QueryFilter.Cli.termsArguments` — the arguments of a call that prints a listing.

## Main results

* `QueryFilter.Cli.list?_listing` — the terms that are read in a listing.
* `QueryFilter.Cli.value?_listing` — the value that is read in a listing.
* `QueryFilter.Cli.run_termsArguments_iff` — what the call prints.
* `QueryFilter.Cli.terms_of_listing` — what is read in what the call prints.
-/

namespace QueryFilter

open Json

/-- Reads a term from an object with its parts. Other members are passed over. -/
def Term.read? : Reader Term
  | 0, _ => none
  | depth + 1, node => do
    let [keyword, relation, value] ← fields? [["keyword"], ["relation"], ["value"]] node | none
    let keyword ← optional? string? depth keyword
    let relation ← optional? Relation.read? depth relation
    let value ← value.bind (string? depth)
    some (.ofParts keyword relation value)

namespace Cli

/-! ## Rows -/

/-- The row of a term in a listing: an object with the place and the parts of the term. -/
def listingRow (index : Nat) (term : Term) : Value :=
  .object (("index", .number (.integer index)) :: term.members)

/-- The members of a row stand in the order of their names. -/
theorem sortedMembers_listingRow (index : Nat) (term : Term) :
    Value.SortedMembers (("index", .number (.integer index)) :: term.members) := by
  simp only [Value.SortedMembers, Term.members, List.pairwise_cons, List.forall_mem_cons,
    List.Pairwise.nil, and_true]
  decide

/-- A relation that may be missing is read by its name. -/
theorem optional?_relation_toNode (depth : Nat) (relation : Option Relation) :
    optional? Relation.read? depth (some (Value.ofString? (relation.map Relation.name)).toNode)
      = some relation := by
  cases relation with
  | none => rfl
  | some relation =>
    show (Relation.read? depth (.string (Quoted.ofText relation.name))).map some = _
    rw [Relation.read?, Quoted.text?_ofText, Option.bind_some, Relation.ofName?_name, Option.map_some]

/-- **The term of a row is read as it is.** -/
theorem read?_listingRow (depth index : Nat) (term : Term) :
    Term.read? (depth + 1) (listingRow index term).toNode = some term := by
  have hfields : fields? [["keyword"], ["relation"], ["value"]] (listingRow index term).toNode
      = some [some (Value.ofString? term.keyword).toNode,
          some (Value.ofString? (term.relation.map Relation.name)).toNode,
          some (Value.string term.value).toNode] := by
    rw [listingRow, fields?_toNode]
    rfl
  rw [Term.read?, hfields]
  simp only [Option.bind_eq_bind, Option.bind_some, optional?_string?_toNode,
    optional?_relation_toNode, string?_toNode, Term.ofParts_parts]

/-- A row has no numbers but integers. -/
theorem isIntegral_listingRow (index : Nat) (term : Term) : (listingRow index term).IsIntegral := by
  refine .object ?_
  simp only [Term.members, List.forall_mem_cons]
  exact ⟨.integer index, Value.isIntegral_ofString? _, Value.isIntegral_ofString? _, .string _,
    List.forall_mem_nil _⟩

/-- A row is read as the value that it is, if its index has at most 64 bits. -/
theorem value?_listingRow (depth : Nat) {index : Nat} (hindex : index < Number.significandBound)
    (term : Term) :
    value? (depth + 1) (listingRow index term).toNode = some (listingRow index term) := by
  have hoptional (text : Option String) :
      value? depth (Value.ofString? text).toNode = some (.ofString? text) := by
    cases text with
    | none =>
      rw [Value.ofString?, Value.toNode, value?]
    | some text => exact value?_toNode_string depth text
  have hnumber : value? depth (Value.number (.integer index)).toNode
      = some (.number (.integer index)) := by
    have hrange : Number.InRange index := by
      refine ⟨?_, by omega⟩
      have hmin : Int64.minValue.toInt ≤ 0 := by decide
      omega
    rw [Value.toNode, Number.literal_integer, value?, Number.ofLiteral?_ofInt hrange, Option.map_some]
  refine value?_toNode_object (sortedMembers_listingRow index term) ?_
  simp only [Term.members, List.forall_mem_cons]
  exact ⟨hnumber, hoptional _, hoptional _, value?_toNode_string depth _, List.forall_mem_nil _⟩

/-! ## Listings -/

/-- A listing has a row for each term. -/
theorem listing_eq (filter : Filter) : listing filter = .array (filter.terms.mapIdx listingRow) := rfl

/-- A listing has no numbers but integers. -/
theorem isIntegral_listing (filter : Filter) : (listing filter).IsIntegral := by
  refine .array fun item hitem => ?_
  obtain ⟨index, hindex, rfl⟩ := List.mem_mapIdx.1 hitem
  exact isIntegral_listingRow index _

/-- A list is read from what is written for its members and their places, when each of them is. -/
theorem mapM_mapIdx_eq_some {α β : Type} {read : β → Option α} {write : Nat → α → β}
    (h : ∀ index member, read (write index member) = some member) (list : List α) :
    (list.mapIdx write).mapM read = some list := by
  induction list generalizing write with
  | nil => rfl
  | cons member list ih =>
    rw [List.mapIdx_cons, List.mapM_cons, h, ih fun index => h (index + 1)]
    rfl

/-- **The terms of a listing are read as they are**, however many there are. -/
theorem list?_listing (depth : Nat) (filter : Filter) :
    list? Term.read? (depth + 2) (listing filter).toNode = some filter.terms := by
  rw [listing_eq, Value.toNode, list?, Value.toNodes_eq_map, List.mapM_map]
  refine mapM_mapIdx_eq_some (fun index term => ?_) filter.terms
  exact read?_listingRow depth index term

/-- **A listing is read as the value that it is**, if its indices have at most 64 bits. -/
theorem value?_listing (depth : Nat) {filter : Filter}
    (hlength : filter.terms.length ≤ Number.significandBound) :
    value? (depth + 2) (listing filter).toNode = some (listing filter) := by
  refine value?_toNode_array fun item hitem => ?_
  obtain ⟨index, hindex, rfl⟩ := List.mem_mapIdx.1 hitem
  exact value?_listingRow depth (by omega) _

/-! ## Calls -/

/-- What a reader reads in a value on its own line is what it reads in its document. -/
theorem decode?_line_pretty {α : Type} (read : Reader α) {value : Value} (hvalue : value.IsIntegral) :
    decode? read (line value.pretty) = read maxDepth value.toNode := by
  have hgap : ∀ c ∈ ['\n'], Token.isGap c = true := by
    intro c hc
    rw [List.mem_singleton.1 hc]
    rfl
  have hline : line value.pretty = String.ofList (value.write .pretty 0 ++ ['\n']) := by
    rw [line, Value.pretty, String.ofList_append]
  rw [decode?, hline, Node.ofText?_write_append Layout.isBlank_pretty hvalue hgap, Option.bind_some]

/-- The arguments of a call that prints the terms of a filter as JSON. -/
def termsArguments (text : String) : List String :=
  ["terms", "--json", optionText "filter" text]

/-- A call that prints the terms of a filter as JSON is understood, whatever the text of the filter. -/
theorem ofArguments_termsArguments (text : String) :
    Request.ofArguments (termsArguments text) = .run none (.terms text true) := by
  have hfilter : '=' ∉ "filter".toList := by decide
  have hword (rest : List String) :
      readOptions [configOption] true [] ("terms" :: rest) = .word [] "terms" rest := rfl
  have hswitch (rest : List String) :
      readOptions [configOption, valued "filter", ⟨"json", false⟩] false [] ("--json" :: rest)
        = readOptions [configOption, valued "filter", ⟨"json", false⟩] false [("json", "")] rest := rfl
  have hread : readOptions [configOption, valued "filter", ⟨"json", false⟩] false []
      ["--json", optionText "filter" text] = .finished [("filter", text), ("json", "")] := by
    rw [hswitch, readOptions_optionText hfilter rfl rfl]
    rfl
  obtain ⟨spec, hspec, hoptions⟩ : ∃ spec,
      commands.find? (fun spec => spec.name == "terms") = some spec ∧
        Request.ofOptions spec none ["--json", optionText "filter" text]
          = .run none (.terms text true) := by
    refine ⟨_, rfl, ?_⟩
    rw [Request.ofOptions, hread]
    rfl
  rw [Request.ofArguments, termsArguments, hword]
  dsimp only
  rw [hspec]
  exact hoptions

/-- The call prints the listing, unless the settings are wrong. -/
theorem run_termsArguments_iff {world : World} {text output : String} :
    run world (termsArguments text) = .success output ↔
      (∃ settings, loadSettings world none = .ok settings) ∧
        output = line (listing (.ofString text)).pretty := by
  simp only [run, ofArguments_termsArguments, runCommand]
  cases loadSettings world none with
  | ok settings =>
    show Outcome.success (line (listing (.ofString text)).pretty) = .success output ↔ _
    simp [eq_comm]
  | error error =>
    show Outcome.failure (.filter error) = .success output ↔ _
    simp

/-- **What is read in what the call prints.** A call prints the terms of a filter string as JSON. Then

* the terms are read there as those that the string is parsed as,
* as a value it is an array with an object for each term, with its place, its keyword, the name of its
  relation and its value, where null stands for a part that the term does not have, and
* if a call for another string prints the same, then that string is parsed as the same terms.

The places are read as integers as long as they have at most 64 bits. -/
theorem terms_of_listing {world : World} {settings : Settings}
    (h : loadSettings world none = .ok settings) (text : String) :
    ∃ output, run world (termsArguments text) = .success output ∧
      decode? (list? Term.read?) output = some (Filter.ofString text).terms ∧
      ((Filter.ofString text).terms.length ≤ Number.significandBound →
        decode? value? output = some (.array ((Filter.ofString text).terms.mapIdx fun index term =>
          .object [("index", .number (.integer index)), ("keyword", .ofString? term.keyword),
            ("relation", .ofString? (term.relation.map Relation.name)),
            ("value", .string term.value)]))) ∧
      ∀ world' other, run world' (termsArguments other) = .success output →
        (Filter.ofString other).terms = (Filter.ofString text).terms := by
  have hread (text : String) :
      decode? (list? Term.read?) (line (listing (.ofString text)).pretty)
        = some (Filter.ofString text).terms := by
    rw [decode?_line_pretty _ (isIntegral_listing _), maxDepth, list?_listing]
  refine ⟨_, run_termsArguments_iff.2 ⟨⟨settings, h⟩, rfl⟩, hread text, ?_, ?_⟩
  · intro hlength
    rw [decode?_line_pretty _ (isIntegral_listing _), maxDepth, value?_listing 125 hlength]
    rfl
  · intro world' other hother
    obtain ⟨-, hsame⟩ := run_termsArguments_iff.1 hother
    rw [← Option.some.injEq, ← hread other, ← hread text, hsame]

/-- A value with quotes around a tab, with a backslash, a control character and a letter that is not
ASCII, and behind it a word that stands alone. -/
theorem terms_of_listing_two :
    let world : World := ⟨fun _ => none, fun _ => none⟩
    let text := "name:\"a\tb\"\\\x01é or"
    loadSettings world none = .ok .default ∧
      ∃ output, run world (termsArguments text) = .success output ∧
        decode? value? output = some (.array
          [.object [("index", .number (.integer 0)), ("keyword", .string "name"),
              ("relation", .string "Tag"), ("value", .string "\"a\tb\"\\\x01é")],
            .object [("index", .number (.integer 1)), ("keyword", .null), ("relation", .null),
              ("value", .string "or")]]) := by
  intro world text
  have hsettings : loadSettings world none = .ok .default := by decide
  have hterms : (Filter.ofString text).terms
      = [.keyed "name" .tag "\"a\tb\"\\\x01é", .bare none "or"] := by
    decide +kernel +zetaReduce
  obtain ⟨output, houtput, -, hvalue, -⟩ := terms_of_listing hsettings text
  refine ⟨hsettings, output, houtput, ?_⟩
  rw [hvalue (by rw [hterms]; decide), hterms]
  rfl

end Cli

end QueryFilter
