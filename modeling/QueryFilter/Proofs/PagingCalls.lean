import QueryFilter.Cli.Run
import QueryFilter.Proofs.PagingRuns
import QueryFilter.Proofs.Recording
import QueryFilter.Proofs.SafeEditing
import QueryFilter.Proofs.Survival

set_option relaxedAutoImplicit false
set_option autoImplicit false

/-!
# Going from page to page by calls

Each call of `next` reads a filter string, goes to the next page and prints the filter. When what one
call prints is passed to the next one, the filter goes through its text once for every page. With all
quotes closed at the start nothing is lost on the way, so that the calls do what the steps do.

## Main definitions

* `QueryFilter.Cli.optionText` — an option with its value, as one argument.
* `QueryFilter.Cli.nextArguments` — the arguments of a call that goes to the next page.
* `QueryFilter.Cli.Outcome.text` — what a call prints on its line.
* `QueryFilter.Cli.pagedText` — the text that is left after a number of calls.

## Main results

* `QueryFilter.Cli.loadSettings_isValid` — the settings of a call are valid.
* `QueryFilter.Cli.run_nextArguments` — what a call prints.
* `QueryFilter.Cli.ofString_pagedText` — the filter after a number of calls.
* `QueryFilter.Cli.paging_by_calls` — its first row, and the terms that select.
-/

namespace QueryFilter.Cli

/-! ## Arguments -/

/-- An option with its value, as one argument. -/
def optionText (name value : String) : String :=
  "--" ++ name ++ "=" ++ value

/-- An option with its value is read as what it is, whatever the value. -/
theorem ofString_optionText {name : String} (hname : '=' ∉ name.toList) (value : String) :
    Argument.ofString (optionText name value) = .long name (some value) := by
  have htext : (optionText name value).toList = '-' :: '-' :: (name.toList ++ '=' :: value.toList) := by
    simp [optionText]
  have hname' : ∀ c ∈ name.toList, (c != '=') = true := by
    intro c hc
    simpa using ne_of_mem_of_not_mem hc hname
  have htake : (name.toList ++ '=' :: value.toList).takeWhile (· != '=') = name.toList := by
    simp [List.takeWhile_append_of_pos hname']
  have hdrop : (name.toList ++ '=' :: value.toList).dropWhile (· != '=') = '=' :: value.toList := by
    simp [List.dropWhile_append_of_pos hname']
  obtain ⟨c, rest, hrest⟩ : ∃ c rest, name.toList ++ '=' :: value.toList = c :: rest :=
    List.exists_cons_of_ne_nil (by simp)
  rw [hrest] at htext htake hdrop
  simp only [Argument.ofString, htext, htake, hdrop, String.ofList_toList]

/-- An option that takes a value is read with it, if it was not given before. -/
theorem readOptions_optionText {specs : List OptionSpec} {allowVersion : Bool} {given : Given}
    {name found : String} (hname : '=' ∉ name.toList)
    (hspec : specs.find? (fun spec => spec.name == name) = some ⟨found, true⟩)
    (hgiven : given.lookup name = none) (value : String) (rest : List String) :
    readOptions specs allowVersion given (optionText name value :: rest)
      = readOptions specs allowVersion ((name, value) :: given) rest := by
  have hadd : given.add? name value = some ((name, value) :: given) := by
    rw [Given.add?, hgiven]
    rfl
  simp only [readOptions, ofString_optionText hname, hspec, hadd]

/-- The arguments of a call that goes to the next page. A settings file is named before the command
or after it, or not at all. -/
def nextArguments (before after : Option String) (text : String) : List String :=
  (before.map (optionText "config")).toList
    ++ "next" :: optionText "filter" text :: (after.map (optionText "config")).toList

/-- A call that goes to the next page is understood, whatever the text of the filter. A settings file
that is named after the command counts. -/
theorem ofArguments_nextArguments (before after : Option String) (text : String) :
    Request.ofArguments (nextArguments before after text) = .run (after.or before) (.next text) := by
  have hconfig : '=' ∉ "config".toList := by decide
  have hfilter : '=' ∉ "filter".toList := by decide
  have hword (given : Given) (rest : List String) :
      readOptions [configOption] true given ("next" :: rest) = .word given "next" rest := rfl
  have hbefore : readOptions [configOption] true [] (nextArguments before after text)
      = .word (before.map (Prod.mk "config")).toList "next"
        (optionText "filter" text :: (after.map (optionText "config")).toList) := by
    cases before with
    | none => exact hword [] _
    | some path => exact (readOptions_optionText hconfig rfl rfl path _).trans (hword _ _)
  have hafter : readOptions [configOption, valued "filter"] false []
      (optionText "filter" text :: (after.map (optionText "config")).toList)
        = .finished ((after.map (Prod.mk "config")).toList ++ [("filter", text)]) := by
    rw [readOptions_optionText hfilter rfl rfl]
    cases after with
    | none => rfl
    | some path => exact readOptions_optionText hconfig rfl rfl path []
  have hspec : commands.find? (fun spec => spec.name == "next") = some (ofFilter "next" .next) := rfl
  have hoptions (config : Option String) : Request.ofOptions (ofFilter "next" .next) config
      (optionText "filter" text :: (after.map (optionText "config")).toList)
        = .run (after.or config) (.next text) := by
    rw [Request.ofOptions, ofFilter, hafter]
    cases after with
    | none => rfl
    | some path => rfl
  simp only [Request.ofArguments, hbefore, hspec, hoptions]
  cases before with
  | none => rfl
  | some path => rfl

/-! ## One call -/

/-- Settings are valid after the overrides, whatever they were before. -/
theorem isValid_of_withOverrides {settings result : Settings} {overrides : Settings.Overrides}
    (h : settings.withOverrides overrides = .ok result) : result.IsValid := by
  simp only [Settings.withOverrides, Error.bind_eq_ok_iff] at h
  obtain ⟨rows, -, first, -, h⟩ := h
  obtain ⟨hvalid, rfl⟩ := Settings.validate_eq_ok_iff.1 h
  exact hvalid

/-- The settings of a call are valid. -/
theorem loadSettings_isValid {world : World} {config : Option String} {settings : Settings}
    (h : loadSettings world config = .ok settings) : settings.IsValid := by
  cases config with
  | none => exact isValid_of_withOverrides h
  | some path =>
    obtain ⟨loaded, -, h⟩ := Error.bind_eq_ok_iff.1 h
    exact isValid_of_withOverrides h

variable {world : World} {before after : Option String} {settings : Settings}

/-- A call that goes to the next page prints it on a line. -/
theorem run_nextArguments (h : loadSettings world (after.or before) = .ok settings) (text : String) :
    run world (nextArguments before after text)
      = .success (filterLine ((Filter.ofString text).next settings)) := by
  simp only [run, ofArguments_nextArguments, runCommand, h]
  rfl

/-! ## Any number of calls -/

/-- What a call prints, without the end of the line. -/
def Outcome.text (outcome : Outcome) : String :=
  String.ofList outcome.output.toList.dropLast

/-- What is printed on a line is found there. -/
theorem Outcome.text_success_line (text : String) : (success (line text)).text = text := by
  simp [Outcome.text, Outcome.output, line]

/-- The text that is left after a number of calls, each of which goes on from what the one before it
has printed. -/
def pagedText (world : World) (before after : Option String) (text : String) : Nat → String
  | 0 => text
  | n + 1 => (run world (nextArguments before after (pagedText world before after text n))).text

end QueryFilter.Cli

namespace QueryFilter.Filter

/-- Steps to the next page are edits. -/
theorem iterate_next_eq_applyAll (filter : Filter) (settings : Settings) (n : Nat) :
    (·.next settings)^[n] filter = filter.applyAll (List.replicate n (.next settings)) := by
  induction n with
  | zero => rfl
  | succ n ih =>
    rw [Function.iterate_succ_apply', ih, List.replicate_succ', applyAll, applyAll,
      List.foldl_append]
    rfl

/-- All quotes of a text are closed. Then after any number of steps to the next page, the filter is
read back from its text. -/
theorem ofString_toFilterString_iterate_next {text : String} (htext : Even (text.toList.count '"'))
    (settings : Settings) (n : Nat) :
    ofString ((·.next settings)^[n] (ofString text)).toFilterString
      = (·.next settings)^[n] (ofString text) := by
  rw [iterate_next_eq_applyAll]
  have hsafe : ∀ edit ∈ List.replicate n (Edit.next settings), edit.IsSafe := by
    intro edit hedit
    rw [List.eq_of_mem_replicate hedit]
    trivial
  have hmerged : ∀ edit ∈ List.replicate n (Edit.next settings), ∀ other,
      edit = .mergeKeywords other → SafelyEdited other := by
    intro edit hedit other hother
    rw [List.eq_of_mem_replicate hedit] at hother
    contradiction
  have hwhole := ((SafelyEdited.ofString text htext).applyAll hsafe hmerged).forall_isWhole
  obtain ⟨hid, hkind, hname⟩ :=
    identity_applyAll (ofString text) (List.replicate n (.next settings))
  have hnone (text : String) :
      (ofString text).id = none ∧ (ofString text).kind = none ∧ (ofString text).name = none :=
    ⟨rfl, rfl, rfl⟩
  refine Filter.ext ?_ ?_ ?_ ?_
  · rw [toFilterString, terms_ofString_joinTerms_iff]
    exact Term.faithful_of_isWhole hwhole
  · rw [hid, (hnone _).1, (hnone _).1]
  · rw [hkind, (hnone _).2.1, (hnone _).2.1]
  · rw [hname, (hnone _).2.2, (hnone _).2.2]

end QueryFilter.Filter

namespace QueryFilter.Cli

variable {world : World} {before after : Option String} {settings : Settings}

/-- Each call succeeds and prints the text that is left after it on a line. -/
theorem run_pagedText (h : loadSettings world (after.or before) = .ok settings) (text : String)
    (n : Nat) :
    run world (nextArguments before after (pagedText world before after text n))
      = .success (line (pagedText world before after text (n + 1))) := by
  rw [pagedText, run_nextArguments h, filterLine, Outcome.text_success_line]

/-- **The text after a number of calls** is that of the filter after as many steps.

**Proof sketch.** Induction on the number of calls. What the last call is passed is read back as the
filter after the steps before it: at the start because the text is the one that is read, later since
steps to the next page do not open quotes. -/
theorem pagedText_succ (h : loadSettings world (after.or before) = .ok settings) {text : String}
    (htext : Even (text.toList.count '"')) (n : Nat) :
    pagedText world before after text (n + 1)
      = ((·.next settings)^[n + 1] (Filter.ofString text)).toFilterString := by
  have hcall (n : Nat) : pagedText world before after text (n + 1)
      = ((Filter.ofString (pagedText world before after text n)).next settings).toFilterString := by
    rw [pagedText, run_nextArguments h, filterLine, Outcome.text_success_line]
  induction n with
  | zero => exact hcall 0
  | succ n ih =>
    rw [hcall, ih, Filter.ofString_toFilterString_iterate_next htext,
      Function.iterate_succ_apply' _ (n + 1)]

/-- The filter after a number of calls is the one after as many steps. -/
theorem ofString_pagedText (h : loadSettings world (after.or before) = .ok settings) {text : String}
    (htext : Even (text.toList.count '"')) (n : Nat) :
    Filter.ofString (pagedText world before after text n)
      = (·.next settings)^[n] (Filter.ofString text) := by
  cases n with
  | zero => rfl
  | succ n => rw [pagedText_succ h htext, Filter.ofString_toFilterString_iterate_next htext]

/-- **Paging by calls.** A filter string with an even number of quotes is passed to a call that goes
to the next page, and what each call prints to the next one. The settings of the calls, from the file
that is named and from the environment, make `first` and `rows` numeric. Then every call succeeds and
prints a line. The filter after one call or more starts as many pages after the first one as there
were calls, or at the greatest integer; the first page and its size are what the filter string states,
if that makes sense, and else what the settings say. The terms that select have the same text as at
the start. -/
theorem paging_by_calls (h : loadSettings world (after.or before) = .ok settings)
    (hfirst : settings.isNumeric Keyword.first = true)
    (hrows : settings.isNumeric Keyword.rows = true) {text : String}
    (htext : Even (text.toList.count '"')) {n : Nat} (hn : 1 ≤ n) :
    let start := Filter.ofString text
    let texts := pagedText world before after text
    let first := ((start.statedNumber? Keyword.first).filter (1 ≤ ·.toInt)).getD
      settings.defaultFirst
    let rows := ((start.statedNumber? Keyword.rows).filter (0 < ·.toInt)).getD
      settings.defaultRows
    (∀ m < n, (run world (nextArguments before after (texts m))).exitCode = 0 ∧
      (run world (nextArguments before after (texts m))).output = texts (m + 1) ++ "\n") ∧
    (∃ k : Int64, k.toInt = min (first.toInt + n * rows.toInt) Int64.maxValue.toInt ∧
      (Filter.ofString (texts n)).getWith? settings Keyword.first = some (.number k)) ∧
    (Filter.ofString (texts n)).toCriteriaString = start.toCriteriaString := by
  intro start texts first rows
  have hfirst' : start.effectiveFirst settings = first :=
    Filter.effectiveFirst_of_isNumeric hfirst start
  have hrows' : start.effectiveRows settings = rows := Filter.effectiveRows_of_isNumeric hrows start
  refine ⟨?_, ?_, ?_⟩
  · intro m _
    rw [run_pagedText h]
    exact ⟨rfl, rfl⟩
  · have hread := Filter.getWith?_iterate_next (loadSettings_isValid h) hfirst start hn
    rw [hfirst', hrows'] at hread
    obtain ⟨k, hk, hkInt⟩ := hread
    rw [ofString_pagedText h htext]
    exact ⟨k, hkInt, hk⟩
  · rw [ofString_pagedText h htext, Filter.toCriteriaString, Filter.criteria_iterate_next]
    rfl

/-- Three calls with a settings file after the command that has eleven rows to a page, and a variable
of the environment that overrides the first row. -/
theorem paging_by_calls_three :
    let file : String := "\x7b\"default_rows\":11,\"numeric_keywords\":[\"rows\",\"first\"]\x7d"
    let world : World :=
      ⟨fun path => if path = "s.json" then some file.toUTF8 else none,
        fun name => if name = Settings.firstVariable then some " 4 " else none⟩
    let settings : Settings := ⟨11, 4, ["rows", "first"]⟩
    let text := "name=\"a b\" word rows=0"
    let texts := pagedText world (some "t.json") (some "s.json") text
    loadSettings world (some "s.json") = .ok settings ∧
      settings.isNumeric Keyword.first = true ∧ settings.isNumeric Keyword.rows = true ∧
      Even (text.toList.count '"') ∧
      (∀ m < 3, (run world (nextArguments (some "t.json") (some "s.json") (texts m))).exitCode = 0) ∧
      (Filter.ofString (texts 3)).getWith? settings Keyword.first = some (.number 37) ∧
      (Filter.ofString (texts 3)).toCriteriaString = (Filter.ofString text).toCriteriaString := by
  intro file world settings text texts
  have hload : loadSettings world (some "s.json") = .ok settings := by
    decide +kernel +zetaReduce
  have hfirst : settings.isNumeric Keyword.first = true := by decide +zetaReduce
  have hrows : settings.isNumeric Keyword.rows = true := by decide +zetaReduce
  have htext : Even (text.toList.count '"') := by decide +zetaReduce
  obtain ⟨hcalls, ⟨k, hk, hread⟩, hcriteria⟩ :=
    @paging_by_calls world (some "t.json") (some "s.json") settings hload hfirst hrows text htext 3
      (by omega)
  have hlast : k.toInt = (37 : Int64).toInt := by
    rw [hk]
    decide +kernel +zetaReduce
  refine ⟨hload, hfirst, hrows, htext, fun m hm => (hcalls m hm).1, ?_, hcriteria⟩
  rw [hread, Int64.toInt_inj.1 hlast]

end QueryFilter.Cli
