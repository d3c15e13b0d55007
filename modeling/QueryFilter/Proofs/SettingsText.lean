import QueryFilter.KeywordValue
import QueryFilter.Proofs.JsonIntegers
import QueryFilter.Proofs.SavedText
import QueryFilter.Settings

set_option relaxedAutoImplicit false
set_option autoImplicit false

/-!
# Settings and values as JSON

Settings that are valid and values of keywords are written as JSON and read back as they are. A value
is a number or a text, and its JSON has no mark that says which: it is a number when an integer of 64
bits is written there, and a text when a string is. The two do not overlap, and nothing else is a
value.

## Main results

* `QueryFilter.Settings.ofJson_compact` — valid settings are read back.
* `QueryFilter.KeywordValue.decode?_toJson` — so are values.
* `QueryFilter.KeywordValue.decode?_eq_number_iff`, `QueryFilter.KeywordValue.decode?_eq_text_iff` —
  the texts that are read as numbers, and those that are read as texts.
* `QueryFilter.settings_and_values_read_back` — all of this at once.
-/

namespace QueryFilter

open Json

/-! ## Integers -/

namespace Json

/-- An integer of 64 bits is read from the literal that is written for it. -/
theorem int64?_ofInt (depth : Nat) (n : Int64) :
    int64? depth (.number (.ofInt n.toInt)) = some n :=
  int64?_eq_some_iff.2 ⟨_, rfl, Number.ofLiteral?_ofInt (Number.inRange_toInt n)⟩

/-- An integer of 64 bits that is written is read back. -/
theorem int64?_toNode (depth : Nat) (n : Int64) :
    int64? depth (Value.ofInt64 n).toNode = some n := by
  rw [Value.ofInt64, Value.toNode, Number.literal_integer, int64?_ofInt]

/-- No string is read as an integer. -/
theorem int64?_eq_none_of_string? {depth : Nat} {node : Node} {text : String}
    (h : string? depth node = some text) : int64? depth node = none := by
  cases node with
  | string quoted => rfl
  | null | bool _ | number _ | array _ | object _ => contradiction

end Json

/-! ## Settings -/

namespace Settings

/-- The numbers of settings are integers. -/
theorem isIntegral_toJson (settings : Settings) : settings.toJson.IsIntegral := by
  refine .object ?_
  simp only [List.forall_mem_cons]
  refine ⟨.integer _, .integer _, .array ?_, nofun⟩
  intro item hitem
  obtain ⟨keyword, -, rfl⟩ := List.mem_map.1 hitem
  exact .string keyword

/-- Settings are read from what is written for them, if there is a level for the list in them. -/
theorem read?_toNode (depth : Nat) (settings : Settings) :
    read? (depth + 2) settings.toJson.toNode = some settings := by
  have hfields : fields? (fieldNames.map fun name => [name]) settings.toJson.toNode
      = some [some (Value.ofInt64 settings.defaultRows).toNode,
          some (Value.ofInt64 settings.defaultFirst).toNode,
          some (Value.array (settings.numericKeywords.map .string)).toNode] := by
    rw [toJson, fields?_toNode]
    rfl
  have hkeywords : list? string? (depth + 1)
      (Value.array (settings.numericKeywords.map .string)).toNode
        = some settings.numericKeywords :=
    list?_toNode fun keyword _ => string?_toNode depth keyword
  rw [read?, hfields]
  simp only [Option.bind_eq_bind, Option.bind_some, orDefault?, int64?_toNode, hkeywords]

/-- **Valid settings are read back as they are.** -/
theorem ofJson_compact {settings : Settings} (h : settings.IsValid) :
    ofJson settings.toJson.compact = .ok settings := by
  rw [ofJson, decode?_compact read? settings.isIntegral_toJson, maxDepth, read?_toNode]
  exact validate_eq_ok_iff.2 ⟨h, rfl⟩

end Settings

/-! ## Values -/

namespace KeywordValue

/-- A number is read where an integer is. -/
theorem read?_eq_number_iff {depth : Nat} {node : Node} {n : Int64} :
    read? depth node = some (.number n) ↔ int64? depth node = some n := by
  rw [read?]
  cases int64? depth node with
  | some found => simp
  | none => cases string? depth node <;> simp

/-- A text is read where a string is. -/
theorem read?_eq_text_iff {depth : Nat} {node : Node} {text : String} :
    read? depth node = some (.text text) ↔ string? depth node = some text := by
  rw [read?]
  constructor
  · intro h
    split at h
    · cases h
    · obtain ⟨found, hfound, heq⟩ := Option.map_eq_some_iff.1 h
      cases heq
      exact hfound
  · intro h
    simp only [int64?_eq_none_of_string? h, h, Option.map_some]

/-- **The texts that are read as a number**: its decimal digits, with blanks around them. -/
theorem decode?_eq_number_iff {source : String} {n : Int64} :
    decode? read? source = some (.number n)
      ↔ Token.Pads source (Text.Decimal.ofInt n.toInt) := by
  rw [decode?, Option.bind_eq_some_iff, ← exists_int64?_iff maxDepth]
  simp only [read?_eq_number_iff]

/-- **The texts that are read as a text**: what spells it, in quotes, with blanks around them. -/
theorem decode?_eq_text_iff {source text : String} :
    decode? read? source = some (.text text)
      ↔ ∃ body quoted, Spells body quoted ∧ quoted.text? = some text ∧
          Token.Pads source ('"' :: (body ++ ['"'])) := by
  rw [decode?, Option.bind_eq_some_iff, ← exists_string?_iff maxDepth]
  simp only [read?_eq_text_iff]

/-- **Values are read back as they are**, numbers as numbers and texts as texts. -/
theorem decode?_toJson (value : KeywordValue) :
    decode? read? value.toJson.compact = some value := by
  have hintegral : value.toJson.IsIntegral := by
    cases value with
    | number n => exact .integer n.toInt
    | text text => exact .string text
  rw [decode?_compact read? hintegral]
  cases value with
  | number n => exact read?_eq_number_iff.2 (int64?_toNode maxDepth n)
  | text text => exact read?_eq_text_iff.2 (string?_toNode maxDepth text)

end KeywordValue

/-! ## Settings and values -/

/-- **Settings and values survive their JSON.** Settings that are valid, with any keywords, are read
from what is written for them, and so is every value: a number as a number, a text as a text, also
where the text looks like a number or like JSON itself. A text is read as a number exactly when it is
the decimal digits of an integer of 64 bits, behind a minus sign if that is negative, with blanks
around it; a fraction, an exponent or the sign of minus zero makes it no value, and so does an integer
that does not fit. It is read as a text exactly when it is a string in quotes with blanks around it.
Nothing else is a value. -/
theorem settings_and_values_read_back :
    (∀ settings : Settings, settings.IsValid →
      Settings.ofJson settings.toJson.compact = .ok settings) ∧
    (∀ value : KeywordValue, decode? KeywordValue.read? value.toJson.compact = some value) ∧
    (∀ (source : String) (n : Int64), decode? KeywordValue.read? source = some (.number n)
      ↔ Token.Pads source (Text.Decimal.ofInt n.toInt)) ∧
    ∀ source text : String, decode? KeywordValue.read? source = some (.text text)
      ↔ ∃ body quoted, Spells body quoted ∧ quoted.text? = some text ∧
          Token.Pads source ('"' :: (body ++ ['"'])) :=
  ⟨fun _ => Settings.ofJson_compact, KeywordValue.decode?_toJson,
    fun _ _ => KeywordValue.decode?_eq_number_iff, fun _ _ => KeywordValue.decode?_eq_text_iff⟩

/-- Settings with the largest page and keywords that are escaped, the smallest number, a text that
looks like it, and a zero with a minus sign, which is no number. -/
theorem settings_and_values_read_back_largest :
    let settings : Settings := ⟨Int64.maxValue, 1, ["a\"b", "\n", "é"]⟩
    settings.IsValid ∧ Settings.ofJson settings.toJson.compact = .ok settings ∧
      decode? KeywordValue.read? "-9223372036854775808" = some (.number Int64.minValue) ∧
      decode? KeywordValue.read? " 10\t" = some (.number 10) ∧
      decode? KeywordValue.read? "\"-9223372036854775808\"" = some (.text "-9223372036854775808") ∧
      ∀ n, decode? KeywordValue.read? "-0" ≠ some (.number n) := by
  intro settings
  obtain ⟨hsettings, hvalues, hnumbers, -⟩ := settings_and_values_read_back
  have hvalid : settings.IsValid := by decide
  refine ⟨hvalid, hsettings settings hvalid, ?_, ?_, ?_, ?_⟩
  · exact hvalues (.number Int64.minValue)
  · exact (hnumbers _ 10).2 ⟨[' '], ['\t'], rfl, List.forall_mem_singleton.2 rfl,
      List.forall_mem_singleton.2 rfl⟩
  · exact hvalues (.text "-9223372036854775808")
  · intro n hn
    have hzero : decode? KeywordValue.read? "-0" = none := by decide +kernel
    rw [hzero] at hn
    contradiction

end QueryFilter
