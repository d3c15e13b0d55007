import QueryFilter.Json.Cause

set_option relaxedAutoImplicit false
set_option autoImplicit false

/-!
# Faults of what comes from outside

A file that cannot be read, and a text that data cannot be decoded from. What is wrong with a
document is said here, but some of the wording is left to those who read: what a text that is not
JSON lacks, the place in the text, how a text is quoted, and why a file cannot be opened.

## Main definitions

* `QueryFilter.DecodeFault`, `QueryFilter.FileFault` — the faults.
* `QueryFilter.Wording` — the wording that others supply.
* `QueryFilter.DecodeFault.text`, `QueryFilter.FileFault.text` — the wording of the faults.
* `QueryFilter.fileText` — the text that a file holds.

## Main results

* `QueryFilter.fileText_eq_ok_iff`, `QueryFilter.fileText_eq_error_iff` — when a file holds a text, and
  what is wrong otherwise.
-/

namespace QueryFilter

/-- What is decoded from JSON texts. -/
inductive Form where
  | savedFilter
  | settings
  deriving DecidableEq

/-- A text that what is asked for cannot be decoded from: with a cause if the text is JSON, and without
one if it is not. -/
structure DecodeFault where
  form : Form
  source : String
  cause : Option Json.Cause
  deriving DecidableEq

/-- Why the text of a file cannot be read. -/
inductive FileFault where
  /-- The file cannot be opened. -/
  | missing
  /-- What it holds is not text in UTF-8. -/
  | notText
  deriving DecidableEq

/-- The wording that others supply. -/
structure Wording where
  /-- A text in quotes. -/
  quote : String → String
  /-- What is wrong with a text that is not JSON. -/
  syntaxError : Form → String → String
  /-- The line and the column of what is wrong with a document; line zero for no place. -/
  place : Form → String → Nat × Nat
  /-- Why a file cannot be opened. -/
  missingFile : String
  deriving Inhabited

/-- The place of what is wrong, at the end of its wording. -/
def Wording.placeText (wording : Wording) (form : Form) (source : String) : String :=
  let (line, column) := wording.place form source
  if line = 0 then "" else " at line " ++ line.repr ++ " column " ++ column.repr

/-- The wording of what is wrong with a text. -/
def DecodeFault.text (wording : Wording) (fault : DecodeFault) : String :=
  match fault.cause with
  | none => wording.syntaxError fault.form fault.source
  | some cause => cause.text wording.quote ++ wording.placeText fault.form fault.source

/-- The wording of what is wrong with a file. -/
def FileFault.text (wording : Wording) : FileFault → String
  | missing => wording.missingFile
  | notText => "stream did not contain valid UTF-8"

/-- The text that a file holds, from its contents if it can be opened. -/
def fileText : Option ByteArray → Except FileFault String
  | none => .error .missing
  | some contents =>
    match String.fromUTF8? contents with
    | some text => .ok text
    | none => .error .notText

section FileText

variable {contents : Option ByteArray}

/-- A file that can be opened holds the text that its contents encode. -/
theorem fileText_eq_ok_iff {text : String} :
    fileText contents = .ok text
      ↔ ∃ bytes, contents = some bytes ∧ String.fromUTF8? bytes = some text := by
  cases contents with
  | none => simp [fileText]
  | some bytes =>
    cases htext : String.fromUTF8? bytes with
    | none => simp [fileText, htext]
    | some found => simp [fileText, htext]

/-- A file cannot be opened, or its contents encode no text. -/
theorem fileText_eq_error_iff {fault : FileFault} :
    fileText contents = .error fault
      ↔ contents = none ∧ fault = .missing ∨
        ∃ bytes, contents = some bytes ∧ String.fromUTF8? bytes = none ∧ fault = .notText := by
  cases contents with
  | none => simp [fileText, eq_comm]
  | some bytes =>
    cases htext : String.fromUTF8? bytes with
    | none => simp [fileText, htext, eq_comm]
    | some found => simp [fileText, htext]

end FileText

end QueryFilter
