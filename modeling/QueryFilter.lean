import QueryFilter.Filter.Edit
import QueryFilter.Main
import QueryFilter.Proofs.Quotes
import QueryFilter.Proofs.Scanner
import QueryFilter.Proofs.Repetition
import QueryFilter.Proofs.Layout
import QueryFilter.Proofs.Matching
import QueryFilter.Proofs.ParseTree
import QueryFilter.Proofs.Parsing
import QueryFilter.Proofs.Concatenation
import QueryFilter.Proofs.Canonical
import QueryFilter.Proofs.RoundTrip
import QueryFilter.Proofs.NormalForm
import QueryFilter.Proofs.Setting
import QueryFilter.Proofs.Equality
import QueryFilter.Proofs.Editing
import QueryFilter.Proofs.SafeEditing
import QueryFilter.Proofs.DistinctKeywords
import QueryFilter.Proofs.Congruence
import QueryFilter.Proofs.Recording
import QueryFilter.Proofs.Reachable
import QueryFilter.Proofs.ReadingBack
import QueryFilter.Proofs.Survival
import QueryFilter.Proofs.Selection
import QueryFilter.Proofs.Occurrences
import QueryFilter.Proofs.SortState
import QueryFilter.Proofs.Lookup
import QueryFilter.Proofs.Paging
import QueryFilter.Proofs.NumericKeywords
import QueryFilter.Proofs.Overwriting
import QueryFilter.Proofs.Commuting
import QueryFilter.Proofs.Independence
import QueryFilter.Proofs.Merging
import QueryFilter.Proofs.MergeLaws
import QueryFilter.Proofs.PageTurns
import QueryFilter.Proofs.PagingRuns
import QueryFilter.Proofs.JsonTokens
import QueryFilter.Proofs.PagingCalls
import QueryFilter.Proofs.JsonDocuments
import QueryFilter.Proofs.JsonScan
import QueryFilter.Proofs.JsonValues
import QueryFilter.Proofs.SavedText
import QueryFilter.Proofs.CallFailures
import QueryFilter.Proofs.Causes
import QueryFilter.Proofs.Converting
import QueryFilter.Proofs.SingleRecords
import QueryFilter.Proofs.Listings
import QueryFilter.Proofs.LexicalClasses
import QueryFilter.Proofs.Places
import QueryFilter.Proofs.JsonLexemes
import QueryFilter.Proofs.JsonIntegers
import QueryFilter.Proofs.SettingsText
import QueryFilter.Proofs.PaddedIntegers
import QueryFilter.Proofs.LoadedSettings
