import Mathlib.Data.List.Basic
import Mathlib.Data.List.Forall2
import QueryFilter.Json.Decode
import QueryFilter.Proofs.JsonDocuments

set_option relaxedAutoImplicit false
set_option autoImplicit false

/-!
# Reading values that were read before

A value that was read from some document is written as a document that is simpler: its numbers have
no leading zeros, its strings have the one way of writing them, and the members of its objects stand
in the order of their names, without repetition. Reading it once more gives the same value, within
the same number of levels.

## Main definitions

* `QueryFilter.Json.Value.SortedMembers` — members in the order of their names, each name once.

## Main results

* `QueryFilter.Json.Value.exists_ofMembers` — the members of an object that is read.
* `QueryFilter.Json.Value.ofMembers_of_sorted` — sorted members are the members of their object.
* `QueryFilter.Json.Number.ofLiteral?_ofInt` — integers that are read are read again.
* `QueryFilter.Json.value?_toNode` — so are values.
-/

namespace QueryFilter.Json

/-! ## Members in order -/

namespace Value

/-- Members in the order of their names, each name once. -/
def SortedMembers (members : List (String × Value)) : Prop :=
  members.Pairwise fun first second => first.1 < second.1

/-- What is there after a member is put in. -/
theorem mem_insertMember {name : String} {value : Value} {members : List (String × Value)}
    {member : String × Value} (h : member ∈ insertMember name value members) :
    member = (name, value) ∨ member ∈ members := by
  induction members with
  | nil => exact .inl (List.mem_singleton.1 h)
  | cons present members ih =>
    obtain ⟨other, present⟩ := present
    rw [insertMember] at h
    split at h
    · exact List.mem_cons.1 h
    · split at h
      · exact (List.mem_cons.1 h).imp id (List.mem_cons_of_mem _)
      · rcases List.mem_cons.1 h with rfl | h
        · exact .inr List.mem_cons_self
        · exact (ih h).imp id (List.mem_cons_of_mem _)

/-- Putting a member in keeps the order. -/
theorem SortedMembers.insertMember {members : List (String × Value)} (h : SortedMembers members)
    (name : String) (value : Value) : SortedMembers (insertMember name value members) := by
  induction members with
  | nil => exact List.pairwise_singleton _ _
  | cons present members ih =>
    obtain ⟨other, present⟩ := present
    obtain ⟨hhead, htail⟩ := List.pairwise_cons.1 h
    rw [Value.insertMember]
    split
    · next hlt =>
      refine List.pairwise_cons.2 ⟨?_, h⟩
      intro member hmember
      rcases List.mem_cons.1 hmember with rfl | hmember
      · exact hlt
      · exact String.lt_trans hlt (hhead member hmember)
    · next hnotlt =>
      split
      · next heq => exact List.pairwise_cons.2 ⟨fun member hmember => heq ▸ hhead member hmember, htail⟩
      · next hne =>
        refine List.pairwise_cons.2 ⟨?_, ih htail⟩
        intro member hmember
        rcases mem_insertMember hmember with rfl | hmember
        · refine String.not_le.1 fun hle => hne ?_
          exact String.le_antisymm hle (String.not_lt.1 hnotlt)
        · exact hhead member hmember

/-- A member whose name comes after all others is put at the end. -/
theorem insertMember_of_forall_lt {name : String} {members : List (String × Value)}
    (h : ∀ member ∈ members, member.1 < name) (value : Value) :
    insertMember name value members = members ++ [(name, value)] := by
  induction members with
  | nil => rfl
  | cons present members ih =>
    obtain ⟨other, present⟩ := present
    rw [List.forall_mem_cons] at h
    rw [insertMember, if_neg (String.lt_asymm h.1), if_neg (String.ne_of_lt h.1).symm, ih h.2,
      List.cons_append]

/-- The members of an object that is read are in order, and they are among those that were found. -/
theorem exists_ofMembers (members : List (String × Value)) :
    ∃ sorted, ofMembers members = .object sorted ∧ SortedMembers sorted ∧ sorted ⊆ members := by
  have hfold (members sorted : List (String × Value)) (h : SortedMembers sorted) :
      let result := members.foldl (fun sorted member => insertMember member.1 member.2 sorted) sorted
      SortedMembers result ∧ result ⊆ sorted ++ members := by
    induction members generalizing sorted with
    | nil => exact ⟨h, by simp⟩
    | cons member members ih =>
      obtain ⟨hsorted, hsubset⟩ := ih _ (h.insertMember member.1 member.2)
      refine ⟨hsorted, fun found hfound => ?_⟩
      have hmem := hsubset hfound
      rcases List.mem_append.1 hmem with hmem | hmem
      · rcases mem_insertMember hmem with rfl | hmem
        · simp
        · simp [hmem]
      · simp [hmem]
  obtain ⟨hsorted, hsubset⟩ := hfold members [] List.Pairwise.nil
  exact ⟨_, rfl, hsorted, hsubset⟩

/-- **Members in order are the members of their object.** -/
theorem ofMembers_of_sorted {members : List (String × Value)} (h : SortedMembers members) :
    ofMembers members = .object members := by
  have hfold (before after : List (String × Value)) (h : SortedMembers (before ++ after)) :
      after.foldl (fun sorted member => insertMember member.1 member.2 sorted) before
        = before ++ after := by
    induction after generalizing before with
    | nil => rw [List.append_nil]; rfl
    | cons member after ih =>
      have hlt : ∀ present ∈ before, present.1 < member.1 := by
        intro present hpresent
        exact (List.pairwise_append.1 h).2.2 present hpresent member List.mem_cons_self
      rw [List.append_cons] at h ⊢
      rw [List.foldl_cons, insertMember_of_forall_lt hlt, ih _ h]
  exact congrArg Value.object (hfold [] members h)

end Value

/-! ## Integers -/

namespace Number

/-- Collecting digits stays below the bound. -/
theorem collect_lt {significand : Nat} (h : significand < significandBound) (digits : List Char) :
    (collect significand digits).1 < significandBound := by
  induction digits generalizing significand with
  | nil => exact h
  | cons c digits ih =>
    rw [collect]
    split
    · next hnext => exact ih hnext
    · exact h

/-- More digits do not make a number smaller. -/
theorem le_ofDigitChars (significand : Nat) (digits : List Char) :
    significand ≤ Nat.ofDigitChars 10 digits significand := by
  rw [Nat.ofDigitChars_eq_ofDigitChars_zero]
  have hpos : 1 ≤ 10 ^ digits.length := Nat.pow_pos (by decide)
  have hmul := Nat.mul_le_mul_right significand hpos
  omega

/-- All digits are collected when the number stays below the bound. -/
theorem collect_of_lt {significand : Nat} {digits : List Char}
    (h : Nat.ofDigitChars 10 digits significand < significandBound) :
    collect significand digits = (Nat.ofDigitChars 10 digits significand, []) := by
  induction digits generalizing significand with
  | nil => rfl
  | cons c digits ih =>
    rw [Nat.ofDigitChars_cons] at h ⊢
    rw [collect, if_pos (Nat.lt_of_le_of_lt (le_ofDigitChars _ digits) h), ih h]

/-- The integers that are read: those of 64 bits with or without a sign. -/
def InRange (n : Int) : Prop :=
  Int64.minValue.toInt ≤ n ∧ n < significandBound

/-- An integer that is read is in the range. -/
theorem inRange_of_ofLiteral? {literal : Literal} {n : Int}
    (h : ofLiteral? literal = some (.integer n)) : InRange n := by
  have hdouble : double? literal ≠ some (.integer n) := by
    rw [double?]
    intro hdouble
    obtain ⟨magnitude, -, hmagnitude⟩ := Option.map_eq_some_iff.1 hdouble
    contradiction
  have hmin : Int64.minValue.toInt = -9223372036854775808 := by decide
  have hmax : (significandBound : Int) = 18446744073709551616 := by decide
  have hvalue : (collect 0 literal.whole).1 < significandBound := collect_lt (by decide) _
  rw [InRange]
  rw [ofLiteral?] at h
  split at h
  · split at h
    next value left hcollect =>
    rw [hcollect] at hvalue
    split at h
    · exact absurd h hdouble
    · split at h
      · cases h
        omega
      · split at h
        · cases h
          omega
        · exact absurd h hdouble
  · exact absurd h hdouble

/-- **An integer in the range is read again** from its literal. -/
theorem ofLiteral?_ofInt {n : Int} (h : InRange n) :
    ofLiteral? (.ofInt n) = some (.integer n) := by
  have hmin : Int64.minValue.toInt = -9223372036854775808 := by decide
  have hmax : (significandBound : Int) = 18446744073709551616 := by decide
  obtain ⟨hlow, hhigh⟩ := h
  have hcollect : collect 0 (Nat.toDigits 10 n.natAbs) = (n.natAbs, []) := by
    have hdigits : Nat.ofDigitChars 10 (Nat.toDigits 10 n.natAbs) 0 = n.natAbs :=
      Nat.ofDigitChars_ten_toDigits
    rw [collect_of_lt (by omega), hdigits]
  have hnone : (Literal.ofInt n).fraction = none ∧ (Literal.ofInt n).exponent = none := ⟨rfl, rfl⟩
  rw [ofLiteral?, if_pos hnone, Literal.ofInt, hcollect]
  rcases Int.lt_or_le n 0 with hn | hn
  · have hnegative : 0 < n.natAbs ∧ n.natAbs ≤ Int64.minValue.toInt.natAbs := by omega
    have hvalue : -(n.natAbs : Int) = n := by omega
    simp only [ne_eq, not_true_eq_false, if_false, decide_eq_true hn, Bool.not_true,
      Bool.false_eq_true, if_pos hnegative, hvalue]
  · have hvalue : (n.natAbs : Int) = n := by omega
    simp only [ne_eq, not_true_eq_false, if_false, decide_eq_false (Int.not_lt.2 hn),
      Bool.not_false, if_true, hvalue]

end Number

/-! ## Lists -/

/-- Members are read one by one. -/
theorem mapM_eq_some_iff {α β : Type} {read : α → Option β} {list : List α} {results : List β} :
    list.mapM read = some results
      ↔ List.Forall₂ (fun member result => read member = some result) list results := by
  induction list generalizing results with
  | nil => simp [eq_comm]
  | cons member list ih =>
    simp only [List.mapM_cons, Option.bind_eq_bind, Option.bind_eq_some_iff, Option.pure_def,
      Option.some.injEq, ih, List.forall₂_cons_left_iff]
    constructor
    · rintro ⟨result, hresult, rest, hrest, rfl⟩
      exact ⟨result, rest, hresult, hrest, rfl⟩
    · rintro ⟨result, rest, hresult, hrest, rfl⟩
      exact ⟨result, hresult, rest, hrest, rfl⟩

/-- All members of a list are read when each of them is. -/
theorem exists_mapM_eq_some_iff {α β : Type} {read : α → Option β} {list : List α} :
    (∃ results, list.mapM read = some results)
      ↔ ∀ member ∈ list, ∃ result, read member = some result := by
  induction list with
  | nil => exact ⟨nofun, fun _ => ⟨[], rfl⟩⟩
  | cons member list ih =>
    rw [List.forall_mem_cons, ← ih]
    constructor
    · rintro ⟨results, hresults⟩
      simp only [List.mapM_cons, Option.bind_eq_bind, Option.bind_eq_some_iff] at hresults
      obtain ⟨result, hresult, rest, hrest, -⟩ := hresults
      exact ⟨⟨result, hresult⟩, rest, hrest⟩
    · rintro ⟨⟨result, hresult⟩, results, hresults⟩
      exact ⟨result :: results, by rw [List.mapM_cons, hresult, hresults]; rfl⟩

/-- What is read member by member comes from the members. -/
theorem exists_mem_of_mapM {α β : Type} {read : α → Option β} {list : List α} {results : List β}
    (h : list.mapM read = some results) :
    ∀ result ∈ results, ∃ member ∈ list, read member = some result := by
  induction list generalizing results with
  | nil =>
    obtain rfl : [] = results := by simpa using h
    exact nofun
  | cons member list ih =>
    simp only [List.mapM_cons, Option.bind_eq_bind, Option.bind_eq_some_iff, Option.pure_def,
      Option.some.injEq] at h
    obtain ⟨result, hresult, results, hresults, rfl⟩ := h
    rw [List.forall_mem_cons]
    refine ⟨⟨member, List.mem_cons_self, hresult⟩, fun other hother => ?_⟩
    obtain ⟨member', hmember', hother⟩ := ih hresults other hother
    exact ⟨member', List.mem_cons_of_mem _ hmember', hother⟩

/-- A list is read from what is written for it, when each of its members is. -/
theorem mapM_map_eq_some {α β : Type} {read : α → Option β} {write : β → α} {list : List β}
    (h : ∀ member ∈ list, read (write member) = some member) :
    (list.map write).mapM read = some list := by
  induction list with
  | nil => rfl
  | cons member list ih =>
    rw [List.forall_mem_cons] at h
    rw [List.map_cons, List.mapM_cons, h.1, ih h.2]
    rfl

/-! ## Values -/

/-- Reads the name of a member. -/
def named? (member : Quoted × Node) : Option (String × Node) :=
  member.1.text?.map fun name => (name, member.2)

/-- Items are read one by one. -/
theorem items?_eq_mapM (depth : Nat) (items : List Node) :
    items? depth items = items.mapM (value? depth) := by
  induction items with
  | nil => rfl
  | cons item items ih => rw [items?, List.mapM_cons, ih]; rfl

/-- Reads a member with its name. -/
def member? (depth : Nat) (member : Quoted × Node) : Option (String × Value) := do
  let name ← member.1.text?
  let value ← value? depth member.2
  some (name, value)

/-- Members are read one by one. -/
theorem members?_eq_mapM (depth : Nat) (members : List (Quoted × Node)) :
    members? depth members = members.mapM (member? depth) := by
  induction members with
  | nil => rfl
  | cons member members ih =>
    rw [members?, List.mapM_cons, ih, member?]
    simp only [Option.bind_eq_bind, Option.bind_assoc, Option.bind_some, Option.pure_def]

/-- The value of a member that is read is read from the member. -/
theorem value?_of_member? {depth : Nat} {member : Quoted × Node} {result : String × Value}
    (h : member? depth member = some result) : value? depth member.2 = some result.2 := by
  simp only [member?, Option.bind_eq_bind, Option.bind_eq_some_iff, Option.some.injEq] at h
  obtain ⟨name, -, value, hvalue, rfl⟩ := h
  exact hvalue

/-- An array is read again when its items are. -/
theorem value?_toNode_array {depth : Nat} {items : List Value}
    (h : ∀ item ∈ items, value? depth item.toNode = some item) :
    value? (depth + 1) (Value.array items).toNode = some (.array items) := by
  rw [Value.toNode, value?, items?_eq_mapM, Value.toNodes_eq_map, mapM_map_eq_some h,
    Option.map_some]

/-- An object is read again when its members are in order and their values are read again. -/
theorem value?_toNode_object {depth : Nat} {members : List (String × Value)}
    (hsorted : Value.SortedMembers members)
    (h : ∀ member ∈ members, value? depth member.2.toNode = some member.2) :
    value? (depth + 1) (Value.object members).toNode = some (.object members) := by
  have hread : ∀ member ∈ members,
      member? depth (Quoted.ofText member.1, member.2.toNode) = some member := by
    intro member hmember
    rw [member?, Quoted.text?_ofText, h member hmember]
    rfl
  rw [Value.toNode, value?, members?_eq_mapM, Value.toMembers_eq_map, mapM_map_eq_some hread,
    Option.map_some, Value.ofMembers_of_sorted hsorted]

/-- A text is read again. -/
theorem value?_toNode_string (depth : Nat) (text : String) :
    value? depth (Value.string text).toNode = some (.string text) := by
  rw [Value.toNode, value?, Quoted.text?_ofText, Option.map_some]

/-- **A value that is read is read again**, within the same number of levels, when its numbers are
integers.

**Proof sketch.** Induction on the document that it was read from. What is inside an array or object
was read from a part of the document, and an object that was read has its members in order, so that
reading it once more does not move them. -/
theorem value?_toNode {depth : Nat} {node : Node} {value : Value}
    (h : value? depth node = some value)
    (hvalue : value.IsIntegral) : value? depth value.toNode = some value := by
  induction node generalizing depth value with
  | null | bool _ =>
    cases h
    rfl
  | number literal =>
    obtain ⟨number, hnumber, rfl⟩ := Option.map_eq_some_iff.1 h
    cases hvalue with
    | integer n =>
      rw [Value.toNode, Number.literal_integer, value?,
        Number.ofLiteral?_ofInt (Number.inRange_of_ofLiteral? hnumber), Option.map_some]
  | string quoted =>
    obtain ⟨text, -, rfl⟩ := Option.map_eq_some_iff.1 h
    exact value?_toNode_string depth text
  | array items ih =>
    cases depth with
    | zero => contradiction
    | succ depth =>
      obtain ⟨values, hvalues, rfl⟩ := Option.map_eq_some_iff.1 h
      rw [items?_eq_mapM] at hvalues
      cases hvalue with
      | array hintegral =>
        refine value?_toNode_array fun value hmem => ?_
        obtain ⟨item, hitem, hread⟩ := exists_mem_of_mapM hvalues value hmem
        exact ih item hitem hread (hintegral value hmem)
  | object members ih =>
    cases depth with
    | zero => contradiction
    | succ depth =>
      obtain ⟨values, hvalues, rfl⟩ := Option.map_eq_some_iff.1 h
      rw [members?_eq_mapM] at hvalues
      obtain ⟨sorted, hobject, hsorted, hsubset⟩ := Value.exists_ofMembers values
      rw [hobject] at hvalue ⊢
      cases hvalue with
      | object hintegral =>
        refine value?_toNode_object hsorted fun value hmem => ?_
        obtain ⟨member, hmember, hread⟩ := exists_mem_of_mapM hvalues value (hsubset hmem)
        exact ih member hmember (value?_of_member? hread) (hintegral value hmem)

end QueryFilter.Json
