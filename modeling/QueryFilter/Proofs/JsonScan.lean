import QueryFilter.Json.Decode
import QueryFilter.Proofs.JsonDocuments

set_option relaxedAutoImplicit false
set_option autoImplicit false

/-!
# Scanning what is written

The text of a value is scanned as the tokens of its document, in every layout that puts nothing but
blanks between the tokens. The scanner remembers the tokens before a text and nothing else of them,
so that texts can be put together from the back to the front: what is put in front of a text does
not change how that text is scanned. Only behind a word it matters what follows.

## Main definitions

* `QueryFilter.Json.Token.Scans` — texts that are scanned as some tokens after any others.
* `QueryFilter.Json.Token.EndsWord` — texts that end a word in front of them.
* `QueryFilter.Json.Layout.IsBlank` — layouts that put nothing but blanks.

## Main results

* `QueryFilter.Json.Token.Scans.word_append`, `QueryFilter.Json.Token.Scans.writeString_append` —
  words and strings in front of other text.
* `QueryFilter.Json.Token.Scans.write_append` — the text of a value is scanned as its tokens.
* `QueryFilter.Json.Node.ofText?_write_append` — the text of a value is read as its document.
-/

namespace QueryFilter.Json

/-! ## Scanning from the back to the front -/

namespace Token

/-- The step between two tokens. -/
theorem Scan.step_between (before : List Token) (c : Char) :
    Scan.step ⟨before, .between⟩ c = some (.start before c) := rfl

/-- The step inside a word. -/
theorem Scan.step_word (before : List Token) (collected : List Char) (c : Char) :
    Scan.step ⟨before, .word collected⟩ c =
      if endsWord c then (ofWord? collected.reverse).map fun token => .start (token :: before) c
      else some ⟨before, .word (c :: collected)⟩ := rfl

/-- The step inside a string. -/
theorem Scan.step_quoted (before : List Token) (collected : List Piece) (c : Char) :
    Scan.step ⟨before, .quoted collected⟩ c =
      if c = '"' then some ⟨.string collected.reverse :: before, .between⟩
      else if c = '\\' then some ⟨before, .escape collected⟩
      else if c.toNat < 0x20 then none
      else some ⟨before, .quoted (.char c :: collected)⟩ := rfl

/-- The step inside the code of an escape. -/
theorem Scan.step_code (before : List Token) (collected : List Piece) (digits value : Nat)
    (c : Char) :
    Scan.step ⟨before, .code collected digits value⟩ c = (hexDigit? c).map fun digit =>
      if digits = 3 then ⟨before, .quoted (.unit (16 * value + digit) :: collected)⟩
      else ⟨before, .code collected (digits + 1) (16 * value + digit)⟩ := rfl

/-- A text that is scanned as some tokens after any others. -/
def Scans (text : List Char) (tokens : List Token) : Prop :=
  ∀ before, (text.foldlM Scan.step ⟨before, .between⟩).bind Scan.finish
    = some (before.reverse ++ tokens)

/-- A text that ends a word in front of it. -/
def EndsWord (text : List Char) : Prop :=
  ∀ c ∈ text.head?, endsWord c = true

/-- The characters that end a word. -/
theorem mem_of_endsWord {c : Char} (h : endsWord c = true) :
    c ∈ [' ', '\t', '\r', '\n', '"', '[', ']', '\x7b', '\x7d', ',', ':'] := by
  rw [endsWord, isGap] at h
  unfold ofChar? at h
  split at h
  all_goals simp_all [or_assoc]

/-- A character that stands for a token ends a word. -/
theorem endsWord_of_ofChar? {c : Char} {token : Token} (h : ofChar? c = some token) :
    endsWord c = true := by
  rw [endsWord, h, Option.isSome_some, Bool.or_true]

/-- Blanks in front of a text that ends a word end it too. -/
theorem EndsWord.gap_append {gap rest : List Char} (hgap : ∀ c ∈ gap, isGap c = true)
    (hrest : EndsWord rest) : EndsWord (gap ++ rest) := by
  cases gap with
  | nil => exact hrest
  | cons c gap =>
    intro d hd
    obtain rfl : c = d := by simpa using hd
    rw [endsWord, hgap c List.mem_cons_self, Bool.true_or, Bool.true_or]

namespace Scans

variable {text rest : List Char} {tokens : List Token}

/-- Nothing is scanned as no tokens. -/
theorem nil : Scans [] [] := by
  intro before
  rw [List.append_nil]
  rfl

/-- After a step to the next token the rest is scanned as before. -/
theorem foldlM_of_step {scan : Scan} {c : Char} {token : Token} {before : List Token}
    (hstep : scan.step c = some ⟨token :: before, .between⟩) (h : Scans rest tokens) :
    ((c :: rest).foldlM Scan.step scan).bind Scan.finish
      = some (before.reverse ++ token :: tokens) := by
  rw [foldlM_cons_of_eq_some hstep, h, List.reverse_cons, List.append_assoc,
    List.singleton_append]

/-- Brackets and punctuation are scanned as their tokens. -/
theorem mark {c : Char} {token : Token} (hc : ofChar? c = some token) (h : Scans rest tokens) :
    Scans (c :: rest) (token :: tokens) := by
  intro before
  refine foldlM_of_step ?_ h
  unfold ofChar? at hc
  split at hc
  all_goals cases hc
  all_goals rfl

/-- Blanks are passed over. -/
theorem gap_append {gap : List Char} (hgap : ∀ c ∈ gap, isGap c = true) (h : Scans rest tokens) :
    Scans (gap ++ rest) tokens := by
  induction gap with
  | nil => exact h
  | cons c gap ih =>
    rw [List.forall_mem_cons] at hgap
    intro before
    have hstep : Scan.step ⟨before, .between⟩ c = some ⟨before, .between⟩ := by
      rw [Scan.step_between, Scan.start, if_pos hgap.1]
    rw [List.cons_append, foldlM_cons_of_eq_some hstep, ih hgap.2]

/-! ### Words -/

/-- The characters of a word are collected. -/
theorem foldlM_step_word {word : List Char} (hword : ∀ c ∈ word, endsWord c = false)
    (before : List Token) (collected : List Char) :
    word.foldlM Scan.step ⟨before, .word collected⟩
      = some ⟨before, .word (word.reverse ++ collected)⟩ := by
  induction word generalizing collected with
  | nil => rfl
  | cons c word ih =>
    rw [List.forall_mem_cons] at hword
    have hstep : Scan.step ⟨before, .word collected⟩ c = some ⟨before, .word (c :: collected)⟩ := by
      rw [Scan.step_word, hword.1, if_neg Bool.false_ne_true]
    rw [foldlM_cons_of_eq_some hstep, ih hword.2, List.reverse_cons, List.append_assoc,
      List.singleton_append]

/-- The first character of a word starts it. -/
theorem step_between_of_not_endsWord {c : Char} (hc : endsWord c = false) (before : List Token) :
    Scan.step ⟨before, .between⟩ c = some ⟨before, .word [c]⟩ := by
  simp only [endsWord, Bool.or_eq_false_iff, beq_eq_false_iff_ne, Option.isSome_eq_false_iff,
    Option.isNone_iff_eq_none] at hc
  obtain ⟨⟨hgap, hquote⟩, hmark⟩ := hc
  rw [Scan.step_between, Scan.start, hgap, hmark, if_neg Bool.false_ne_true, if_neg hquote]

/-- **A word is scanned as its token**, if what follows ends it. -/
theorem word_append {word : List Char} {token : Token} (hword : ∀ c ∈ word, endsWord c = false)
    (htoken : ofWord? word = some token) (hrest : EndsWord rest) (h : Scans rest tokens) :
    Scans (word ++ rest) (token :: tokens) := by
  intro before
  have hstart : word.foldlM Scan.step ⟨before, .between⟩ = some ⟨before, .word word.reverse⟩ := by
    cases word with
    | nil => cases htoken
    | cons c word =>
      rw [List.forall_mem_cons] at hword
      rw [foldlM_cons_of_eq_some (step_between_of_not_endsWord hword.1 before),
        foldlM_step_word hword.2, List.reverse_cons]
  rw [foldlM_append_of_eq_some hstart]
  cases rest with
  | nil =>
    obtain rfl : [] = tokens := by simpa [Scan.finish] using h []
    simp [Scan.finish, htoken]
  | cons c rest =>
    have hstep : Scan.step ⟨before, .word word.reverse⟩ c
        = Scan.step ⟨token :: before, .between⟩ c := by
      rw [Scan.step_word, Scan.step_between, if_pos (hrest c rfl), List.reverse_reverse, htoken,
        Option.map_some]
    have hrest := h (token :: before)
    rw [List.foldlM_cons] at hrest ⊢
    rw [hstep, hrest, List.reverse_cons, List.append_assoc, List.singleton_append]

/-- The text of an integer has no character that ends a word. -/
theorem endsWord_of_mem_ofInt {n : Int} {c : Char} (hc : c ∈ Text.Decimal.ofInt n) :
    endsWord c = false := by
  rw [← Bool.not_eq_true]
  intro hends
  have hnone : ([' ', '\t', '\r', '\n', '"', '[', ']', '\x7b', '\x7d', ',', ':'].all
      fun d => !(d == '-' || d.isDigit)) = true := rfl
  have hneither := List.all_eq_true.1 hnone c (mem_of_endsWord hends)
  rcases Text.Decimal.eq_minus_or_isDigit_of_mem_ofInt hc with rfl | hdigit
  · contradiction
  · rw [hdigit, Bool.or_true] at hneither
    contradiction

/-- The text of an integer is the word of its literal, since it has no letters. -/
theorem ofWord?_ofInt (n : Int) :
    ofWord? (Text.Decimal.ofInt n) = some (.number (.ofInt n)) := by
  have hname (name : List Char) (hletter : ∃ c ∈ name, ¬(c = '-' ∨ c.isDigit = true)) :
      Text.Decimal.ofInt n ≠ name := by
    rintro rfl
    obtain ⟨c, hc, hne⟩ := hletter
    exact hne (Text.Decimal.eq_minus_or_isDigit_of_mem_ofInt hc)
  rw [ofWord?, if_neg (hname _ ⟨'n', by decide⟩), if_neg (hname _ ⟨'t', by decide⟩),
    if_neg (hname _ ⟨'f', by decide⟩), Literal.ofWord?_ofInt, Option.map_some]

/-- The text of an integer is scanned as its literal. -/
theorem ofInt_append (n : Int) (hrest : EndsWord rest) (h : Scans rest tokens) :
    Scans (Text.Decimal.ofInt n ++ rest) (.number (.ofInt n) :: tokens) :=
  word_append (fun _ hc => endsWord_of_mem_ofInt hc) (ofWord?_ofInt n) hrest h

/-! ### Strings -/

/-- Hexadecimal digits are read as what they are written for. -/
theorem hexDigit?_hexDigit : ∀ n < 16, hexDigit? (hexDigit n) = some n := by
  decide

/-- A control character by its code is scanned as a code unit. -/
theorem foldlM_step_code {n : Nat} (hn : n < 0x20) (before : List Token) (collected : List Piece) :
    ['\\', 'u', '0', '0', hexDigit (n / 16), hexDigit (n % 16)].foldlM Scan.step
        ⟨before, .quoted collected⟩
      = some ⟨before, .quoted (.unit n :: collected)⟩ := by
  have hzeros (rest : List Char) :
      ('\\' :: 'u' :: '0' :: '0' :: rest).foldlM Scan.step ⟨before, .quoted collected⟩
        = rest.foldlM Scan.step ⟨before, .code collected 2 0⟩ := rfl
  have hhigh : Scan.step ⟨before, .code collected 2 0⟩ (hexDigit (n / 16))
      = some ⟨before, .code collected 3 (n / 16)⟩ := by
    rw [Scan.step_code, hexDigit?_hexDigit _ (by omega), Option.map_some, if_neg (by decide),
      Nat.mul_zero, Nat.zero_add]
  have hlow : Scan.step ⟨before, .code collected 3 (n / 16)⟩ (hexDigit (n % 16))
      = some ⟨before, .quoted (.unit n :: collected)⟩ := by
    rw [Scan.step_code, hexDigit?_hexDigit _ (by omega), Option.map_some, if_pos rfl,
      Nat.div_add_mod]
  rw [hzeros, foldlM_cons_of_eq_some hhigh, foldlM_cons_of_eq_some hlow]
  rfl

/-- The text of a character is scanned as its piece. -/
theorem foldlM_step_escape (c : Char) (before : List Token) (collected : List Piece) :
    (escape c).foldlM Scan.step ⟨before, .quoted collected⟩
      = some ⟨before, .quoted (Piece.ofChar c :: collected)⟩ := by
  have hshort : ∀ d ∈ ['"', '\\', '\x08', '\t', '\n', '\x0c', '\r'],
      (escape d).foldlM Scan.step ⟨before, .quoted collected⟩
        = some ⟨before, .quoted (Piece.ofChar d :: collected)⟩ := by
    simp only [List.forall_mem_cons]
    exact ⟨rfl, rfl, rfl, rfl, rfl, rfl, rfl, nofun⟩
  by_cases hc : c ∈ ['"', '\\', '\x08', '\t', '\n', '\x0c', '\r']
  · exact hshort c hc
  · simp only [List.mem_cons, List.not_mem_nil, or_false, not_or] at hc
    obtain ⟨hquote, hbackslash, hb, ht, hn, hf, hr⟩ := hc
    rw [escape, if_neg hquote, if_neg hbackslash, if_neg hb, if_neg ht, if_neg hn, if_neg hf,
      if_neg hr, Piece.ofChar]
    split
    · next hcontrol =>
      rw [foldlM_step_code hcontrol, if_pos]
      simp [hcontrol, hb, ht, hn, hf, hr]
    · next hplain =>
      have hstep : Scan.step ⟨before, .quoted collected⟩ c
          = some ⟨before, .quoted (.char c :: collected)⟩ := by
        rw [Scan.step_quoted, if_neg hquote, if_neg hbackslash, if_neg hplain]
      rw [if_neg fun h => hplain h.1, foldlM_cons_of_eq_some hstep]
      rfl

/-- The text of characters is scanned as their pieces. -/
theorem foldlM_step_flatMap_escape (chars : List Char) (before : List Token)
    (collected : List Piece) :
    (chars.flatMap escape).foldlM Scan.step ⟨before, .quoted collected⟩
      = some ⟨before, .quoted ((chars.map Piece.ofChar).reverse ++ collected)⟩ := by
  induction chars generalizing collected with
  | nil => rfl
  | cons c chars ih =>
    rw [List.flatMap_cons, foldlM_append_of_eq_some (foldlM_step_escape c before collected), ih,
      List.map_cons, List.reverse_cons, List.append_assoc, List.singleton_append]

/-- **A string is scanned as it is written**, whatever follows. -/
theorem writeString_append (text : String) (h : Scans rest tokens) :
    Scans (writeString text ++ rest) (.string (Quoted.ofText text) :: tokens) := by
  intro before
  have hopen : Scan.step ⟨before, .between⟩ '"' = some ⟨before, .quoted []⟩ := rfl
  have hinside := foldlM_step_flatMap_escape text.toList before []
  rw [writeString, List.cons_append, List.cons_append, List.append_assoc,
    foldlM_cons_of_eq_some hopen, foldlM_append_of_eq_some hinside, List.singleton_append,
    List.append_nil]
  refine foldlM_of_step ?_ h
  rw [Scan.step_quoted, if_pos rfl, List.reverse_reverse]
  rfl

end Scans

end Token

/-! ## The text of values -/

/-- A layout that puts nothing but blanks between the tokens. -/
structure Layout.IsBlank (layout : Layout) : Prop where
  gap : ∀ depth, ∀ c ∈ layout.gap depth, Token.isGap c = true
  afterColon : ∀ c ∈ layout.afterColon, Token.isGap c = true

/-- The layout without blanks puts nothing else. -/
theorem Layout.isBlank_compact : Layout.compact.IsBlank :=
  ⟨nofun, nofun⟩

/-- The layout over several lines puts line ends and spaces. -/
theorem Layout.isBlank_pretty : Layout.pretty.IsBlank := by
  constructor
  · intro depth c hc
    rcases List.mem_cons.1 hc with rfl | hc
    · rfl
    · rw [(List.mem_replicate.1 hc).2]
      rfl
  · intro c hc
    rw [List.mem_singleton.1 hc]
    rfl

namespace Token

/-- The text of a value is scanned as its tokens in front of every text that ends a word. -/
def ScansWritten (layout : Layout) (value : Value) : Prop :=
  ∀ depth rest tokens, EndsWord rest → Scans rest tokens →
    Scans (value.write layout depth ++ rest) (value.toNode.tokens ++ tokens)

namespace Scans

variable {layout : Layout} {rest : List Char} {tokens : List Token}

/-- The text of the items after the first one ends a word. -/
theorem endsWord_writeItems (depth : Nat) (items : List Value) (hrest : EndsWord rest) :
    EndsWord (Value.writeItems layout depth items ++ rest) := by
  cases items with
  | nil => exact hrest
  | cons item items =>
    intro c hc
    obtain rfl : ',' = c := by simpa [Value.writeItems] using hc
    rfl

/-- The text of the members after the first one ends a word. -/
theorem endsWord_writeMembers (depth : Nat) (members : List (String × Value))
    (hrest : EndsWord rest) : EndsWord (Value.writeMembers layout depth members ++ rest) := by
  cases members with
  | nil => exact hrest
  | cons member members =>
    intro c hc
    obtain rfl : ',' = c := by simpa [Value.writeMembers] using hc
    rfl

/-- The text of a member is scanned as its name, the colon and its value. -/
theorem member_append (hlayout : layout.IsBlank) {value : Value}
    (hvalue : ScansWritten layout value) (name : String) (depth : Nat) (hrest : EndsWord rest)
    (h : Scans rest tokens) :
    Scans (writeString name ++ ':' :: (layout.afterColon ++ (value.write layout depth ++ rest)))
      (.string (Quoted.ofText name) :: .colon :: (value.toNode.tokens ++ tokens)) :=
  writeString_append name (mark rfl (gap_append hlayout.afterColon (hvalue depth _ _ hrest h)))

/-- The text of the items after the first one is scanned as their tokens. -/
theorem writeItems_append (hlayout : layout.IsBlank) {items : List Value}
    (hitems : ∀ item ∈ items, ScansWritten layout item) (depth : Nat) (hrest : EndsWord rest)
    (h : Scans rest tokens) :
    Scans (Value.writeItems layout depth items ++ rest)
      (Node.itemTokens (Value.toNodes items) ++ tokens) := by
  induction items with
  | nil => exact h
  | cons item items ih =>
    rw [List.forall_mem_cons] at hitems
    have hitem := hitems.1 depth _ _ (endsWord_writeItems depth items hrest) (ih hitems.2)
    have hcomma := mark (c := ',') rfl (gap_append (hlayout.gap depth) hitem)
    simpa only [Value.writeItems, Value.toNodes, Node.itemTokens, List.cons_append,
      List.append_assoc] using hcomma

/-- The text of the members after the first one is scanned as their tokens. -/
theorem writeMembers_append (hlayout : layout.IsBlank) {members : List (String × Value)}
    (hmembers : ∀ member ∈ members, ScansWritten layout member.2) (depth : Nat)
    (hrest : EndsWord rest) (h : Scans rest tokens) :
    Scans (Value.writeMembers layout depth members ++ rest)
      (Node.memberTokens (Value.toMembers members) ++ tokens) := by
  induction members with
  | nil => exact h
  | cons member members ih =>
    obtain ⟨name, value⟩ := member
    rw [List.forall_mem_cons] at hmembers
    have hmember := member_append hlayout hmembers.1 name depth
      (endsWord_writeMembers depth members hrest) (ih hmembers.2)
    have hcomma := mark (c := ',') rfl (gap_append (hlayout.gap depth) hmember)
    simpa only [Value.writeMembers, Value.toMembers, Node.memberTokens, List.cons_append,
      List.append_assoc] using hcomma

/-- A bracket that closes what is written at a depth, with the blanks in front of it. -/
theorem closing_append (hlayout : layout.IsBlank) {c : Char} {token : Token}
    (hc : ofChar? c = some token) (depth : Nat) (h : Scans rest tokens) :
    EndsWord (layout.gap depth ++ c :: rest) ∧
      Scans (layout.gap depth ++ c :: rest) (token :: tokens) := by
  refine ⟨EndsWord.gap_append (hlayout.gap depth) ?_, gap_append (hlayout.gap depth) (mark hc h)⟩
  intro d hd
  obtain rfl : c = d := by simpa using hd
  exact endsWord_of_ofChar? hc

/-- **The text of a value is scanned as its tokens.**

**Proof sketch.** Induction on the value. Names and integers are words, which end where the rest
begins. An array or object is put together from its closing bracket to the opening one, and what
follows each of its parts is a comma, a blank or that bracket. -/
theorem write_append (hlayout : layout.IsBlank) {value : Value} (hvalue : value.IsIntegral) :
    ScansWritten layout value := by
  have hname (word : List Char) (h : (word.all fun c => !endsWord c) = true) :
      ∀ c ∈ word, endsWord c = false := by
    intro c hc
    simpa using List.all_eq_true.1 h c hc
  induction hvalue with
  | null =>
    intro depth rest tokens hrest h
    exact word_append (hname ['n', 'u', 'l', 'l'] rfl) rfl hrest h
  | bool value =>
    intro depth rest tokens hrest h
    cases value with
    | true => exact word_append (hname ['t', 'r', 'u', 'e'] rfl) rfl hrest h
    | false => exact word_append (hname ['f', 'a', 'l', 's', 'e'] rfl) rfl hrest h
  | integer n =>
    intro depth rest tokens hrest h
    rw [Value.toNode, Number.literal_integer]
    exact ofInt_append n hrest h
  | string value =>
    intro depth rest tokens _ h
    exact writeString_append value h
  | @array items _ ih =>
    intro depth rest tokens _ h
    cases items with
    | nil => exact mark (c := '[') rfl (mark (c := ']') rfl h)
    | cons item items =>
      rw [List.forall_mem_cons] at ih
      obtain ⟨hends, hclose⟩ := closing_append hlayout (c := ']') rfl depth h
      have hitems := writeItems_append hlayout ih.2 (depth + 1) hends hclose
      have hitem := ih.1 (depth + 1) _ _ (endsWord_writeItems (depth + 1) items hends) hitems
      have hopen := mark (c := '[') rfl (gap_append (hlayout.gap (depth + 1)) hitem)
      simpa only [Value.write, Value.toNode, Value.toNodes, Node.tokens, List.cons_append,
        List.append_assoc, List.nil_append] using hopen
  | @object members _ ih =>
    intro depth rest tokens _ h
    cases members with
    | nil => exact mark (c := '\x7b') rfl (mark (c := '\x7d') rfl h)
    | cons member members =>
      obtain ⟨name, value⟩ := member
      rw [List.forall_mem_cons] at ih
      obtain ⟨hends, hclose⟩ := closing_append hlayout (c := '\x7d') rfl depth h
      have hmembers := writeMembers_append hlayout ih.2 (depth + 1) hends hclose
      have hmember := member_append hlayout ih.1 name (depth + 1)
        (endsWord_writeMembers (depth + 1) members hends) hmembers
      have hopen := mark (c := '\x7b') rfl (gap_append (hlayout.gap (depth + 1)) hmember)
      simpa only [Value.write, Value.toNode, Value.toMembers, Node.tokens, List.cons_append,
        List.append_assoc, List.nil_append] using hopen

end Scans

end Token

namespace Node

/-- A text writes the document whose tokens are found in it. -/
theorem ofText?_eq_some {text : String} {node : Node}
    (h : Token.scan? text.toList = some node.tokens) : ofText? text = some node := by
  rw [ofText?, h, Option.bind_some, ofTokens?_tokens]

/-- **The text of a value is read as its document**, in every layout of blanks, and with blanks behind
it. -/
theorem ofText?_write_append {layout : Layout} (hlayout : layout.IsBlank) {value : Value}
    (hvalue : value.IsIntegral) {gap : List Char} (hgap : ∀ c ∈ gap, Token.isGap c = true) :
    ofText? (String.ofList (value.write layout 0 ++ gap)) = some value.toNode := by
  have hends : Token.EndsWord (gap ++ []) := .gap_append hgap nofun
  have hblank : Token.Scans (gap ++ []) [] := .gap_append hgap .nil
  have hscan := Token.Scans.write_append hlayout hvalue 0 _ _ hends hblank []
  rw [List.append_nil, List.append_nil, List.reverse_nil, List.nil_append] at hscan
  refine ofText?_eq_some ?_
  rw [String.toList_ofList, Token.scan?, hscan]

/-- The text of a value alone is read as its document. -/
theorem ofText?_write {layout : Layout} (hlayout : layout.IsBlank) {value : Value}
    (hvalue : value.IsIntegral) :
    ofText? (String.ofList (value.write layout 0)) = some value.toNode := by
  rw [← List.append_nil (value.write layout 0)]
  exact ofText?_write_append hlayout hvalue nofun

end Node

/-- What a reader reads in the text of a value is what it reads in its document. -/
theorem decode?_compact {α : Type} (read : Reader α) {value : Value} (hvalue : value.IsIntegral) :
    decode? read value.compact = read maxDepth value.toNode := by
  rw [decode?, Value.compact, Node.ofText?_write Layout.isBlank_compact hvalue, Option.bind_some]

end QueryFilter.Json
