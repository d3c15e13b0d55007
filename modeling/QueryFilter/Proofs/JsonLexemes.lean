import QueryFilter.Proofs.JsonScan

set_option relaxedAutoImplicit false
set_option autoImplicit false

/-!
# What is read was written

Scanning and reading go only one way, from a text to its tokens and on to its document. Here both are
undone. Every document has exactly one list of tokens, and every token that is found in a text is
written there in one of the ways that its kind has, with nothing but blanks around it.

## Main definitions

* `QueryFilter.Json.Node.State.written` — the tokens that lead to a state of the reader.
* `QueryFilter.Json.Spells` — the texts between the quotes of a string.
* `QueryFilter.Json.Token.Lexeme` — the texts of a token.
* `QueryFilter.Json.Token.Lexes` — texts with the lexemes of some tokens in them, and blanks.

## Main results

* `QueryFilter.Json.Node.ofText?_eq_some_iff` — the tokens of the texts that write a document.
* `QueryFilter.Json.Token.lexes_of_scan?` — what is scanned has lexemes.
* `QueryFilter.Json.Token.scan?_eq_singleton_iff` — the texts of a single token.
-/

namespace QueryFilter.Json

/-! ## Documents -/

namespace Node

/-- The tokens of items that are complete, each with the comma behind it. -/
def itemsWritten (before : List Node) : List Token :=
  before.reverse.flatMap fun item => item.tokens ++ [.comma]

/-- The tokens of members that are complete, each with the comma behind it. -/
def membersWritten (before : List (Quoted × Node)) : List Token :=
  before.reverse.flatMap fun member => .string member.1 :: .colon :: (member.2.tokens ++ [.comma])

/-- The tokens of an unfinished array or object. -/
def Frame.written : Frame → List Token
  | .items before => .openArray :: itemsWritten before
  | .members before name => .openObject :: (membersWritten before ++ [.string name, .colon])

/-- The tokens of all that is unfinished, from the outside in. -/
def outerWritten (outer : List Frame) : List Token :=
  outer.reverse.flatMap Frame.written

/-- The tokens that lead to a state. -/
def State.written : State → List Token
  | .value outer => outerWritten outer
  | .item outer => outerWritten outer ++ [.openArray]
  | .name before outer => outerWritten outer ++ .openObject :: membersWritten before
  | .colon before label outer =>
    outerWritten outer ++ .openObject :: (membersWritten before ++ [.string label])
  | .after node outer => outerWritten outer ++ node.tokens

/-- One more frame on the inside. -/
theorem outerWritten_cons (frame : Frame) (outer : List Frame) :
    outerWritten (frame :: outer) = outerWritten outer ++ frame.written := by
  rw [outerWritten, List.reverse_cons, List.flatMap_append, List.flatMap_singleton]
  rfl

/-- One more item with its comma. -/
theorem itemsWritten_cons (item : Node) (before : List Node) :
    itemsWritten (item :: before) = itemsWritten before ++ (item.tokens ++ [.comma]) := by
  rw [itemsWritten, List.reverse_cons, List.flatMap_append, List.flatMap_singleton]
  rfl

/-- One more member with its comma. -/
theorem membersWritten_cons (member : Quoted × Node) (before : List (Quoted × Node)) :
    membersWritten (member :: before)
      = membersWritten before
        ++ .string member.1 :: .colon :: (member.2.tokens ++ [.comma]) := by
  rw [membersWritten, List.reverse_cons, List.flatMap_append, List.flatMap_singleton]
  rfl

/-- The commas of an array stand in front of all items but the first one, or as well behind all items
but the last one. -/
theorem tokens_array_concat (items : List Node) (last : Node) :
    (array (items ++ [last])).tokens
      = .openArray :: (items.flatMap (fun item => item.tokens ++ [.comma])
        ++ (last.tokens ++ [.closeArray])) := by
  have hitems (items : List Node) : itemTokens (items ++ [last])
      = .comma :: (items.flatMap (fun item => item.tokens ++ [.comma]) ++ last.tokens) := by
    induction items with
    | nil => simp [itemTokens]
    | cons item items ih => simp [itemTokens, ih]
  cases items with
  | nil => simp [tokens, itemTokens]
  | cons item items => simp [tokens, hitems]

/-- The same for the commas of an object. -/
theorem tokens_object_concat (members : List (Quoted × Node)) (name : Quoted) (last : Node) :
    (object (members ++ [(name, last)])).tokens
      = .openObject :: (members.flatMap (fun member =>
          .string member.1 :: .colon :: (member.2.tokens ++ [.comma]))
        ++ .string name :: .colon :: (last.tokens ++ [.closeObject])) := by
  have hmembers (members : List (Quoted × Node)) : memberTokens (members ++ [(name, last)])
      = .comma :: (members.flatMap (fun member =>
          .string member.1 :: .colon :: (member.2.tokens ++ [.comma]))
        ++ .string name :: .colon :: last.tokens) := by
    induction members with
    | nil => simp [memberTokens]
    | cons member members ih => simp [memberTokens, ih]
  cases members with
  | nil => simp [tokens, memberTokens]
  | cons member members => simp [tokens, hmembers]

/-- The first token of a value leads to the state after it. -/
theorem State.written_of_open? {outer : List Frame} {token : Token} {next : State}
    (h : State.open? outer token = some next) :
    next.written = outerWritten outer ++ [token] := by
  cases token with
  | null | bool _ | number _ | string _ | openArray | openObject =>
    cases h
    rfl
  | closeArray | closeObject | comma | colon => contradiction

/-- **A step of the reader adds its token** to those that lead to the state. -/
theorem State.written_of_step {state next : State} {token : Token}
    (h : state.step token = some next) : next.written = state.written ++ [token] := by
  cases state with
  | value outer => exact written_of_open? h
  | item outer =>
    by_cases htoken : token = .closeArray
    · subst htoken
      cases h
      simp [written, tokens]
    · have hopen : State.open? (.items [] :: outer) token = some next :=
        (step_item htoken outer).symm.trans h
      rw [written_of_open? hopen, outerWritten_cons]
      rfl
  | name before outer =>
    cases token with
    | string label =>
      cases h
      simp [written]
    | closeObject =>
      cases before with
      | nil =>
        cases h
        simp [written, membersWritten, tokens]
      | cons member before => contradiction
    | _ => cases before <;> contradiction
  | colon before label outer =>
    cases token with
    | colon =>
      cases h
      simp [written, outerWritten_cons, Frame.written]
    | _ => contradiction
  | after node outer =>
    cases outer with
    | nil => contradiction
    | cons frame outer =>
      cases frame with
      | items before =>
        cases token with
        | comma =>
          cases h
          simp [written, outerWritten_cons, Frame.written, itemsWritten_cons]
        | closeArray =>
          cases h
          simp [written, outerWritten_cons, Frame.written, itemsWritten, tokens_array_concat]
        | _ => contradiction
      | members before label =>
        cases token with
        | comma =>
          cases h
          simp [written, outerWritten_cons, Frame.written, membersWritten_cons]
        | closeObject =>
          cases h
          simp [written, outerWritten_cons, Frame.written, membersWritten, tokens_object_concat]
        | _ => contradiction

/-- Steps of the reader add their tokens. -/
theorem State.written_of_foldlM {tokens : List Token} {state next : State}
    (h : tokens.foldlM State.step state = some next) : next.written = state.written ++ tokens := by
  induction tokens generalizing state with
  | nil =>
    cases h
    rw [List.append_nil]
  | cons token tokens ih =>
    rw [List.foldlM_cons, Option.bind_eq_bind, Option.bind_eq_some_iff] at h
    obtain ⟨middle, hstep, hrest⟩ := h
    rw [ih hrest, State.written_of_step hstep, List.append_assoc, List.singleton_append]

/-- **A document has one list of tokens.** -/
theorem ofTokens?_eq_some_iff {tokens : List Token} {node : Node} :
    ofTokens? tokens = some node ↔ tokens = node.tokens := by
  constructor
  · intro h
    obtain ⟨state, hstate, hfinish⟩ := Option.bind_eq_some_iff.1 h
    have hwritten := State.written_of_foldlM hstate
    unfold State.finish at hfinish
    split at hfinish
    · cases hfinish
      exact hwritten.symm
    · contradiction
  · rintro rfl
    exact ofTokens?_tokens node

/-- **The texts that write a document** are those in which its tokens are found. -/
theorem ofText?_eq_some_iff {text : String} {node : Node} :
    ofText? text = some node ↔ Token.scan? text.toList = some node.tokens := by
  rw [ofText?, Option.bind_eq_some_iff]
  simp only [ofTokens?_eq_some_iff]
  constructor
  · rintro ⟨tokens, hscan, rfl⟩
    exact hscan
  · intro h
    exact ⟨_, h, rfl⟩

end Node

/-! ## Strings -/

/-- What stands between the quotes of a string, and the pieces that it is read as. -/
inductive Spells : List Char → Quoted → Prop
  | nil : Spells [] []
  /-- A character that stands for itself. -/
  | char {c : Char} {body : List Char} {quoted : Quoted} (hquote : c ≠ '"') (hescape : c ≠ '\\')
      (hcontrol : 0x20 ≤ c.toNat) (h : Spells body quoted) :
      Spells (c :: body) (.char c :: quoted)
  /-- A short escape. -/
  | escape {c escaped : Char} {body : List Char} {quoted : Quoted}
      (hescaped : Token.shortEscape? c = some escaped) (h : Spells body quoted) :
      Spells ('\\' :: c :: body) (.char escaped :: quoted)
  /-- A code unit with its four digits. -/
  | code {c₁ c₂ c₃ c₄ : Char} {d₁ d₂ d₃ d₄ : Nat} {body : List Char} {quoted : Quoted}
      (h₁ : Token.hexDigit? c₁ = some d₁) (h₂ : Token.hexDigit? c₂ = some d₂)
      (h₃ : Token.hexDigit? c₃ = some d₃) (h₄ : Token.hexDigit? c₄ = some d₄)
      (h : Spells body quoted) :
      Spells ('\\' :: 'u' :: c₁ :: c₂ :: c₃ :: c₄ :: body)
        (.unit (16 * (16 * (16 * d₁ + d₂) + d₃) + d₄) :: quoted)

namespace Token

/-- No short escape is written with a `u`. -/
theorem ne_u_of_shortEscape? {c escaped : Char} (h : shortEscape? c = some escaped) : c ≠ 'u' := by
  rintro rfl
  contradiction

/-- What is spelled is scanned as its pieces. -/
theorem foldlM_step_of_spells {body : List Char} {quoted : Quoted} (h : Spells body quoted)
    (before : List Token) (collected : List Piece) :
    body.foldlM Scan.step ⟨before, .quoted collected⟩
      = some ⟨before, .quoted (quoted.reverse ++ collected)⟩ := by
  induction h generalizing collected with
  | nil => rfl
  | @char c body quoted hquote hescape hcontrol h ih =>
    have hstep := Scan.step_quoted before collected c
    rw [if_neg hquote, if_neg hescape, if_neg (Nat.not_lt.2 hcontrol)] at hstep
    rw [foldlM_cons_of_eq_some hstep, ih, List.reverse_cons, List.append_assoc,
      List.singleton_append]
  | @escape c escaped body quoted hescaped h ih =>
    have hopen : Scan.step ⟨before, .quoted collected⟩ '\\' = some ⟨before, .escape collected⟩ := rfl
    have hstep : Scan.step ⟨before, .escape collected⟩ c
        = some ⟨before, .quoted (.char escaped :: collected)⟩ := by
      simp only [Scan.step, if_neg (ne_u_of_shortEscape? hescaped), hescaped, Option.map_some]
    rw [foldlM_cons_of_eq_some hopen, foldlM_cons_of_eq_some hstep, ih, List.reverse_cons,
      List.append_assoc, List.singleton_append]
  | @code c₁ c₂ c₃ c₄ d₁ d₂ d₃ d₄ body quoted h₁ h₂ h₃ h₄ h ih =>
    have hopen (rest : List Char) :
        ('\\' :: 'u' :: rest).foldlM Scan.step ⟨before, .quoted collected⟩
          = rest.foldlM Scan.step ⟨before, .code collected 0 0⟩ := rfl
    have hdigit {c : Char} {d : Nat} (hc : hexDigit? c = some d) {digits : Nat}
        (hdigits : digits ≠ 3) (value : Nat) :
        Scan.step ⟨before, .code collected digits value⟩ c
          = some ⟨before, .code collected (digits + 1) (16 * value + d)⟩ := by
      rw [Scan.step_code, hc, Option.map_some, if_neg hdigits]
    have hlast (value : Nat) : Scan.step ⟨before, .code collected 3 value⟩ c₄
        = some ⟨before, .quoted (.unit (16 * value + d₄) :: collected)⟩ := by
      rw [Scan.step_code, h₄, Option.map_some, if_pos rfl]
    rw [hopen, foldlM_cons_of_eq_some (hdigit h₁ (by decide) 0),
      foldlM_cons_of_eq_some (hdigit h₂ (by decide) _),
      foldlM_cons_of_eq_some (hdigit h₃ (by decide) _), foldlM_cons_of_eq_some (hlast _), ih,
      Nat.mul_zero, Nat.zero_add, List.reverse_cons, List.append_assoc, List.singleton_append]

/-- The rest of a text is scanned from a state to the end. -/
def Completes (scan : Scan) (text : List Char) (tokens : List Token) : Prop :=
  (text.foldlM Scan.step scan).bind Scan.finish = some tokens

/-- Inside a token the text goes on. -/
theorem Completes.exists_cons {scan : Scan} {text : List Char} {tokens : List Token}
    (h : Completes scan text tokens) (hfinish : scan.finish = none) :
    ∃ c rest next, text = c :: rest ∧ scan.step c = some next ∧ Completes next rest tokens := by
  cases text with
  | nil =>
    have hnone : scan.finish = some tokens := h
    rw [hfinish] at hnone
    contradiction
  | cons c rest =>
    rw [Completes, List.foldlM_cons, Option.bind_eq_bind, Option.bind_assoc,
      Option.bind_eq_some_iff] at h
    obtain ⟨next, hstep, hrest⟩ := h
    exact ⟨c, rest, next, rfl, hstep, hrest⟩

/-- A digit of a code unit. -/
theorem Completes.exists_digit {before tokens : List Token} {collected : List Piece}
    {digits value : Nat} {text : List Char}
    (h : Completes ⟨before, .code collected digits value⟩ text tokens) :
    ∃ c rest d, text = c :: rest ∧ hexDigit? c = some d ∧
      Completes (if digits = 3 then ⟨before, .quoted (.unit (16 * value + d) :: collected)⟩
        else ⟨before, .code collected (digits + 1) (16 * value + d)⟩) rest tokens := by
  obtain ⟨c, rest, next, rfl, hstep, hrest⟩ := h.exists_cons rfl
  rw [Scan.step_code] at hstep
  obtain ⟨d, hd, rfl⟩ := Option.map_eq_some_iff.1 hstep
  exact ⟨c, rest, d, rfl, hd, hrest⟩

/-- Behind the `u` of an escape there are four digits, and the string goes on with their code unit. -/
theorem Completes.exists_code {before tokens : List Token} {collected : List Piece}
    {text : List Char} (h : Completes ⟨before, .code collected 0 0⟩ text tokens) :
    ∃ c₁ c₂ c₃ c₄ rest piece, text = c₁ :: c₂ :: c₃ :: c₄ :: rest ∧
      (∀ {body quoted}, Spells body quoted →
        Spells ('\\' :: 'u' :: c₁ :: c₂ :: c₃ :: c₄ :: body) (piece :: quoted)) ∧
      Completes ⟨before, .quoted (piece :: collected)⟩ rest tokens := by
  obtain ⟨c₁, rest, d₁, rfl, h₁, h⟩ := h.exists_digit
  obtain ⟨c₂, rest, d₂, rfl, h₂, h⟩ := Completes.exists_digit h
  obtain ⟨c₃, rest, d₃, rfl, h₃, h⟩ := Completes.exists_digit h
  obtain ⟨c₄, rest, d₄, rfl, h₄, h⟩ := Completes.exists_digit h
  rw [if_pos rfl, Nat.mul_zero, Nat.zero_add] at h
  exact ⟨c₁, c₂, c₃, c₄, rest, _, rfl, fun hbody => .code h₁ h₂ h₃ h₄ hbody, h⟩

/-- **The rest of a string is spelled**, up to the quote that closes it.

**Proof sketch.** Induction on the length of the text. A character that stands for itself, a short
escape and a code unit are taken off the front, and the string goes on behind them. -/
theorem Completes.exists_spells {before tokens : List Token} {text : List Char}
    {collected : List Piece} (h : Completes ⟨before, .quoted collected⟩ text tokens) :
    ∃ body rest quoted, text = body ++ '"' :: rest ∧ Spells body quoted ∧
      Completes ⟨.string (collected.reverse ++ quoted) :: before, .between⟩ rest tokens := by
  induction hlength : text.length using Nat.strongRecOn generalizing text collected with
  | ind length ih =>
    subst hlength
    -- what is taken off the front is put in front of what the rest spells
    have hfront (front : List Char) {rest : List Char} {piece : Piece}
        (hspells : ∀ {body quoted}, Spells body quoted →
          Spells (front ++ body) (piece :: quoted))
        (htext : text = front ++ rest) (hlt : rest.length < text.length)
        (hrest : Completes ⟨before, .quoted (piece :: collected)⟩ rest tokens) :
        ∃ body rest quoted, text = body ++ '"' :: rest ∧ Spells body quoted ∧
          Completes ⟨.string (collected.reverse ++ quoted) :: before, .between⟩ rest tokens := by
      obtain ⟨body, after, quoted, rfl, hbody, hafter⟩ := ih _ hlt hrest rfl
      refine ⟨front ++ body, after, piece :: quoted, ?_, hspells hbody, ?_⟩
      · rw [htext, List.append_assoc]
      · rwa [List.reverse_cons, List.append_assoc, List.singleton_append] at hafter
    obtain ⟨c, rest, next, rfl, hstep, hrest⟩ := h.exists_cons rfl
    rw [Scan.step_quoted] at hstep
    split at hstep
    · next hquote =>
      cases hstep
      refine ⟨[], rest, [], by rw [hquote]; rfl, .nil, ?_⟩
      rwa [List.append_nil]
    · next hquote =>
      split at hstep
      · next hescape =>
        cases hstep
        subst hescape
        obtain ⟨d, rest, next, rfl, hstep, hrest⟩ := hrest.exists_cons rfl
        by_cases hu : d = 'u'
        · subst hu
          cases hstep
          obtain ⟨c₁, c₂, c₃, c₄, rest, piece, rfl, hspells, hrest⟩ := hrest.exists_code
          refine hfront ['\\', 'u', c₁, c₂, c₃, c₄] hspells rfl ?_ hrest
          simp only [List.length_cons]
          omega
        · simp only [Scan.step, if_neg hu, Option.map_eq_some_iff] at hstep
          obtain ⟨escaped, hescaped, rfl⟩ := hstep
          refine hfront ['\\', d] (Spells.escape hescaped) rfl ?_ hrest
          simp only [List.length_cons]
          omega
      · next hescape =>
        split at hstep
        · contradiction
        · next hcontrol =>
          cases hstep
          refine hfront [c] (Spells.char hquote hescape (Nat.not_lt.1 hcontrol)) rfl ?_ hrest
          simp only [List.length_cons]
          omega

/-! ## Lexemes -/

/-- The texts of a token. -/
inductive Lexeme : List Char → Token → Prop
  | mark {c : Char} {token : Token} (h : ofChar? c = some token) : Lexeme [c] token
  | word {word : List Char} {token : Token} (hword : ∀ c ∈ word, endsWord c = false)
      (h : ofWord? word = some token) : Lexeme word token
  | string {body : List Char} {quoted : Quoted} (h : Spells body quoted) :
    Lexeme ('"' :: (body ++ ['"'])) (.string quoted)

/-- Texts with the lexemes of some tokens in them, in order, and blanks around these. -/
inductive Lexes : List Char → List Token → Prop
  | gap {gap : List Char} (hgap : ∀ c ∈ gap, isGap c = true) : Lexes gap []
  | lexeme {gap word rest : List Char} {token : Token} {tokens : List Token}
      (hgap : ∀ c ∈ gap, isGap c = true) (hword : Lexeme word token) (hrest : Lexes rest tokens) :
      Lexes (gap ++ (word ++ rest)) (token :: tokens)

/-- A blank in front does not matter. -/
theorem Lexes.cons_gap {text : List Char} {tokens : List Token} {c : Char} (hc : isGap c = true)
    (h : Lexes text tokens) : Lexes (c :: text) tokens := by
  cases h with
  | gap hgap => exact .gap (List.forall_mem_cons.2 ⟨hc, hgap⟩)
  | lexeme hgap hword hrest =>
    rw [← List.cons_append]
    exact .lexeme (List.forall_mem_cons.2 ⟨hc, hgap⟩) hword hrest

/-- A lexeme in front is one more token. -/
theorem Lexes.append {word rest : List Char} {token : Token} {tokens : List Token}
    (hword : Lexeme word token) (h : Lexes rest tokens) : Lexes (word ++ rest) (token :: tokens) :=
  .lexeme (List.forall_mem_nil _) hword h

/-- **The rest of a word** goes on to the end of the text, or to a character that ends it. -/
theorem Completes.exists_word {before tokens : List Token} {text collected : List Char}
    (h : Completes ⟨before, .word collected⟩ text tokens) :
    ∃ word rest token, text = word ++ rest ∧ (∀ c ∈ word, endsWord c = false) ∧
      ofWord? (collected.reverse ++ word) = some token ∧
      Completes ⟨token :: before, .between⟩ rest tokens := by
  induction text generalizing collected with
  | nil =>
    have hfinish : (ofWord? collected.reverse).map (fun token => (token :: before).reverse)
        = some tokens := h
    obtain ⟨token, htoken, htokens⟩ := Option.map_eq_some_iff.1 hfinish
    refine ⟨[], [], token, rfl, nofun, by rwa [List.append_nil], congrArg some htokens⟩
  | cons c text ih =>
    rw [Completes, List.foldlM_cons, Scan.step_word] at h
    split at h
    · rw [Option.bind_eq_bind, Option.bind_assoc, Option.bind_eq_some_iff] at h
      obtain ⟨next, hstep, hrest⟩ := h
      obtain ⟨token, htoken, rfl⟩ := Option.map_eq_some_iff.1 hstep
      refine ⟨[], c :: text, token, rfl, nofun, by rwa [List.append_nil], ?_⟩
      rwa [Completes, foldlM_cons_of_eq_some (Scan.step_between _ c)]
    · next hends =>
      obtain ⟨word, rest, token, rfl, hword, htoken, hrest⟩ := ih h
      rw [List.reverse_cons, List.append_assoc, List.singleton_append] at htoken
      refine ⟨c :: word, rest, token, rfl, ?_, htoken, hrest⟩
      exact List.forall_mem_cons.2 ⟨by simpa using hends, hword⟩

/-- **What is scanned has lexemes.**

**Proof sketch.** Induction on the length of the text. Its first character is a blank, opens a string,
stands for a token or starts a word, and the scanner goes on behind the string, the character or the
word with one more token. -/
theorem Completes.exists_lexes {before tokens : List Token} {text : List Char}
    (h : Completes ⟨before, .between⟩ text tokens) :
    ∃ more, tokens = before.reverse ++ more ∧ Lexes text more := by
  induction hlength : text.length using Nat.strongRecOn generalizing text before with
  | ind length ih =>
    subst hlength
    have hlexeme {word rest : List Char} {token : Token} (hword : Lexeme word token)
        (htext : text = word ++ rest) (hlt : rest.length < text.length)
        (hrest : Completes ⟨token :: before, .between⟩ rest tokens) :
        ∃ more, tokens = before.reverse ++ more ∧ Lexes text more := by
      obtain ⟨more, rfl, hmore⟩ := ih _ hlt hrest rfl
      refine ⟨token :: more, ?_, htext ▸ hmore.append hword⟩
      rw [List.reverse_cons, List.append_assoc, List.singleton_append]
    cases text with
    | nil =>
      cases h
      exact ⟨[], (List.append_nil _).symm, .gap nofun⟩
    | cons c text =>
      rw [Completes, foldlM_cons_of_eq_some (Scan.step_between before c), Scan.start] at h
      split at h
      · next hgap =>
        obtain ⟨more, rfl, hmore⟩ := ih _ (Nat.lt_succ_self _) h rfl
        exact ⟨more, rfl, hmore.cons_gap hgap⟩
      · next hgap =>
        split at h
        · next hquote =>
          obtain ⟨body, rest, quoted, rfl, hbody, hrest⟩ := Completes.exists_spells h
          have htext : c :: (body ++ '"' :: rest) = '"' :: (body ++ ['"']) ++ rest := by
            simp [hquote]
          refine hlexeme (.string hbody) htext ?_ hrest
          simp only [List.length_cons, List.length_append]
          omega
        · next hquote =>
          split at h
          · next token htoken =>
            exact hlexeme (.mark htoken) rfl (Nat.lt_succ_self _) h
          · next hmark =>
            obtain ⟨word, rest, token, rfl, hword, htoken, hrest⟩ := Completes.exists_word h
            have hc : endsWord c = false := by
              simp [endsWord, hgap, hquote, hmark]
            refine hlexeme (.word (List.forall_mem_cons.2 ⟨hc, hword⟩) htoken) rfl ?_ hrest
            simp only [List.length_cons, List.length_append]
            omega

/-- The lexemes of the tokens of a text. -/
theorem lexes_of_scan? {text : List Char} {tokens : List Token} (h : scan? text = some tokens) :
    Lexes text tokens := by
  obtain ⟨more, rfl, hmore⟩ := Completes.exists_lexes h
  exact hmore

/-- A lexeme is scanned as its token, if what follows ends a word. -/
theorem Scans.lexeme_append {word rest : List Char} {token : Token} {tokens : List Token}
    (hword : Lexeme word token) (hends : EndsWord rest) (h : Scans rest tokens) :
    Scans (word ++ rest) (token :: tokens) := by
  cases hword with
  | mark hc => exact h.mark hc
  | word hchars htoken => exact h.word_append hchars htoken hends
  | @string body quoted hbody =>
    intro before
    have hopen : Scan.step ⟨before, .between⟩ '"' = some ⟨before, .quoted []⟩ := rfl
    have hinside := foldlM_step_of_spells hbody before []
    rw [List.cons_append, List.append_assoc, foldlM_cons_of_eq_some hopen,
      foldlM_append_of_eq_some hinside, List.singleton_append, List.append_nil]
    refine Scans.foldlM_of_step ?_ h
    rw [Scan.step_quoted, if_pos rfl, List.reverse_reverse]

/-- **The texts of a single token** are its lexemes with blanks around them. -/
theorem scan?_eq_singleton_iff {text : List Char} {token : Token} :
    scan? text = some [token] ↔ ∃ before word after, text = before ++ (word ++ after) ∧
      (∀ c ∈ before, isGap c = true) ∧ (∀ c ∈ after, isGap c = true) ∧ Lexeme word token := by
  constructor
  · intro h
    cases lexes_of_scan? h with
    | @lexeme gap word rest _ _ hgap hword hrest =>
      cases hrest with
      | gap hafter => exact ⟨gap, word, rest, rfl, hgap, hafter, hword⟩
  · rintro ⟨before, word, after, rfl, hbefore, hafter, hword⟩
    have hends : EndsWord (after ++ []) := .gap_append hafter nofun
    have hblank : Scans (after ++ []) [] := .gap_append hafter .nil
    rw [List.append_nil] at hends hblank
    exact (Scans.lexeme_append hword hends hblank).gap_append hbefore []

end Token

end QueryFilter.Json
