import SerialContract.Proofs.Document.JsonToken

/-!
# What JSON texts write

A value is written by its tokens, spelt one after another with blanks between them. Every value can be written, and
every text that writes a value is read as that value.
-/

namespace SerialContract.JsonValue

/-! ## Tokens of values -/

mutual

/-- The tokens that write a value. -/
def tokensOf : JsonValue → List Token
  | string s => [.string s]
  | array items => .openArray :: itemTokens items
  | object members => .openObject :: memberTokens members
  | null => [.literal null]
  | bool b => [.literal (bool b)]
  | whole n => [.literal (whole n)]
  | otherNumber => [.literal otherNumber]

/-- The tokens of items and of the end of their array. -/
def itemTokens : List JsonValue → List Token
  | [] => [.closeArray]
  | v :: items => tokensOf v ++ moreItemTokens items

/-- The tokens behind an item, up to the end of its array. -/
def moreItemTokens : List JsonValue → List Token
  | [] => [.closeArray]
  | v :: items => .comma :: (tokensOf v ++ moreItemTokens items)

/-- The tokens of members and of the end of their object. -/
def memberTokens : List (String × JsonValue) → List Token
  | [] => [.closeObject]
  | (name, v) :: members => .string name :: .colon :: (tokensOf v ++ moreMemberTokens members)

/-- The tokens behind a member, up to the end of its object. -/
def moreMemberTokens : List (String × JsonValue) → List Token
  | [] => [.closeObject]
  | (name, v) :: members => .comma :: .string name :: .colon :: (tokensOf v ++ moreMemberTokens members)

end

mutual

/-- The tokens of a value build it, wherever it stands. -/
theorem buildValue_tokensOf (v : JsonValue) (outer : List Unfinished) (rest : List Token) :
    buildValue outer (tokensOf v ++ rest) = buildAfter v outer rest := by
  match v with
  | string s => rfl
  | array items => exact buildValue_itemTokens items outer rest
  | object members => exact buildValue_memberTokens members outer rest
  | null => rfl
  | bool b => rfl
  | whole n => rfl
  | otherNumber => rfl

theorem buildValue_itemTokens (items : List JsonValue) (outer : List Unfinished) (rest : List Token) :
    buildValue outer (.openArray :: (itemTokens items ++ rest)) = buildAfter (array items) outer rest := by
  match items with
  | [] => rfl
  | v :: items =>
      have hopen : buildValue outer (.openArray :: (tokensOf v ++ (moreItemTokens items ++ rest))) =
          buildValue (.array [] :: outer) (tokensOf v ++ (moreItemTokens items ++ rest)) := by
        cases v <;> rfl
      rw [itemTokens, List.append_assoc, hopen, buildValue_tokensOf v, buildAfter_moreItemTokens items v []]
      rfl

theorem buildAfter_moreItemTokens (items : List JsonValue) (v : JsonValue) (done : List JsonValue)
    (outer : List Unfinished) (rest : List Token) :
    buildAfter v (.array done :: outer) (moreItemTokens items ++ rest) =
      buildAfter (array (done.reverse ++ v :: items)) outer rest := by
  match items with
  | [] =>
      rw [← List.reverse_cons]
      rfl
  | w :: items =>
      have hcomma : buildAfter v (.array done :: outer) (.comma :: (tokensOf w ++ (moreItemTokens items ++ rest))) =
          buildValue (.array (v :: done) :: outer) (tokensOf w ++ (moreItemTokens items ++ rest)) := rfl
      rw [moreItemTokens, List.cons_append, List.append_assoc, hcomma, buildValue_tokensOf w,
        buildAfter_moreItemTokens items w (v :: done), List.reverse_cons, List.append_assoc, List.singleton_append]

theorem buildValue_memberTokens (members : List (String × JsonValue)) (outer : List Unfinished) (rest : List Token) :
    buildValue outer (.openObject :: (memberTokens members ++ rest)) = buildAfter (object members) outer rest := by
  match members with
  | [] => rfl
  | (name, v) :: members =>
      have hopen : buildValue outer (.openObject :: .string name :: .colon ::
          (tokensOf v ++ (moreMemberTokens members ++ rest))) =
          buildValue (.object [] name :: outer) (tokensOf v ++ (moreMemberTokens members ++ rest)) := rfl
      rw [memberTokens, List.cons_append, List.cons_append, List.append_assoc, hopen, buildValue_tokensOf v,
        buildAfter_moreMemberTokens members name v []]
      rfl

theorem buildAfter_moreMemberTokens (members : List (String × JsonValue)) (name : String) (v : JsonValue)
    (done : List (String × JsonValue)) (outer : List Unfinished) (rest : List Token) :
    buildAfter v (.object done name :: outer) (moreMemberTokens members ++ rest) =
      buildAfter (object (done.reverse ++ (name, v) :: members)) outer rest := by
  match members with
  | [] =>
      rw [← List.reverse_cons]
      rfl
  | (next, w) :: members =>
      have hcomma : buildAfter v (.object done name :: outer) (.comma :: .string next :: .colon ::
          (tokensOf w ++ (moreMemberTokens members ++ rest))) =
          buildValue (.object ((name, v) :: done) next :: outer)
            (tokensOf w ++ (moreMemberTokens members ++ rest)) := rfl
      rw [moreMemberTokens, List.cons_append, List.cons_append, List.cons_append, List.append_assoc, hcomma,
        buildValue_tokensOf w, buildAfter_moreMemberTokens members next w ((name, v) :: done), List.reverse_cons,
        List.append_assoc, List.singleton_append]

end

/-! ## Texts of tokens -/

/-- A text that spells tokens, with blanks wherever they may stand. -/
inductive Spells : List Token → List Char → Prop where
  | nil : Spells [] []
  | gap {c : Char} {tokens : List Token} {text : List Char} (blank : isGap c = true) (rest : Spells tokens text) :
      Spells tokens (c :: text)
  | token {t : Token} {tokens : List Token} {spelled text : List Char} (spelling : Spelling t spelled)
      (ends : t.isLiteral = true → EndsNumber text) (rest : Spells tokens text) :
      Spells (t :: tokens) (spelled ++ text)

/-- Every step of the search takes a blank or a token. -/
theorem tokensIn_of_spells {tokens : List Token} {text : List Char} (h : Spells tokens text) :
    ∀ steps, text.length ≤ steps → tokensIn steps text = some tokens := by
  induction h with
  | nil =>
      intro steps _
      cases steps <;> rfl
  | gap blank _ ih =>
      intro steps hsteps
      cases steps with
      | zero => exact absurd hsteps (Nat.not_succ_le_zero _)
      | succ steps => rw [tokensIn, if_pos blank, ih steps (Nat.le_of_succ_le_succ hsteps)]
  | @token t tokens spelled text spelling ends _ ih =>
      intro steps hsteps
      have hread := readToken_append spelling ends
      obtain ⟨c, more, rfl, hgap⟩ := spelling.head
      cases steps with
      | zero => exact absurd hsteps (Nat.not_succ_le_zero _)
      | succ steps =>
          have hlength : text.length ≤ steps := by
            simp only [List.length_append, List.length_cons] at hsteps
            omega
          rw [List.cons_append] at hread
          rw [List.cons_append, tokensIn, if_neg (by simp [hgap]), hread]
          simp only [ih steps hlength, Option.map_some]

/-- A text that writes a value. -/
def Writes (v : JsonValue) (text : String) : Prop :=
  Spells (tokensOf v) text.toList

theorem parse?_of_writes {v : JsonValue} {text : String} (h : Writes v text) : parse? text = some v := by
  have htokens := tokensIn_of_spells h text.toList.length (Nat.le_refl _)
  have hbuild := buildValue_tokensOf v [] []
  rw [List.append_nil] at hbuild
  rw [parse?, tokens?, htokens]
  exact hbuild

/-! ## Every value can be written -/

theorem exists_escapes (text : List Char) : ∃ spelled, Escapes text spelled := by
  induction text with
  | nil => exact ⟨[], .nil⟩
  | cons c text ih =>
      obtain ⟨spelled, h⟩ := ih
      by_cases hquote : c = '"'
      · exact ⟨'\\' :: '"' :: spelled, .short (by rw [hquote]; decide) h⟩
      by_cases hbackslash : c = '\\'
      · exact ⟨'\\' :: '\\' :: spelled, .short (by rw [hbackslash]; decide) h⟩
      by_cases hcontrol : 0x20 ≤ c.toNat
      · exact ⟨_, .plain hquote hbackslash hcontrol h⟩
      · have hvalue : ∀ n < 0x20, readDigits 16 ['0', '0', (n / 16).digitChar, (n % 16).digitChar] = some n := by decide
        exact ⟨_, .unit ⟨rfl, hvalue _ (Nat.lt_of_not_le hcontrol)⟩ h⟩

/-- A token that can be spelt. -/
def Token.Spellable (t : Token) : Prop :=
  ∃ spelled, Spelling t spelled

theorem Token.spellable_string (s : String) : Spellable (.string s) := by
  obtain ⟨spelled, h⟩ := exists_escapes s.toList
  exact ⟨_, .string h⟩

mutual

theorem spellable_tokensOf (v : JsonValue) : ∀ t ∈ tokensOf v, t.Spellable := by
  match v with
  | string s => exact List.forall_mem_singleton.2 (Token.spellable_string s)
  | array items => exact List.forall_mem_cons.2 ⟨⟨_, .openArray⟩, spellable_itemTokens items⟩
  | object members => exact List.forall_mem_cons.2 ⟨⟨_, .openObject⟩, spellable_memberTokens members⟩
  | null => exact List.forall_mem_singleton.2 ⟨_, .nullWord⟩
  | bool true => exact List.forall_mem_singleton.2 ⟨_, .trueWord⟩
  | bool false => exact List.forall_mem_singleton.2 ⟨_, .falseWord⟩
  | whole n => exact List.forall_mem_singleton.2 ⟨_, .number (.whole n)⟩
  | otherNumber =>
      exact List.forall_mem_singleton.2 ⟨_, .number (.other (.inr rfl) (.inl rfl) (.inl rfl) (.inl rfl)
        (.inl (List.cons_ne_nil _ _)))⟩

theorem spellable_itemTokens (items : List JsonValue) : ∀ t ∈ itemTokens items, t.Spellable := by
  match items with
  | [] => exact List.forall_mem_singleton.2 ⟨_, .closeArray⟩
  | v :: items => exact List.forall_mem_append.2 ⟨spellable_tokensOf v, spellable_moreItemTokens items⟩

theorem spellable_moreItemTokens (items : List JsonValue) : ∀ t ∈ moreItemTokens items, t.Spellable := by
  match items with
  | [] => exact List.forall_mem_singleton.2 ⟨_, .closeArray⟩
  | v :: items =>
      exact List.forall_mem_cons.2 ⟨⟨_, .comma⟩,
        List.forall_mem_append.2 ⟨spellable_tokensOf v, spellable_moreItemTokens items⟩⟩

theorem spellable_memberTokens (members : List (String × JsonValue)) : ∀ t ∈ memberTokens members, t.Spellable := by
  match members with
  | [] => exact List.forall_mem_singleton.2 ⟨_, .closeObject⟩
  | (name, v) :: members =>
      exact List.forall_mem_cons.2 ⟨Token.spellable_string name, List.forall_mem_cons.2 ⟨⟨_, .colon⟩,
        List.forall_mem_append.2 ⟨spellable_tokensOf v, spellable_moreMemberTokens members⟩⟩⟩

theorem spellable_moreMemberTokens (members : List (String × JsonValue)) :
    ∀ t ∈ moreMemberTokens members, t.Spellable := by
  match members with
  | [] => exact List.forall_mem_singleton.2 ⟨_, .closeObject⟩
  | (name, v) :: members =>
      exact List.forall_mem_cons.2 ⟨⟨_, .comma⟩, List.forall_mem_cons.2 ⟨Token.spellable_string name,
        List.forall_mem_cons.2 ⟨⟨_, .colon⟩,
          List.forall_mem_append.2 ⟨spellable_tokensOf v, spellable_moreMemberTokens members⟩⟩⟩⟩

end

/-- With a blank in front of every token no number runs on. -/
theorem exists_spells (tokens : List Token) (h : ∀ t ∈ tokens, t.Spellable) :
    ∃ text, Spells tokens text ∧ EndsNumber text := by
  induction tokens with
  | nil => exact ⟨[], .nil, nofun⟩
  | cons t tokens ih =>
      obtain ⟨⟨spelled, hspelled⟩, hrest⟩ := List.forall_mem_cons.1 h
      obtain ⟨text, htext, hends⟩ := ih hrest
      refine ⟨' ' :: (spelled ++ text), .gap rfl (.token hspelled (fun _ => hends) htext), ?_⟩
      intro c hc
      cases hc
      decide

theorem exists_writes (v : JsonValue) : ∃ text, Writes v text := by
  obtain ⟨text, htext, _⟩ := exists_spells (tokensOf v) (spellable_tokensOf v)
  refine ⟨String.ofList text, ?_⟩
  rwa [Writes, String.toList_ofList]

end SerialContract.JsonValue
