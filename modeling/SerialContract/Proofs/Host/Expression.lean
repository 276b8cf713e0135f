import SerialContract.Host.Method
import SerialContract.Proofs.Contract.Identifier
import SerialContract.Proofs.Number.Digits
import SerialContract.Proofs.Template.Lines
import SerialContract.Proofs.Text.Spelling
import SerialContract.Proofs.Contract.Validity

/-!
# Expressions for exchanges

The host's client lists the exchanges of the contract as expressions. Names are identifiers and cannot close the
quotes that they stand in, and so every expression ends by itself: lists of valid exchanges are told apart by their
expressions.
-/

namespace SerialContract.Host

/-! ## Fields -/

theorem selfEnding_name : SelfEnding (fun name : String => isIdentifier name = true) fun name => name.toList ++ ['"'] :=
  .upTo (fun _ h => notMem_of_isIdentifierPart (fun _ => isIdentifierPart_of_mem h) (by decide))
    fun _ _ _ _ => String.toList_inj.1

theorem selfEnding_typeTag : SelfEnding (fun _ : FieldType => True) fun type => (typeTag type).toList ++ [')'] :=
  .upTo (fun type _ => by cases type <;> decide) fun a b _ _ => by cases a <;> cases b <;> decide

/-- The expression for a field, as it is added to a set of fields. -/
def fieldExpression (field : Field) : String :=
  "\n                .with(\"" ++ field.name ++ "\", SemanticType::" ++ typeTag field.type ++ ")"

theorem toList_fieldExpression (f : Field) : (fieldExpression f).toList = "\n                .with(\"".toList ++
    (f.name.toList ++ ['"'] ++ (", SemanticType::".toList ++ ((typeTag f.type).toList ++ [')']))) := by
  have hquote : "\", SemanticType::".toList = ['"'] ++ ", SemanticType::".toList := by simp
  have hend : ")".toList = [')'] := by simp
  have hwhole : fieldExpression f =
    "\n                .with(\"" ++ f.name ++ "\", SemanticType::" ++ typeTag f.type ++ ")" := rfl
  simp only [hwhole, String.toList_append, hquote, hend, List.append_assoc]

theorem selfEnding_field : SelfEnding (fun f : Field => isIdentifier f.name = true) fun f => (fieldExpression f).toList := by
  refine ((selfEnding_name.pair (selfEnding_typeTag.behind ", SemanticType::".toList)).behind
    "\n                .with(\"".toList).of_parts (fun f => (f.name, f.type)) (fun f h => ?_) (fun a b _ _ h => ?_)
  · exact ⟨⟨h, trivial⟩, toList_fieldExpression f⟩
  · cases a
    cases b
    cases h
    rfl

theorem toList_fieldSetExpression (fields : FieldSet) : (fieldSetExpression fields).toList =
    "FieldSet::new()".toList ++ fields.flatMap fun f => (fieldExpression f).toList := by
  have hwhole : fieldSetExpression fields = "FieldSet::new()" ++ String.join (fields.map fieldExpression) := rfl
  rw [hwhole, String.toList_append, String.toList_join, List.flatMap_map]

theorem selfEnding_fields : SelfEnding (fun fields : FieldSet => ∀ f ∈ fields, isIdentifier f.name = true)
    fun fields => (fields.flatMap fun f => (fieldExpression f).toList) ++ [',', '\n'] := by
  refine selfEnding_field.list [',', '\n'] fun f _ rest rest' h => ?_
  have hfront : "\n                .with(\"".toList = '\n' :: "                .with(\"".toList := by simp
  rw [toList_fieldExpression, hfront] at h
  exact absurd (List.cons.inj h).1 (by decide)

/-! ## Identifying bytes -/

theorem digitValue_hexDigit : ∀ n < 16, digitValue (hexDigit n) = some n := by
  decide

theorem toList_hexByte (b : UInt8) : (hexByte b).toList = [hexDigit (b.toNat / 16), hexDigit (b.toNat % 16)] :=
  String.toList_ofList

theorem readDigits_hexByte (b : UInt8) : readDigits 16 (hexByte b).toList = some b.toNat := by
  have hhigh : b.toNat / 16 < 16 := Nat.div_lt_of_lt_mul b.toNat_lt
  have hlow : b.toNat % 16 < 16 := Nat.mod_lt _ (by decide)
  rw [toList_hexByte, readDigits, if_neg (by simp), readBlocks_eq]
  simp only [readDigitsFrom, digitValue_hexDigit _ hhigh, digitValue_hexDigit _ hlow, hhigh, hlow, ↓reduceIte]
  rw [Nat.zero_mul, Nat.add_zero, Nat.mul_zero, Nat.zero_add, Nat.div_add_mod]

theorem selfEnding_byte : SelfEnding (fun _ : UInt8 => True) fun b => (hexByte b).toList ++ [']'] := by
  refine .upTo (fun b _ => ?_) fun a b _ _ h => ?_
  · have hall : ∀ n < 16, hexDigit n ≠ ']' := by decide
    rw [toList_hexByte, List.mem_pair, not_or]
    exact ⟨(hall _ (Nat.div_lt_of_lt_mul b.toNat_lt)).symm, (hall _ (Nat.mod_lt _ (by decide))).symm⟩
  · have hboth := readDigits_hexByte a
    rw [h, readDigits_hexByte b, Option.some.injEq] at hboth
    exact UInt8.toNat_inj.1 hboth.symm

/-- No identifying bytes, or one. -/
def IsByte (identifier : Option (List UInt8)) : Prop := ∀ bytes, identifier = some bytes → ∃ b, bytes = [b]

/-- The call that gives an exchange its identifying bytes. -/
def identifierCall : Option (List UInt8) → String
  | some bytes => "\n        .with_binary_id(vec![" ++ ", ".intercalate (bytes.map fun b => "0x" ++ hexByte b) ++ "])"
  | none => ""

/-- What stands behind the sides of an exchange. -/
def identifierExpression (identifier : Option (List UInt8)) : List Char :=
  (identifierCall identifier).toList ++ [',', '\n']

theorem identifierExpression_byte (b : UInt8) : identifierExpression (some [b]) =
    "\n        .with_binary_id(vec![0x".toList ++ ((hexByte b).toList ++ [']'] ++ [')', ',', '\n']) := by
  have hfront : "\n        .with_binary_id(vec![".toList ++ "0x".toList = "\n        .with_binary_id(vec![0x".toList := by simp
  have hend : "])".toList = [']', ')'] := by simp
  have hcall : identifierCall (some [b]) = "\n        .with_binary_id(vec![" ++ ("0x" ++ hexByte b) ++ "])" := rfl
  simp only [identifierExpression, hcall, String.toList_append, hend, ← hfront, List.append_assoc]
  rfl

theorem identifierExpression_ne (b : UInt8) (rest rest' : List Char) :
    identifierExpression none ++ rest ≠ identifierExpression (some [b]) ++ rest' := by
  have hfront : "\n        .with_binary_id(vec![0x".toList = '\n' :: "        .with_binary_id(vec![0x".toList := by simp
  intro h
  rw [identifierExpression_byte, hfront] at h
  exact absurd (List.cons.inj h).1 (by decide)

theorem selfEnding_identifier : SelfEnding IsByte identifierExpression := by
  intro a a' ha ha' rest rest' h
  cases a with
  | none =>
      cases a' with
      | none => exact ⟨rfl, List.append_cancel_left h⟩
      | some bytes' =>
          obtain ⟨b', rfl⟩ := ha' bytes' rfl
          exact absurd h (identifierExpression_ne b' _ _)
  | some bytes =>
      obtain ⟨b, rfl⟩ := ha bytes rfl
      cases a' with
      | none => exact absurd h.symm (identifierExpression_ne b _ _)
      | some bytes' =>
          obtain ⟨b', rfl⟩ := ha' bytes' rfl
          rw [identifierExpression_byte, identifierExpression_byte] at h
          obtain ⟨rfl, rfl⟩ := (selfEnding_byte.before _).behind _ trivial trivial h
          exact ⟨rfl, rfl⟩

/-! ## Exchanges -/

theorem toList_exchangeExpression (e : Exchange) : (exchangeExpression e).toList =
    "        Exchange::new(\n            \"".toList ++ (e.name.toList ++ ['"'] ++
      (",\n            FieldSet::new()".toList ++ ((e.request.flatMap fun f => (fieldExpression f).toList) ++ [',', '\n'] ++
        ("            FieldSet::new()".toList ++ ((e.response.flatMap fun f => (fieldExpression f).toList) ++ [',', '\n'] ++
          ("        )".toList ++ identifierExpression e.identifier)))))) := by
  have hfront : "        Exchange::new(\n            \"".toList =
    "        Exchange::new(".toList ++ ("\n".toList ++ "            \"".toList) := by simp
  have hname : "\",".toList = ['"'] ++ ",".toList := by simp
  have hrequest : ",\n            FieldSet::new()".toList =
    ",".toList ++ ("\n".toList ++ ("            ".toList ++ "FieldSet::new()".toList)) := by simp
  have hresponse : "            FieldSet::new()".toList = "            ".toList ++ "FieldSet::new()".toList := by simp
  have hend : [',', '\n'] = ",".toList ++ "\n".toList := by simp
  have hwhole : exchangeExpression e = lines [
      "        Exchange::new(",
      "            \"" ++ e.name ++ "\",",
      "            " ++ fieldSetExpression e.request ++ ",",
      "            " ++ fieldSetExpression e.response ++ ",",
      "        )" ++ identifierCall e.identifier ++ ","] := rfl
  simp only [hwhole, lines_cons, line, String.toList_append, toList_fieldSetExpression, identifierExpression, hfront,
    hname, hrequest, hresponse, hend, List.append_assoc]
  rfl

theorem selfEnding_exchange : SelfEnding Exchange.Valid fun e => (exchangeExpression e).toList := by
  refine ((selfEnding_name.pair ((selfEnding_fields.pair ((selfEnding_fields.pair (selfEnding_identifier.behind
    "        )".toList)).behind "            FieldSet::new()".toList)).behind ",\n            FieldSet::new()".toList)).behind
      "        Exchange::new(\n            \"".toList).of_parts
    (fun e => (e.name, e.request, e.response, e.identifier)) (fun e he => ?_) (fun a b _ _ h => ?_)
  · refine ⟨⟨he.identifier, he.request.identifier, he.response.identifier, fun bytes hbytes => ?_⟩,
      toList_exchangeExpression e⟩
    obtain ⟨b, hb, _⟩ := he.byte bytes hbytes
    exact ⟨b, hb⟩
  · cases a
    cases b
    cases h
    rfl

/-- The end of the list of exchanges. -/
def exchangesEnd : List Char := "    ]".toList

theorem exchangesEnd_eq : exchangesEnd = "    ".toList ++ [']'] := by
  have hend : "    ]".toList = "    ".toList ++ [']'] := by simp
  exact hend

theorem selfEnding_exchanges : SelfEnding (fun es : List Exchange => ∀ e ∈ es, e.Valid)
    fun es => (String.join (es.map exchangeExpression)).toList ++ exchangesEnd := by
  have hfront : "        Exchange::new(\n            \"".toList =
    "    ".toList ++ ' ' :: "   Exchange::new(\n            \"".toList := by simp
  have hlist := selfEnding_exchange.list exchangesEnd fun e _ rest rest' h => by
    rw [toList_exchangeExpression, hfront, exchangesEnd_eq, List.append_assoc, List.append_assoc, List.append_assoc] at h
    exact absurd (List.cons.inj (List.append_cancel_left h)).1 (by decide)
  simpa only [String.toList_join, List.flatMap_map] using hlist

end SerialContract.Host
