import Mathlib.Data.List.Nodup
import SerialContract.Proofs.Contract.Validity

/-!
# Which declarations are accepted

The rules of a contract said of the declaration as a whole, and what loading makes of a declaration that
keeps to them: the exchanges as they are declared, and each section as declared or as usual.
-/

namespace SerialContract

/-! ## What a declaration has to keep to -/

namespace ExchangeDeclaration

/-- An exchange with both sides, of names that generated programs can have, with at most one identifying
byte, which is neither that of the ping nor has the bit that marks requests. -/
structure WellFormed (e : ExchangeDeclaration) : Prop where
  request : ∃ fields, e.request = some fields
  response : ∃ fields, e.response = some fields
  identifier : isIdentifier e.name = true
  unreserved : snakeCase e.name ∉ ["ping", "error"] ∧ snakeCase e.name ∉ cppKeywords
  fields : ∀ fields, e.request = some fields ∨ e.response = some fields → FieldSet.Valid fields
  byte : ∀ bytes, e.identifier = some bytes → ∃ b : UInt8, bytes = [b] ∧ 0x01 ≤ b ∧ b ≤ 0x7F

end ExchangeDeclaration

/-- Exchanges that are well formed and different in name and identifying byte, a name for every type, an
encoding that contracts may select, and a speed at which lines run. -/
structure ContractDeclaration.WellFormed (d : ContractDeclaration) : Prop where
  exchanges : ∀ e ∈ d.exchanges, e.WellFormed
  names : (d.exchanges.map fun e => snakeCase e.name).Nodup
  identifiers : (d.exchanges.filterMap (·.identifier)).Nodup
  typeNames : ∀ type, ∃ name, (d.typeMapping.getD .standard).get? type = some name ∧ isBlankText name = false
  encoding : d.encoding = none ∨ d.encoding = some .text
  baudRate : ∀ channel, d.channel = some channel → channel.baudRate ∈ standardBaudRates

/-- The declaration of an exchange that is complete. -/
def Exchange.declaration (e : Exchange) : ExchangeDeclaration :=
  ⟨e.name, e.identifier, some e.request, some e.response⟩

/-- The exchanges as declared, and each of the other sections as declared or, on its own, as usual. -/
structure Contract.Completes (c : Contract) (d : ContractDeclaration) : Prop where
  exchanges : d.exchanges = c.exchanges.map Exchange.declaration
  encoding : c.encoding = d.encoding.getD .text
  baudRate : c.channel.baudRate.value = (d.channel.map (·.baudRate)).getD 9600
  identifier : c.channel.identifier = (d.channel.map (·.identifier)).getD ""
  typeMapping : c.typeMapping = d.typeMapping.getD ⟨some "double", some "int", some "std::string", some "void"⟩

/-! ## Exchanges -/

theorem isReservedExchangeName_eq_false {name : String} :
    isReservedExchangeName name = false ↔ snakeCase name ∉ ["ping", "error"] ∧ snakeCase name ∉ cppKeywords := by
  have hbuiltIn : builtInExchangeNames.map snakeCase = ["ping", "error"] := by decide +kernel
  rw [isReservedExchangeName, hbuiltIn, Bool.or_eq_false_iff, List.contains_eq_mem, List.contains_eq_mem,
    decide_eq_false_iff_not, decide_eq_false_iff_not]

/-- The bit that marks requests is the highest one. -/
theorem unmarked_iff {b : UInt8} : b &&& IdentifierFault.requestMask = 0 ↔ b < 0x80 := by
  have hall : ∀ v : BitVec 8, UInt8.ofBitVec v &&& IdentifierFault.requestMask = 0 ↔ UInt8.ofBitVec v < 0x80 := by
    decide +kernel
  exact hall b.toBitVec

theorem free_iff {b : UInt8} :
    b &&& IdentifierFault.requestMask = 0 ∧ b ≠ Exchange.pingIdentifier ↔ 0x01 ≤ b ∧ b ≤ 0x7F := by
  rw [unmarked_iff, Exchange.pingIdentifier, ← UInt8.toNat_inj.ne]
  simp only [UInt8.lt_iff_toNat_lt, UInt8.le_iff_toNat_le, UInt8.reduceToNat]
  omega

namespace ExchangeDeclaration

theorem toExchange?_eq_some_iff {e : ExchangeDeclaration} {x : Exchange} :
    e.toExchange? = some x ↔ e = x.declaration := by
  rw [toExchange?_eq_some]
  cases e
  simp [Exchange.declaration]

theorem valid_iff_wellFormed {e : ExchangeDeclaration} : e.Valid ↔ e.WellFormed := by
  constructor
  · rintro ⟨x, hx, hvalid⟩
    obtain rfl := toExchange?_eq_some_iff.1 hx
    refine ⟨⟨_, rfl⟩, ⟨_, rfl⟩, hvalid.identifier, isReservedExchangeName_eq_false.1 hvalid.unreserved, ?_, ?_⟩
    · rintro fields (h | h)
      · cases h
        exact hvalid.request
      · cases h
        exact hvalid.response
    · intro bytes hbytes
      obtain ⟨b, rfl, hb⟩ := hvalid.byte bytes hbytes
      exact ⟨b, rfl, free_iff.1 hb⟩
  · intro h
    obtain ⟨request, hrequest⟩ := h.request
    obtain ⟨response, hresponse⟩ := h.response
    refine ⟨⟨e.name, e.identifier, request, response⟩, toExchange?_eq_some.2 ⟨rfl, rfl, hrequest, hresponse⟩,
      h.identifier, isReservedExchangeName_eq_false.2 h.unreserved, h.fields _ (.inl hrequest),
      h.fields _ (.inr hresponse), ?_⟩
    intro bytes hbytes
    obtain ⟨b, rfl, hb⟩ := h.byte bytes hbytes
    exact ⟨b, rfl, free_iff.2 hb⟩

theorem pairwise_apart_iff {es : List ExchangeDeclaration} :
    es.Pairwise Apart ↔
      (es.map fun e => snakeCase e.name).Nodup ∧ (es.filterMap (·.identifier)).Nodup := by
  rw [List.Nodup, List.pairwise_map, List.Nodup, List.pairwise_filterMap, ← List.pairwise_and_iff]
  constructor
  · refine fun h => h.imp ?_
    intro a b hab
    refine ⟨hab.1, ?_⟩
    rintro x ha y hb rfl
    exact hab.2 x hb ha
  · refine fun h => h.imp ?_
    intro a b hab
    exact ⟨hab.1, fun bytes hb ha => hab.2 bytes ha bytes hb rfl⟩

/-- Complete declarations are those of the exchanges that they declare. -/
theorem filterMap_toExchange?_eq {es : List ExchangeDeclaration} (hes : ∀ e ∈ es, e.Valid) {xs : List Exchange} :
    xs = es.filterMap (·.toExchange?) ↔ es = xs.map Exchange.declaration := by
  constructor
  · rintro rfl
    induction es with
    | nil => rfl
    | cons e rest ih =>
        obtain ⟨x, hx, _⟩ := hes e List.mem_cons_self
        rw [List.filterMap_cons_some hx, List.map_cons, ← toExchange?_eq_some_iff.1 hx,
          ← ih fun e he => hes e (List.mem_cons_of_mem _ he)]
  · rintro rfl
    have hdeclared : (fun x : Exchange => x.declaration.toExchange?) = some :=
      funext fun x => toExchange?_eq_some_iff.2 rfl
    rw [List.filterMap_map, Function.comp_def, hdeclared, List.filterMap_some]

end ExchangeDeclaration

/-! ## The type mapping -/

theorem FieldType.mem_all (type : FieldType) : type ∈ FieldType.all := by
  cases type <;> simp [FieldType.all]

namespace TypeMapping

theorem mem_toList {mapping : TypeMapping} {type : FieldType} {name : String} :
    (type, name) ∈ mapping.toList ↔ mapping.get? type = some name := by
  simp only [toList, List.mem_filterMap, Option.map_eq_some_iff, Prod.mk.injEq]
  constructor
  · rintro ⟨_, _, _, hget, rfl, rfl⟩
    exact hget
  · intro hget
    exact ⟨type, type.mem_all, name, hget, rfl, rfl⟩

theorem missing_all (mapping : TypeMapping) :
    mapping.missing FieldType.all = FieldType.all.filter fun type => (mapping.get? type).isNone := by
  obtain ⟨float, integer, text, nothing⟩ := mapping
  cases float <;> cases integer <;> cases text <;> cases nothing <;> rfl

theorem violations_eq_nil {mapping : TypeMapping} {es : List ExchangeDeclaration} :
    mapping.violations es = [] ↔ ∀ type, ∃ name, mapping.get? type = some name ∧ isBlankText name = false := by
  simp only [violations, List.append_eq_nil_iff, unless_eq_nil, List.filterMap_eq_nil_iff,
    List.flatMap_eq_nil_iff, ExchangeDeclaration.unmappedViolations, missing_all, List.isEmpty_iff,
    List.filter_eq_nil_iff]
  constructor
  · rintro ⟨⟨hall, hblank⟩, _⟩ type
    obtain ⟨name, hname⟩ := Option.ne_none_iff_exists'.1 (mt Option.isNone_iff_eq_none.2 (hall type type.mem_all))
    refine ⟨name, hname, ?_⟩
    simpa using hblank (type, name) (mem_toList.2 hname)
  · intro h
    refine ⟨⟨fun type _ => ?_, ?_⟩, fun e _ field _ => ?_⟩
    · obtain ⟨name, hname, _⟩ := h type
      simp [hname]
    · rintro ⟨type, name⟩ hentry
      obtain ⟨other, hother, hfilled⟩ := h type
      cases (mem_toList.1 hentry).symm.trans hother
      simp [hfilled]
    · obtain ⟨name, hname, _⟩ := h field.type
      simp [hname]

end TypeMapping

/-! ## Declarations -/

namespace ContractDeclaration

theorem violations_eq_nil {d : ContractDeclaration} : d.violations = [] ↔ d.WellFormed := by
  have hencoding : d.completeEncoding.isSelectable = true ↔ d.encoding = none ∨ d.encoding = some .text := by
    cases hd : d.encoding with
    | none => simp [completeEncoding, hd, Encoding.standard, Encoding.isSelectable]
    | some encoding => cases encoding <;> simp [completeEncoding, hd, Encoding.isSelectable]
  have hbaud : d.completeChannel.baudRate ∈ standardBaudRates ↔
      ∀ channel, d.channel = some channel → channel.baudRate ∈ standardBaudRates := by
    cases hd : d.channel with
    | none =>
        simp only [completeChannel, hd, Option.getD_none, reduceCtorEq, false_implies, implies_true, iff_true]
        exact BaudRate.usual.standard
    | some channel => simp [completeChannel, hd]
  simp only [violations, List.append_eq_nil_iff, exchangeViolations_eq_nil, TypeMapping.violations_eq_nil,
    unless_eq_nil, hencoding, hbaud, ExchangeDeclaration.pairwise_apart_iff,
    ExchangeDeclaration.valid_iff_wellFormed]
  constructor
  · rintro ⟨⟨⟨⟨hes, ⟨hnames, hidentifiers⟩, _⟩, hmapping⟩, hencoding⟩, hbaud⟩
    exact ⟨hes, hnames, hidentifiers, hmapping, hencoding, hbaud⟩
  · intro h
    exact ⟨⟨⟨⟨h.exchanges, ⟨h.names, h.identifiers⟩, by simp⟩, h.typeNames⟩, h.encoding⟩, h.baudRate⟩

/-- A declaration without breaches is loaded, and what is loaded has its sections. -/
theorem load_eq_ok_iff {d : ContractDeclaration} {c : Contract} :
    d.load = .ok c ↔ d.violations = [] ∧ c.exchanges = d.exchanges.filterMap (·.toExchange?) ∧
      c.encoding = d.completeEncoding ∧ c.channel.baudRate.value = d.completeChannel.baudRate ∧
      c.channel.identifier = d.completeChannel.identifier ∧ c.typeMapping = d.completeTypeMapping := by
  obtain ⟨exchanges, encoding, ⟨⟨rate, hrate⟩, identifier⟩, mapping⟩ := c
  cases hd : d.violations with
  | cons first rest => simp [load, hd]
  | nil =>
      have hstandard : d.completeChannel.baudRate ∈ standardBaudRates := by
        simp only [violations, List.append_eq_nil_iff, unless_eq_nil] at hd
        exact hd.2
      have hnumber : BaudRate.ofNumber? d.completeChannel.baudRate =
          some ⟨d.completeChannel.baudRate, hstandard⟩ := dif_pos hstandard
      simp only [load, hd, hnumber, Except.ok.injEq, Contract.mk.injEq, Channel.mk.injEq, BaudRate.mk.injEq,
        true_and, eq_comm, and_assoc]

theorem exists_load_of_violations_eq_nil {d : ContractDeclaration} (h : d.violations = []) :
    ∃ c, d.load = .ok c := by
  have hstandard : d.completeChannel.baudRate ∈ standardBaudRates := by
    simp only [violations, List.append_eq_nil_iff, unless_eq_nil] at h
    exact h.2
  exact ⟨⟨_, _, ⟨⟨_, hstandard⟩, _⟩, _⟩, load_eq_ok_iff.2 ⟨h, rfl, rfl, rfl, rfl, rfl⟩⟩

theorem completes_iff {d : ContractDeclaration} (hd : d.WellFormed) {c : Contract} :
    c.Completes d ↔ c.exchanges = d.exchanges.filterMap (·.toExchange?) ∧
      c.encoding = d.completeEncoding ∧ c.channel.baudRate.value = d.completeChannel.baudRate ∧
      c.channel.identifier = d.completeChannel.identifier ∧ c.typeMapping = d.completeTypeMapping := by
  have hvalid : ∀ e ∈ d.exchanges, e.Valid := fun e he =>
    ExchangeDeclaration.valid_iff_wellFormed.2 (hd.exchanges e he)
  have hchannel : (d.channel.map (·.baudRate)).getD 9600 = d.completeChannel.baudRate ∧
      (d.channel.map (·.identifier)).getD "" = d.completeChannel.identifier := by
    cases hc : d.channel <;> simp [completeChannel, hc, ChannelDeclaration.standard, BaudRate.usual]
  rw [ExchangeDeclaration.filterMap_toExchange?_eq hvalid, ← hchannel.1, ← hchannel.2]
  exact ⟨fun h => ⟨h.exchanges, h.encoding, h.baudRate, h.identifier, h.typeMapping⟩,
    fun ⟨hes, hencoding, hbaud, hid, hmapping⟩ => ⟨hes, hencoding, hbaud, hid, hmapping⟩⟩

/-- A declaration is accepted exactly if it is well formed, and a contract is what it declares exactly if it
has the exchanges that are declared and each section as declared or as usual. -/
theorem load_iff_wellFormed (d : ContractDeclaration) :
    ((∃ c, d.load = .ok c) ↔ d.WellFormed) ∧ ∀ c, d.load = .ok c ↔ d.WellFormed ∧ c.Completes d := by
  constructor
  · rw [← violations_eq_nil]
    exact ⟨fun ⟨_, hload⟩ => (load_eq_ok hload).1, exists_load_of_violations_eq_nil⟩
  · intro c
    rw [load_eq_ok_iff, violations_eq_nil]
    exact and_congr_right fun hd => (completes_iff hd).symm

end ContractDeclaration

end SerialContract
