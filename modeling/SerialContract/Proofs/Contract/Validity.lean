import Mathlib.Control.Monad.Basic
import SerialContract.Contract.Contract

/-!
# What contracts keep to

A declaration that breaks no rule declares exchanges whose names are identifiers and cannot be mistaken
for each other or for those of the built-in exchanges. The checks meet the exchanges one after another
and know those in front; what they find nothing against holds of every two exchanges.
-/

namespace SerialContract

/-! ## Single checks -/

theorem unless_eq_nil {p : Prop} [Decidable p] {v : Violation} : (if p then [] else [v]) = [] ↔ p := by
  split <;> simp_all

theorem when_eq_nil {p : Prop} [Decidable p] {v : Violation} : (if p then [v] else []) = [] ↔ ¬ p := by
  split <;> simp_all

/-! ## Fields -/

/-- Names that generated programs can have, each once. -/
structure FieldSet.Valid (fields : FieldSet) : Prop where
  identifier : ∀ f ∈ fields, isIdentifier f.name = true
  unreserved : ∀ f ∈ fields, isReservedFieldName f.name = false
  distinct : (fields.map Field.name).Nodup

theorem FieldSet.valid_cons {f : Field} {rest : FieldSet} :
    FieldSet.Valid (f :: rest) ↔ (isIdentifier f.name = true ∧ isReservedFieldName f.name = false ∧
      ∀ g ∈ rest, f.name ≠ g.name) ∧ FieldSet.Valid rest := by
  constructor
  · rintro ⟨hi, hu, hd⟩
    rw [List.map_cons, List.nodup_cons] at hd
    refine ⟨⟨hi f List.mem_cons_self, hu f List.mem_cons_self, fun g hg heq => hd.1 ?_⟩,
      fun g hg => hi g (List.mem_cons_of_mem _ hg), fun g hg => hu g (List.mem_cons_of_mem _ hg), hd.2⟩
    exact List.mem_map.2 ⟨g, hg, heq.symm⟩
  · rintro ⟨⟨hi, hu, hd⟩, hrest⟩
    refine ⟨?_, ?_, ?_⟩
    · simpa using ⟨hi, hrest.identifier⟩
    · simpa using ⟨hu, hrest.unreserved⟩
    · rw [List.map_cons, List.nodup_cons]
      refine ⟨fun hmem => ?_, hrest.distinct⟩
      obtain ⟨g, hg, heq⟩ := List.mem_map.1 hmem
      exact hd g hg heq.symm

/-- Nothing is found against fields exactly if they are valid and none has the name of an earlier one. -/
theorem fieldViolations_eq_nil {exchange : String} {earlier fields : FieldSet} :
    fieldViolations exchange earlier fields = [] ↔
      fields.Valid ∧ ∀ f ∈ fields, ∀ g ∈ earlier, g.name ≠ f.name := by
  induction fields generalizing earlier with
  | nil => exact ⟨fun _ => ⟨⟨by simp, by simp, by simp⟩, by simp⟩, fun _ => rfl⟩
  | cons f rest ih =>
      simp only [fieldViolations, List.append_eq_nil_iff, unless_eq_nil, when_eq_nil, ih, List.any_eq_true,
        beq_iff_eq, not_exists, not_and, Bool.not_eq_true, FieldSet.valid_cons, List.forall_mem_cons]
      constructor
      · rintro ⟨⟨⟨hi, hu⟩, hfirst⟩, hrest, hlater⟩
        exact ⟨⟨⟨hi, hu, fun g hg => hlater g hg f (by simp)⟩, hrest⟩, hfirst,
          fun g hg x hx => hlater g hg x (by simp [hx])⟩
      · rintro ⟨⟨⟨hi, hu, hd⟩, hrest⟩, hfirst, hlater⟩
        refine ⟨⟨⟨hi, hu⟩, hfirst⟩, hrest, fun g hg x hx => ?_⟩
        rcases List.mem_append.1 hx with hx | hx
        · exact hlater g hg x hx
        · rw [List.mem_singleton.1 hx]
          exact hd g hg

/-! ## Exchanges -/

namespace Exchange

/-- An exchange that generated programs can have, with at most one identifying byte, which is neither
that of the ping nor marks requests. -/
structure Valid (e : Exchange) : Prop where
  identifier : isIdentifier e.name = true
  unreserved : isReservedExchangeName e.name = false
  request : e.request.Valid
  response : e.response.Valid
  byte : ∀ bytes, e.identifier = some bytes →
    ∃ b, bytes = [b] ∧ b &&& IdentifierFault.requestMask = 0 ∧ b ≠ pingIdentifier

theorem Valid.fields {e : Exchange} (h : e.Valid) (direction : Direction) : (e.fields direction).Valid := by
  cases direction with
  | request => exact h.request
  | response => exact h.response

/-- Exchanges that neither their names nor their identifying bytes confuse. -/
def Apart (a b : Exchange) : Prop :=
  snakeCase a.name ≠ snakeCase b.name ∧ ∀ bytes, b.identifier = some bytes → a.identifier ≠ some bytes

theorem Valid.snakeCase_ne {e : Exchange} (h : e.Valid) {name : String} (hn : name ∈ builtInExchangeNames) :
    snakeCase name ≠ snakeCase e.name := by
  intro heq
  have hreserved := h.unreserved
  rw [isReservedExchangeName, Bool.or_eq_false_iff] at hreserved
  have hmem : snakeCase e.name ∈ builtInExchangeNames.map snakeCase := List.mem_map.2 ⟨_, hn, heq⟩
  simp [hmem] at hreserved

end Exchange

namespace ExchangeDeclaration

def Valid (e : ExchangeDeclaration) : Prop := ∃ x, e.toExchange? = some x ∧ x.Valid

def Apart (a b : ExchangeDeclaration) : Prop :=
  snakeCase a.name ≠ snakeCase b.name ∧ ∀ bytes, b.identifier = some bytes → a.identifier ≠ some bytes

theorem toExchange?_eq_some {e : ExchangeDeclaration} {x : Exchange} :
    e.toExchange? = some x ↔
      e.name = x.name ∧ e.identifier = x.identifier ∧ e.request = some x.request ∧
        e.response = some x.response := by
  cases e with
  | mk name identifier request response =>
      cases x
      cases request <;> cases response <;> simp [toExchange?]

theorem nameViolations_eq_nil {earlier : List ExchangeDeclaration} {e : ExchangeDeclaration} :
    e.nameViolations earlier = [] ↔ (isIdentifier e.name = true ∧ isReservedExchangeName e.name = false) ∧
      ∀ a ∈ earlier, snakeCase a.name ≠ snakeCase e.name := by
  simp only [nameViolations, List.append_eq_nil_iff, unless_eq_nil, when_eq_nil, List.any_eq_true,
    beq_iff_eq, not_exists, not_and, Bool.not_eq_true]
  constructor
  · rintro ⟨⟨hown, hdistinct⟩, hcolliding⟩
    refine ⟨hown, fun a ha heq => ?_⟩
    cases hfirst : earlier.find? (snakeCase ·.name == snakeCase e.name) with
    | none => exact absurd heq (by simpa using List.find?_eq_none.1 hfirst a ha)
    | some first =>
        -- the first with the same snake case has another name, so it is reported
        simp only [hfirst, unless_eq_nil] at hcolliding
        exact hdistinct first (List.mem_of_find?_eq_some hfirst) hcolliding
  · rintro ⟨hown, h⟩
    have hnone : earlier.find? (snakeCase ·.name == snakeCase e.name) = none := by
      rw [List.find?_eq_none]
      simpa using h
    rw [hnone]
    exact ⟨⟨hown, fun a ha heq => h a ha (heq ▸ rfl)⟩, rfl⟩

theorem identifierViolations_eq_nil {earlier : List ExchangeDeclaration} {e : ExchangeDeclaration} :
    e.identifierViolations earlier = [] ↔ ∀ bytes, e.identifier = some bytes →
      (∃ b, bytes = [b] ∧ b &&& IdentifierFault.requestMask = 0 ∧ b ≠ Exchange.pingIdentifier) ∧
        ∀ a ∈ earlier, a.identifier ≠ some bytes := by
  unfold identifierViolations
  cases e.identifier with
  | none => simp
  | some bytes =>
      simp only [Option.some.injEq, forall_eq']
      match bytes with
      | [] => simp [IdentifierFault.of?]
      | b :: c :: rest => simp [IdentifierFault.of?]
      | [b] =>
          by_cases hb : b &&& IdentifierFault.requestMask = 0 <;>
            simp [IdentifierFault.of?, hb, isIdentifierTaken]

theorem sideViolations_eq_nil {e : ExchangeDeclaration} :
    e.sideViolations = [] ↔ (∃ request, e.request = some request) ∧ ∃ response, e.response = some response := by
  cases e with
  | mk name identifier request response => cases request <;> cases response <;> simp [sideViolations]

theorem violations_eq_nil {earlier : List ExchangeDeclaration} {e : ExchangeDeclaration} :
    e.violations earlier = [] ↔ e.Valid ∧ ∀ a ∈ earlier, a.Apart e := by
  simp only [violations, List.append_eq_nil_iff, nameViolations_eq_nil, identifierViolations_eq_nil,
    fieldViolations_eq_nil, sideViolations_eq_nil]
  constructor
  · rintro ⟨⟨⟨⟨⟨⟨hi, hu⟩, hname⟩, hbytes⟩, hrequest, _⟩, hresponse, _⟩, ⟨request, hreq⟩, response, hres⟩
    simp only [hreq, hres, Option.getD_some] at hrequest hresponse
    refine ⟨⟨⟨e.name, e.identifier, request, response⟩,
      toExchange?_eq_some.2 ⟨rfl, rfl, hreq, hres⟩, hi, hu, hrequest, hresponse,
      fun bytes h => (hbytes bytes h).1⟩, fun a ha => ⟨hname a ha, fun bytes h => (hbytes bytes h).2 a ha⟩⟩
  · rintro ⟨⟨x, hx, hvalid⟩, hapart⟩
    obtain ⟨hname, hidentifier, hreq, hres⟩ := toExchange?_eq_some.1 hx
    rw [hname, hidentifier, hreq, hres]
    refine ⟨⟨⟨⟨⟨⟨hvalid.identifier, hvalid.unreserved⟩, fun a ha => hname ▸ (hapart a ha).1⟩,
      fun bytes h => ⟨hvalid.byte bytes h, fun a ha => (hapart a ha).2 bytes (hidentifier ▸ h)⟩⟩,
      hvalid.request, by simp⟩, hvalid.response, by simp⟩, ⟨_, rfl⟩, _, rfl⟩

end ExchangeDeclaration

theorem exchangeViolations_eq_nil {earlier es : List ExchangeDeclaration} :
    exchangeViolations earlier es = [] ↔
      (∀ e ∈ es, e.Valid) ∧ es.Pairwise ExchangeDeclaration.Apart ∧ ∀ e ∈ es, ∀ a ∈ earlier, a.Apart e := by
  induction es generalizing earlier with
  | nil => simp [exchangeViolations]
  | cons e rest ih =>
      simp only [exchangeViolations, List.append_eq_nil_iff, ih, ExchangeDeclaration.violations_eq_nil,
        List.forall_mem_cons, List.pairwise_cons]
      constructor
      · rintro ⟨⟨hvalid, hfirst⟩, hrest, hpairs, hlater⟩
        exact ⟨⟨hvalid, hrest⟩, ⟨fun b hb => hlater b hb e (by simp), hpairs⟩, hfirst,
          fun b hb a ha => hlater b hb a (by simp [ha])⟩
      · rintro ⟨⟨hvalid, hrest⟩, ⟨hnext, hpairs⟩, hfirst, hlater⟩
        refine ⟨⟨hvalid, hfirst⟩, hrest, hpairs, fun b hb a ha => ?_⟩
        rcases List.mem_append.1 ha with ha | ha
        · exact hlater b hb a ha
        · rw [List.mem_singleton.1 ha]
          exact hnext b hb

/-! ## Contracts -/

/-- Valid exchanges, of which no two are confused. -/
structure ValidExchanges (es : List Exchange) : Prop where
  each : ∀ e ∈ es, e.Valid
  apart : es.Pairwise Exchange.Apart

theorem ExchangeDeclaration.Apart.toExchange {a b : ExchangeDeclaration} (h : a.Apart b) {x y : Exchange}
    (hx : a.toExchange? = some x) (hy : b.toExchange? = some y) : x.Apart y := by
  obtain ⟨hxname, hxid, _⟩ := toExchange?_eq_some.1 hx
  obtain ⟨hyname, hyid, _⟩ := toExchange?_eq_some.1 hy
  simpa only [ExchangeDeclaration.Apart, Exchange.Apart, hxname, hyname, hxid, hyid] using h

theorem validExchanges_of_exchangeViolations {es : List ExchangeDeclaration}
    (h : exchangeViolations [] es = []) : ValidExchanges (es.filterMap (·.toExchange?)) := by
  obtain ⟨hvalid, hpairs, _⟩ := exchangeViolations_eq_nil.1 h
  constructor
  · intro x hx
    obtain ⟨e, he, hex⟩ := List.mem_filterMap.1 hx
    obtain ⟨y, hy, hyvalid⟩ := hvalid e he
    cases hex.symm.trans hy
    exact hyvalid
  · refine List.pairwise_filterMap.2 (hpairs.imp ?_)
    intro a b hab x hx y hy
    exact hab.toExchange hx hy

namespace ContractDeclaration

theorem load_eq_ok {d : ContractDeclaration} {c : Contract} (h : d.load = .ok c) :
    d.violations = [] ∧ c.exchanges = d.exchanges.filterMap (·.toExchange?) ∧
      c.encoding = d.completeEncoding := by
  simp only [load] at h
  split at h
  · next hnil _ => cases h; exact ⟨hnil, rfl, rfl⟩
  · cases h

/-- The exchanges of a contract are valid, and no two are confused. -/
theorem validExchanges_of_load {d : ContractDeclaration} {c : Contract} (h : d.load = .ok c) :
    ValidExchanges c.exchanges := by
  obtain ⟨hnil, hexchanges, _⟩ := load_eq_ok h
  simp only [violations, List.append_eq_nil_iff] at hnil
  rw [hexchanges]
  exact validExchanges_of_exchangeViolations hnil.1.1.1

end ContractDeclaration

/-! ## A contract to look at -/

namespace Bench

/-- A measurement, which both encodings can carry. -/
def measure : Exchange :=
  ⟨"Measure", some [2], [⟨"time", .float⟩, ⟨"channel", .integer⟩], [⟨"voltage", .float⟩, ⟨"settled", .nothing⟩]⟩

/-- A note for the device's log, which only text can carry. -/
def log : Exchange :=
  ⟨"LogRequest", none, [⟨"urgent", .nothing⟩, ⟨"note", .text⟩], [⟨"length", .integer⟩]⟩

def declaration : ContractDeclaration where
  exchanges := [
    ⟨measure.name, measure.identifier, some measure.request, some measure.response⟩,
    ⟨log.name, log.identifier, some log.request, some log.response⟩]
  encoding := none
  channel := none
  typeMapping := none

def contract : Contract := ⟨[measure, log], .text, ⟨.usual, ""⟩, .standard⟩

theorem load_declaration : declaration.load = .ok contract := by
  decide +kernel

end Bench

end SerialContract
