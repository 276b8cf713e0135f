import Mathlib.Data.List.Infix
import SerialContract.Proofs.Contract.WellFormed

/-!
# What is reported

The rules of a contract in the order in which they are checked, each with the breach that it reports. A
declaration that is not accepted has the breaches of its broken rules reported and no others: what is wrong
with one exchange, or with one part of it, hides nothing that is wrong with another.
-/

namespace SerialContract

/-! ## Rules -/

/-- A breach that is reported if what it says is the case. -/
structure ContractRule where
  breach : Violation
  broken : Prop

/-- The breaches of the broken rules, in the order of the rules. -/
inductive Reported : List ContractRule → List Violation → Prop where
  | nil : Reported [] []
  | broken {rule rules found} : rule.broken → Reported rules found → Reported (rule :: rules) (rule.breach :: found)
  | kept {rule rules found} : ¬ rule.broken → Reported rules found → Reported (rule :: rules) found

/-- The elements of a list, each behind the list of those in front of it. -/
def withEarlier {α : Type} (l : List α) : List (List α × α) := l.inits.zip l

/-- Rules for a field of an exchange behind the fields `earlier` of the same side. -/
def fieldRules (exchange : String) (earlier : List Field) (f : Field) : List ContractRule := [
  ⟨.invalidFieldName exchange f.name, isIdentifier f.name = false⟩,
  ⟨.reservedFieldName exchange f.name, isReservedFieldName f.name = true⟩,
  ⟨.duplicateField exchange f.name, ∃ g ∈ earlier, g.name = f.name⟩]

/-- Rules for the fields of one side of an exchange. -/
def sideRules (exchange : String) (fields : FieldSet) : List ContractRule :=
  (withEarlier fields).flatMap fun (earlier, f) => fieldRules exchange earlier f

namespace ExchangeDeclaration

/-- Rules for the name of an exchange behind the exchanges `earlier`. -/
def nameRules (earlier : List ExchangeDeclaration) (e : ExchangeDeclaration) : List ContractRule := [
  ⟨.invalidExchangeName e.name, isIdentifier e.name = false⟩,
  ⟨.reservedExchangeName e.name, snakeCase e.name ∈ ["ping", "error"] ∨ snakeCase e.name ∈ cppKeywords⟩,
  ⟨.duplicateExchange e.name, ∃ a ∈ earlier, a.name = e.name⟩]

/-- A rule for each earlier exchange: it is the first whose name has the same snake case, and the names
differ. -/
def collisionRules (earlier : List ExchangeDeclaration) (e : ExchangeDeclaration) : List ContractRule :=
  (withEarlier earlier).map fun (before, a) =>
    ⟨.collidingExchangeNames a.name e.name (snakeCase e.name),
      snakeCase a.name = snakeCase e.name ∧ (∀ b ∈ before, snakeCase b.name ≠ snakeCase e.name) ∧
        a.name ≠ e.name⟩

/-- Rules for the identifying bytes of an exchange: one byte without the bit that marks requests, which
neither the ping nor an earlier exchange has. -/
def identifierRules (earlier : List ExchangeDeclaration) (e : ExchangeDeclaration) : List ContractRule :=
  match e.identifier with
  | none => []
  | some [b] => [
    ⟨.invalidIdentifier e.name (.requestBit b), 0x80 ≤ b⟩,
    ⟨.duplicateIdentifier e.name [b], b < 0x80 ∧ (b = 0x00 ∨ ∃ a ∈ earlier, a.identifier = some [b])⟩]
  | some bytes => [⟨.invalidIdentifier e.name (.width bytes.length), True⟩]

/-- Rules for an exchange behind the exchanges `earlier`. -/
def rules (earlier : List ExchangeDeclaration) (e : ExchangeDeclaration) : List ContractRule :=
  e.nameRules earlier ++ e.collisionRules earlier ++ e.identifierRules earlier ++
    sideRules e.name (e.request.getD []) ++ sideRules e.name (e.response.getD []) ++
    [⟨.missingRequest e.name, e.request = none⟩, ⟨.missingResponse e.name, e.response = none⟩]

end ExchangeDeclaration

/-- Rules for a type mapping, and for the fields of exchanges, whether both sides are declared or not. -/
def TypeMapping.rules (mapping : TypeMapping) (es : List ExchangeDeclaration) : List ContractRule :=
  [⟨.typeMappingIncomplete (FieldType.all.filter fun type => (mapping.get? type).isNone),
      ∃ type, mapping.get? type = none⟩] ++
    FieldType.all.map (fun type =>
      ⟨.emptyTypeName type, ∃ name, mapping.get? type = some name ∧ isBlankText name = true⟩) ++
    es.flatMap fun e => (e.request.getD [] ++ e.response.getD []).map fun f =>
      ⟨.unmappedType e.name f.name f.type, mapping.get? f.type = none⟩

/-- The rules for a contract. -/
def ContractDeclaration.rules (d : ContractDeclaration) : List ContractRule :=
  ((withEarlier d.exchanges).flatMap fun (earlier, e) => e.rules earlier) ++
    (d.typeMapping.getD .standard).rules d.exchanges ++
    [⟨.unsupportedEncoding .binary, d.encoding = some .binary⟩] ++
    d.channel.toList.map fun channel =>
      ⟨.unsupportedBaudRate channel.baudRate, channel.baudRate ∉ standardBaudRates⟩

/-! ## Reports -/

theorem withEarlier_cons {α : Type} (a : α) (l : List α) :
    withEarlier (a :: l) = ([], a) :: (withEarlier l).map fun (earlier, b) => (a :: earlier, b) := by
  rw [withEarlier, List.inits_cons, List.zip_cons_cons, withEarlier, List.zip_map_left]
  rfl

namespace Reported

/-- Rules determine what is reported. -/
theorem unique {rules : List ContractRule} {found other : List Violation} (h : Reported rules found)
    (h' : Reported rules other) : found = other := by
  induction h generalizing other with
  | nil => cases h'; rfl
  | broken hbroken _ ih =>
      cases h' with
      | broken _ h' => rw [ih h']
      | kept hkept _ => exact absurd hbroken hkept
  | kept hkept _ ih =>
      cases h' with
      | broken hbroken _ => exact absurd hbroken hkept
      | kept _ h' => exact ih h'

theorem append {rules more : List ContractRule} {found others : List Violation} (h : Reported rules found)
    (h' : Reported more others) : Reported (rules ++ more) (found ++ others) := by
  induction h with
  | nil => exact h'
  | broken hbroken _ ih => exact .broken hbroken ih
  | kept hkept _ ih => exact .kept hkept ih

theorem nil_of_kept {rules : List ContractRule} (h : ∀ rule ∈ rules, ¬ rule.broken) : Reported rules [] := by
  induction rules with
  | nil => exact .nil
  | cons rule rest ih =>
      exact .kept (h rule List.mem_cons_self) (ih fun r hr => h r (List.mem_cons_of_mem _ hr))

theorem of_ite_broken {p q : Prop} [Decidable p] {v : Violation} (h : q ↔ p) :
    Reported [⟨v, q⟩] (if p then [v] else []) := by
  by_cases hp : p
  · rw [if_pos hp]
    exact .broken (h.2 hp) .nil
  · rw [if_neg hp]
    exact .kept (mt h.1 hp) .nil

theorem of_ite_kept {p q : Prop} [Decidable p] {v : Violation} (h : q ↔ ¬ p) :
    Reported [⟨v, q⟩] (if p then [] else [v]) := by
  by_cases hp : p
  · rw [if_pos hp]
    exact .kept (fun hq => h.1 hq hp) .nil
  · rw [if_neg hp]
    exact .broken (h.2 hp) .nil

theorem flatMap {α : Type} {rules : α → List ContractRule} {found : α → List Violation} {l : List α}
    (h : ∀ a ∈ l, Reported (rules a) (found a)) : Reported (l.flatMap rules) (l.flatMap found) := by
  induction l with
  | nil => exact .nil
  | cons a rest ih =>
      exact (h a List.mem_cons_self).append (ih fun b hb => h b (List.mem_cons_of_mem _ hb))

theorem filterMap {α : Type} {rule : α → ContractRule} {found : α → Option Violation} {l : List α}
    (h : ∀ a ∈ l, Reported [rule a] (found a).toList) : Reported (l.map rule) (l.filterMap found) := by
  induction l with
  | nil => exact .nil
  | cons a rest ih =>
      have hrest := ih fun b hb => h b (List.mem_cons_of_mem _ hb)
      have hfirst := (h a List.mem_cons_self).append hrest
      cases hfound : found a with
      | none => simpa [hfound] using hfirst
      | some v => simpa [hfound] using hfirst

/-- What is found in one pass that hands on the elements in front is what rules report that know them. -/
theorem pass {α : Type} {rules : List α → α → List ContractRule} {found : List α → α → List Violation}
    {all : List α → List α → List Violation} (hnil : ∀ earlier, all earlier [] = [])
    (hcons : ∀ earlier a rest, all earlier (a :: rest) = found earlier a ++ all (earlier ++ [a]) rest)
    (h : ∀ earlier a, Reported (rules earlier a) (found earlier a)) (front l : List α) :
    Reported ((withEarlier l).flatMap fun (earlier, a) => rules (front ++ earlier) a) (all front l) := by
  induction l generalizing front with
  | nil =>
      rw [hnil]
      exact .nil
  | cons a rest ih =>
      have hrest := ih (front ++ [a])
      simp only [List.append_assoc, List.singleton_append] at hrest
      rw [hcons, withEarlier_cons]
      simp only [List.flatMap_cons, List.flatMap_map, List.append_nil]
      exact (h front a).append hrest

end Reported

theorem reported_fields (exchange : String) (fields : FieldSet) :
    Reported (sideRules exchange fields) (fieldViolations exchange [] fields) := by
  refine Reported.pass (fun _ => rfl) (fun _ _ _ => rfl) (fun earlier f => ?_) [] fields
  have hname : Reported [⟨.invalidFieldName exchange f.name, isIdentifier f.name = false⟩]
      (if isIdentifier f.name then [] else [.invalidFieldName exchange f.name]) :=
    .of_ite_kept (Bool.not_eq_true _).symm.to_iff
  have hreserved : Reported [⟨.reservedFieldName exchange f.name, isReservedFieldName f.name = true⟩]
      (if isReservedFieldName f.name then [.reservedFieldName exchange f.name] else []) :=
    .of_ite_broken Iff.rfl
  have hduplicate : Reported [⟨.duplicateField exchange f.name, ∃ g ∈ earlier, g.name = f.name⟩]
      (if earlier.any (·.name == f.name) then [.duplicateField exchange f.name] else []) :=
    .of_ite_broken (by simp)
  exact (hname.append hreserved).append hduplicate

namespace ExchangeDeclaration

variable (earlier : List ExchangeDeclaration) (e : ExchangeDeclaration)

theorem reported_collision :
    Reported (e.collisionRules earlier)
      (match earlier.find? (snakeCase ·.name == snakeCase e.name) with
        | some first =>
          if first.name = e.name then [] else [.collidingExchangeNames first.name e.name (snakeCase e.name)]
        | none => []) := by
  induction earlier with
  | nil => exact .nil
  | cons a rest ih =>
      simp only [collisionRules, withEarlier_cons, List.map_cons, List.map_map, Function.comp_def,
        List.forall_mem_cons, List.not_mem_nil, false_implies, implies_true, true_and] at ih ⊢
      by_cases halike : snakeCase a.name = snakeCase e.name
      · -- no exchange behind `a` is the first of its kind
        have hlater : Reported ((withEarlier rest).map fun (before, b) =>
            (⟨.collidingExchangeNames b.name e.name (snakeCase e.name), snakeCase b.name = snakeCase e.name ∧
              (snakeCase a.name ≠ snakeCase e.name ∧ ∀ x ∈ before, snakeCase x.name ≠ snakeCase e.name) ∧
                b.name ≠ e.name⟩ : ContractRule)) [] := by
          refine .nil_of_kept fun rule hrule => ?_
          obtain ⟨_, _, rfl⟩ := List.mem_map.1 hrule
          exact fun hbroken => hbroken.2.1.1 halike
        have hfirst : Reported [⟨.collidingExchangeNames a.name e.name (snakeCase e.name),
              snakeCase a.name = snakeCase e.name ∧ a.name ≠ e.name⟩]
            (if a.name = e.name then [] else [.collidingExchangeNames a.name e.name (snakeCase e.name)]) :=
          .of_ite_kept (by simp [halike])
        simpa [List.find?_cons, halike] using hfirst.append hlater
      · refine .kept (fun hbroken => halike hbroken.1) ?_
        simpa [List.find?_cons, halike] using ih

theorem reported_name :
    Reported (e.nameRules earlier ++ e.collisionRules earlier) (e.nameViolations earlier) := by
  have hidentifier : Reported [⟨.invalidExchangeName e.name, isIdentifier e.name = false⟩]
      (if isIdentifier e.name then [] else [.invalidExchangeName e.name]) :=
    .of_ite_kept (Bool.not_eq_true _).symm.to_iff
  have hreserved : Reported [⟨.reservedExchangeName e.name,
        snakeCase e.name ∈ ["ping", "error"] ∨ snakeCase e.name ∈ cppKeywords⟩]
      (if isReservedExchangeName e.name then [.reservedExchangeName e.name] else []) := by
    refine .of_ite_broken ?_
    rw [← not_iff_not, Bool.not_eq_true, isReservedExchangeName_eq_false, not_or]
  have hduplicate : Reported [⟨.duplicateExchange e.name, ∃ a ∈ earlier, a.name = e.name⟩]
      (if earlier.any (·.name == e.name) then [.duplicateExchange e.name] else []) :=
    .of_ite_broken (by simp)
  exact ((hidentifier.append hreserved).append hduplicate).append (e.reported_collision earlier)

theorem reported_identifier : Reported (e.identifierRules earlier) (e.identifierViolations earlier) := by
  unfold identifierRules identifierViolations
  cases e.identifier with
  | none => exact .nil
  | some bytes =>
      match bytes with
      | [] => exact .broken trivial .nil
      | _ :: _ :: _ => exact .broken trivial .nil
      | [b] =>
          by_cases hmarked : b &&& IdentifierFault.requestMask = 0
          · have hlow := unmarked_iff.1 hmarked
            simp only [IdentifierFault.of?, hmarked, ↓reduceIte]
            refine .kept (UInt8.not_le.2 hlow) (.of_ite_broken ?_)
            simp [isIdentifierTaken, hlow, Exchange.pingIdentifier]
          · have hhigh := mt unmarked_iff.2 hmarked
            simp only [IdentifierFault.of?, hmarked, ↓reduceIte]
            exact .broken (UInt8.not_lt.1 hhigh) (.kept (fun hbroken => hhigh hbroken.1) .nil)

theorem reported_sides :
    Reported [⟨.missingRequest e.name, e.request = none⟩, ⟨.missingResponse e.name, e.response = none⟩]
      e.sideViolations := by
  have hrequest : Reported [⟨.missingRequest e.name, e.request = none⟩]
      (if e.request.isNone then [.missingRequest e.name] else []) :=
    .of_ite_broken Option.isNone_iff_eq_none.symm
  have hresponse : Reported [⟨.missingResponse e.name, e.response = none⟩]
      (if e.response.isNone then [.missingResponse e.name] else []) :=
    .of_ite_broken Option.isNone_iff_eq_none.symm
  exact hrequest.append hresponse

theorem reported : Reported (e.rules earlier) (e.violations earlier) :=
  ((((e.reported_name earlier).append (e.reported_identifier earlier)).append
    (reported_fields e.name (e.request.getD []))).append
      (reported_fields e.name (e.response.getD []))).append e.reported_sides

end ExchangeDeclaration

namespace TypeMapping

variable (mapping : TypeMapping)

theorem reported_missing :
    Reported [⟨.typeMappingIncomplete (FieldType.all.filter fun type => (mapping.get? type).isNone),
        ∃ type, mapping.get? type = none⟩]
      (if (mapping.missing FieldType.all).isEmpty then []
        else [.typeMappingIncomplete (mapping.missing FieldType.all)]) := by
  rw [missing_all]
  refine .of_ite_kept ?_
  rw [List.isEmpty_iff, List.filter_eq_nil_iff, not_forall]
  simp [FieldType.mem_all]

theorem reported_blank :
    Reported (FieldType.all.map fun type =>
        ⟨.emptyTypeName type, ∃ name, mapping.get? type = some name ∧ isBlankText name = true⟩)
      (mapping.toList.filterMap fun (type, name) =>
        if isBlankText name then some (.emptyTypeName type) else none) := by
  rw [toList, List.filterMap_filterMap]
  refine .filterMap fun type _ => ?_
  cases mapping.get? type with
  | none => exact .kept (by simp) .nil
  | some name =>
      by_cases hblank : isBlankText name = true
      · simp only [Option.map_some, Option.bind_some, hblank, ↓reduceIte]
        exact .broken ⟨name, rfl, hblank⟩ .nil
      · simp only [Option.map_some, Option.bind_some, hblank]
        exact .kept (by simp [hblank]) .nil

theorem reported_unmapped (es : List ExchangeDeclaration) :
    Reported (es.flatMap fun e => (e.request.getD [] ++ e.response.getD []).map fun f =>
        ⟨.unmappedType e.name f.name f.type, mapping.get? f.type = none⟩)
      (es.flatMap (·.unmappedViolations mapping)) := by
  refine .flatMap fun e _ => .filterMap fun f _ => ?_
  cases hget : mapping.get? f.type with
  | none => exact .broken rfl .nil
  | some name => exact .kept (by simp) .nil

theorem reported (es : List ExchangeDeclaration) : Reported (mapping.rules es) (mapping.violations es) :=
  (mapping.reported_missing.append mapping.reported_blank).append (mapping.reported_unmapped es)

end TypeMapping

namespace ContractDeclaration

variable (d : ContractDeclaration)

theorem reported_exchanges :
    Reported ((withEarlier d.exchanges).flatMap fun (earlier, e) => e.rules earlier)
      (exchangeViolations [] d.exchanges) :=
  Reported.pass (fun _ => rfl) (fun _ _ _ => rfl) (fun earlier e => e.reported earlier) [] d.exchanges

theorem reported_encoding :
    Reported [⟨.unsupportedEncoding .binary, d.encoding = some .binary⟩]
      (if d.completeEncoding.isSelectable then [] else [.unsupportedEncoding d.completeEncoding]) := by
  cases hd : d.encoding with
  | none =>
      simp only [completeEncoding, hd]
      exact .kept (by simp) .nil
  | some encoding =>
      simp only [completeEncoding, hd]
      cases encoding with
      | text => exact .kept (by simp) .nil
      | binary => exact .broken rfl .nil

theorem reported_baudRate :
    Reported (d.channel.toList.map fun channel =>
        ⟨.unsupportedBaudRate channel.baudRate, channel.baudRate ∉ standardBaudRates⟩)
      (if d.completeChannel.baudRate ∈ standardBaudRates then []
        else [.unsupportedBaudRate d.completeChannel.baudRate]) := by
  cases hd : d.channel with
  | none =>
      have husual : d.completeChannel.baudRate ∈ standardBaudRates := by
        rw [completeChannel, hd]
        exact BaudRate.usual.standard
      rw [if_pos husual]
      exact .nil
  | some channel =>
      simp only [completeChannel, hd, Option.getD_some]
      exact .of_ite_kept Iff.rfl

/-- The breaches found are those of the broken rules. -/
theorem reported : Reported d.rules d.violations :=
  ((d.reported_exchanges.append ((d.typeMapping.getD .standard).reported d.exchanges)).append
    d.reported_encoding).append d.reported_baudRate

theorem load_eq_error {found : List Violation} :
    d.load = .error found ↔ found ≠ [] ∧ d.violations = found := by
  constructor
  · intro h
    have hfound : d.violations = found := by
      unfold load at h
      split at h
      · cases h
      · exact Except.error.inj h
    refine ⟨?_, hfound⟩
    rintro rfl
    obtain ⟨c, hc⟩ := exists_load_of_violations_eq_nil hfound
    cases h.symm.trans hc
  · rintro ⟨hne, rfl⟩
    unfold load
    split
    · next hnil _ => exact absurd hnil hne
    · rfl

/-- A declaration is rejected with a report exactly if the report has a breach and is that of the rules: the
breach of each broken rule, in the order of the rules, and nothing else. -/
theorem load_error_iff_reported (found : List Violation) :
    d.load = .error found ↔ found ≠ [] ∧ Reported d.rules found := by
  rw [load_eq_error]
  refine and_congr_right fun _ => ⟨?_, fun h => d.reported.unique h⟩
  rintro rfl
  exact d.reported

/-- An exchange without a request, called like a built-in one and with the byte of the ping. -/
example : (⟨[⟨"ping", some [0], none, some [⟨"int", .text⟩]⟩], some .binary, none, none⟩ :
      ContractDeclaration).load =
    .error [.reservedExchangeName "ping", .duplicateIdentifier "ping" [0], .reservedFieldName "ping" "int",
      .missingRequest "ping", .unsupportedEncoding .binary] := by
  decide +kernel

end ContractDeclaration

end SerialContract
