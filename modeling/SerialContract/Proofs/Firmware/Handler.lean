import SerialContract.Firmware.Handler
import SerialContract.Host.Method
import SerialContract.Proofs.Results

/-!
# Handlers of exchanges

If every type has a name, every exchange has a handler. Its variables are the fields that carry values.
-/

namespace SerialContract.Firmware

variable {mapping : TypeMapping}

theorem exists_variables (h : ∀ type, ∃ name, mapping.get? type = some name) (fields : FieldSet) :
    ∃ vs, Variable.ofFields mapping fields = .ok vs := by
  induction fields with
  | nil => exact ⟨[], rfl⟩
  | cons field rest ih =>
      obtain ⟨vs, hrest⟩ := ih
      obtain ⟨name, hname⟩ := h field.type
      rw [Variable.ofFields, hrest, hname]
      split
      · exact ⟨vs, rfl⟩
      · exact ⟨_, rfl⟩

theorem exists_handler (h : ∀ type, ∃ name, mapping.get? type = some name) (e : Exchange) :
    ∃ handler, Handler.ofExchange mapping e = .ok handler := by
  obtain ⟨parameters, hparameters⟩ := exists_variables h e.request
  obtain ⟨results, hresults⟩ := exists_variables h e.response
  obtain ⟨name, hname⟩ := h .nothing
  rw [Handler.ofExchange, hparameters, hresults]
  match results with
  | [] => exact ⟨⟨e, parameters, [], name⟩, by simp only [bind, Except.bind, hname]⟩
  | [result] => exact ⟨_, rfl⟩
  | _ :: _ :: _ => exact ⟨_, rfl⟩

/-- A variable for a field, of the type that the mapping names. -/
def Holds (mapping : TypeMapping) (f : Field) (v : Variable) : Prop :=
  v.name = f.name ∧ mapping.get? f.type = some v.typeName

theorem holds_of_ofFields {fields : FieldSet} {vs : List Variable} (hvs : Variable.ofFields mapping fields = .ok vs) :
    List.Forall₂ (Holds mapping) (Host.valued fields) vs := by
  induction fields generalizing vs with
  | nil =>
      cases hvs
      exact .nil
  | cons f fields ih =>
      rw [Variable.ofFields] at hvs
      by_cases hf : f.type = .nothing
      · have hvalued : Host.valued (f :: fields) = Host.valued fields := by simp [Host.valued, hf]
        rw [if_pos hf] at hvs
        rw [hvalued]
        exact ih hvs
      · have hvalued : Host.valued (f :: fields) = f :: Host.valued fields := by simp [Host.valued, hf]
        rw [if_neg hf] at hvs
        rw [hvalued]
        cases hname : mapping.get? f.type with
        | none =>
            rw [hname] at hvs
            cases hvs
        | some name =>
            rw [hname] at hvs
            obtain ⟨rest, hrest, rfl⟩ := map_eq_ok.1 hvs
            exact .cons ⟨rfl, hname⟩ (ih hrest)

variable {e : Exchange} {h : Handler}

/-- What is known of the handler of an exchange. -/
structure Handles (mapping : TypeMapping) (e : Exchange) (h : Handler) : Prop where
  exchange : h.exchange = e
  parameters : List.Forall₂ (Holds mapping) (Host.valued e.request) h.parameters
  results : List.Forall₂ (Holds mapping) (Host.valued e.response) h.results
  returnType : h.returnType = e.messageName .response ∨ ∃ type, mapping.get? type = some h.returnType

theorem handles_of_ofExchange (hok : Handler.ofExchange mapping e = .ok h) : Handles mapping e h := by
  obtain ⟨parameters, hparameters, hok⟩ := bind_eq_ok.1 hok
  obtain ⟨results, hresults, hok⟩ := bind_eq_ok.1 hok
  replace hparameters := holds_of_ofFields hparameters
  replace hresults := holds_of_ofFields hresults
  match results with
  | [] =>
      cases hname : mapping.get? .nothing with
      | none =>
          simp only [hname] at hok
          cases hok
      | some name =>
          simp only [hname] at hok
          cases hok
          exact ⟨rfl, hparameters, hresults, .inr ⟨_, hname⟩⟩
  | [result] =>
      cases hok
      obtain ⟨f, _, _, hname⟩ := exists_left_of_forall₂ hresults List.mem_cons_self
      exact ⟨rfl, hparameters, hresults, .inr ⟨_, hname⟩⟩
  | _ :: _ :: _ =>
      cases hok
      exact ⟨rfl, hparameters, hresults, .inl rfl⟩

end SerialContract.Firmware
