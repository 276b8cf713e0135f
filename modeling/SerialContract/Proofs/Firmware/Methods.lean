import SerialContract.Proofs.Contract.CamelCase
import SerialContract.Proofs.Firmware.Bundle

/-!
# The methods of the firmware

For every exchange the firmware declares a handler and a wrapper, branches to the wrapper, defines it and
overrides the handler. All of these stand in the filled templates, and all are named after the exchange.
-/

namespace SerialContract.Firmware

variable {c : Contract} {handlers : List Handler} {filled : String}

/-! ## Where the methods stand -/

/-- What replaces a placeholder in a line of a template stands in the filled template. -/
theorem infix_of_line (text name : String) {texts : List String} {value : String}
    (hfilled : Template.populate (lines texts) (replacements c handlers) = .ok filled) (htext : text ∈ texts)
    (hname : .placeholder name.toList ∈ Template.parts text)
    (hvalue : (replacements c handlers).get? name = some value) : value.toList <:+: filled.toList :=
  Template.infix_of_populate hfilled (Template.mem_parts_lines htext hname) hvalue

/-- What replaces the placeholders for the methods. -/
def methodTexts (handlers : List Handler) : List (String × String) := [
  ("virtual_declarations", String.join (handlers.map Handler.declaration)),
  ("wrapper_declarations", String.join (handlers.map Handler.wrapperDeclaration)),
  ("respond_invocations", String.join (handlers.map Handler.branch)),
  ("wrapper_implementations", String.join (handlers.map Handler.wrapper)),
  ("handler_stubs", "\n".intercalate (handlers.map Handler.stub))]

theorem get?_methodTexts {name text : String} (h : (name, text) ∈ methodTexts handlers) :
    (replacements c handlers).get? name = some text := by
  refine NameMap.get?_ofList_of_mem placeholders_nodup (List.mem_append_left _ ?_)
  simp only [methodTexts, List.mem_cons, List.not_mem_nil, or_false] at h ⊢
  tauto

section Header

variable (h : Template.populate Skeleton.clientHeader (replacements c handlers) = .ok filled)

include h

theorem infix_declarations : (String.join (handlers.map Handler.declaration)).toList <:+: filled.toList :=
  infix_of_line "\x7b\x7bvirtual_declarations\x7d\x7d\x7b\x7bwrapper_declarations\x7d\x7d" "virtual_declarations" h
    (by decide) (by decide) (get?_methodTexts (by simp [methodTexts]))

theorem infix_wrapperDeclarations :
    (String.join (handlers.map Handler.wrapperDeclaration)).toList <:+: filled.toList :=
  infix_of_line "\x7b\x7bvirtual_declarations\x7d\x7d\x7b\x7bwrapper_declarations\x7d\x7d" "wrapper_declarations" h
    (by decide) (by decide) (get?_methodTexts (by simp [methodTexts]))

end Header

section Source

variable (h : Template.populate Skeleton.clientSource (replacements c handlers) = .ok filled)

include h

theorem infix_branches : (String.join (handlers.map Handler.branch)).toList <:+: filled.toList :=
  infix_of_line "\x7b\x7brespond_invocations\x7d\x7d    \x7d else if (parsed.name == \"\") \x7b" "respond_invocations" h
    (by decide) (by decide) (get?_methodTexts (by simp [methodTexts]))

theorem infix_wrappers : (String.join (handlers.map Handler.wrapper)).toList <:+: filled.toList :=
  infix_of_line "\x7b\x7bwrapper_implementations\x7d\x7d" "wrapper_implementations" h
    (by decide) (by decide) (get?_methodTexts (by simp [methodTexts]))

end Source

theorem infix_stubs (h : Template.populate Skeleton.sketch (replacements c handlers) = .ok filled) :
    ("\n".intercalate (handlers.map Handler.stub)).toList <:+: filled.toList :=
  infix_of_line "\x7b\x7bhandler_stubs\x7d\x7d\x7d;" "handler_stubs" h
    (by decide) (by decide) (get?_methodTexts (by simp [methodTexts]))

/-! ## Names -/

/-- What follows of a handler from its exchange follows of all of them, in the order of the exchanges. -/
theorem map_of_handlers {α : Type} {f : Handler → α} {g : Exchange → α} (h : Firmware.handlers c = .ok handlers)
    (heq : ∀ e handler, Handles c.typeMapping e handler → f handler = g e) : handlers.map f = c.exchanges.map g := by
  have hall := mapM_eq_ok_iff.1 h
  clear h
  generalize c.exchanges = es at hall
  induction hall with
  | nil => rfl
  | cons hok _ ih => rw [List.map_cons, List.map_cons, ih, heq _ _ (handles_of_ofExchange hok)]

theorem names_of_handlers (h : Firmware.handlers c = .ok handlers) :
    handlers.map Handler.name = (c.exchanges.map Exchange.name).map camelCase := by
  rw [List.map_map]
  exact map_of_handlers h fun e handler hh => by rw [Handler.name, hh.exchange]; rfl

theorem wrapperNames_nodup_iff : (handlers.map Handler.wrapperName).Nodup ↔ (handlers.map Handler.name).Nodup := by
  simp only [List.Nodup, List.pairwise_map, Handler.wrapperName, ne_eq, String.append_left_inj]

/-- The names of the handlers are different if and only if the snake cases are, up to what camel case forgets. -/
theorem names_nodup_iff (h : Firmware.handlers c = .ok handlers) :
    (handlers.map Handler.name).Nodup ↔ (c.exchanges.map fun e => tidySnakeCase e.name).Nodup := by
  rw [names_of_handlers h, nodup_camelCase_iff, List.map_map]
  rfl

theorem tidySnakeCases_nodup {d : ContractDeclaration} (hload : d.load = .ok c)
    (htidy : ∀ e ∈ c.exchanges, Tidy e.name) : (c.exchanges.map fun e => tidySnakeCase e.name).Nodup := by
  have hapart := (ContractDeclaration.validExchanges_of_load hload).apart
  rw [List.map_congr_left fun e he => tidy_iff.1 (htidy e he), List.Nodup, List.pairwise_map]
  exact hapart.imp fun hab => hab.1

end SerialContract.Firmware
