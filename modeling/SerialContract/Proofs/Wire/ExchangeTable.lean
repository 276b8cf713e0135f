import Mathlib.Data.List.Pairwise
import SerialContract.Proofs.Wire.Message
import SerialContract.Wire.ExchangeTable

/-!
# Tables of contracts

The table of valid exchanges drops none of them, and finds each by its name and by its identifying byte.
-/

namespace SerialContract

/-! ## Exchanges that are not confused -/

namespace Exchange

theorem Apart.symm {a b : Exchange} (h : a.Apart b) : b.Apart a :=
  ⟨h.1.symm, fun bytes ha hb => h.2 bytes hb ha⟩

instance : Std.Symm Apart := ⟨fun _ _ => Apart.symm⟩

theorem Apart.name_ne {a b : Exchange} (h : a.Apart b) : a.name ≠ b.name :=
  fun heq => h.1 (heq ▸ rfl)

theorem ping_apart {e : Exchange} (h : e.Valid) : ping.Apart e := by
  refine ⟨h.snakeCase_ne (by simp [ping, builtInExchangeNames]), ?_⟩
  rintro bytes hbytes hping
  obtain ⟨b, rfl, _, hb⟩ := h.byte bytes hbytes
  simp only [ping, Option.some.injEq, List.cons.injEq, and_true] at hping
  exact hb hping.symm

theorem error_apart {e : Exchange} (h : e.Valid) : error.Apart e :=
  ⟨h.snakeCase_ne (by simp [error, builtInExchangeNames]), by simp [error]⟩

theorem ping_apart_error : ping.Apart error :=
  ⟨by decide, by simp [error]⟩

theorem validFields_nil : FieldSet.Valid [] :=
  ⟨by simp, by simp, List.nodup_nil⟩

theorem validFields_error : FieldSet.Valid error.response :=
  FieldSet.valid_cons.2 ⟨⟨by decide, by decide, by simp⟩, validFields_nil⟩

theorem apart_builtIn {es : List Exchange} (h : ValidExchanges es) : (ping :: error :: es).Pairwise Apart := by
  refine List.pairwise_cons.2 ⟨?_, List.pairwise_cons.2 ⟨fun e he => error_apart (h.each e he), h.apart⟩⟩
  intro e he
  rcases List.mem_cons.1 he with rfl | he
  · exact ping_apart_error
  · exact ping_apart (h.each e he)

end Exchange

/-! ## Look-ups -/

namespace ExchangeTable

theorem foldl_add (table : ExchangeTable) {es : List Exchange}
    (h : (table.exchanges ++ es).Pairwise Exchange.Apart) : es.foldl add table = ⟨table.exchanges ++ es⟩ := by
  induction es generalizing table with
  | nil => simp
  | cons e rest ih =>
      have hfresh : table.named? e.name = none := by
        rw [named?, List.find?_eq_none]
        intro x hx heq
        exact ((List.pairwise_append.1 h).2.2 x hx e List.mem_cons_self).name_ne (eq_of_beq heq)
      have hadd : table.add e = ⟨table.exchanges ++ [e]⟩ := by simp [add, hfresh]
      rw [List.foldl_cons, hadd, ih _ (by simpa using h)]
      simp

variable {es : List Exchange}

/-- The table holds the built-in exchanges and then all others. -/
theorem ofList_eq (h : ValidExchanges es) : ofList es = ⟨.ping :: .error :: es⟩ :=
  foldl_add builtIn (Exchange.apart_builtIn h)

theorem mem_ofList (h : ValidExchanges es) {e : Exchange} :
    e ∈ (ofList es).exchanges ↔ e = .ping ∨ e = .error ∨ e ∈ es := by
  simp [ofList_eq h]

theorem named?_of_mem (h : ValidExchanges es) {e : Exchange} (he : e ∈ (ofList es).exchanges) :
    (ofList es).named? e.name = some e := by
  have hapart := Exchange.apart_builtIn h
  rw [ofList_eq h] at he ⊢
  refine find?_of_unique he (by simp) fun x hx heq => ?_
  by_contra hne
  exact (hapart.forall hx he hne).name_ne (eq_of_beq heq)

theorem identified?_of_mem (h : ValidExchanges es) {e : Exchange} (he : e ∈ (ofList es).exchanges) {b : UInt8}
    (hb : e.identifier = some [b]) : (ofList es).identified? b = some e := by
  have hapart := Exchange.apart_builtIn h
  rw [ofList_eq h] at he ⊢
  refine find?_of_unique he (by simp [hb]) fun x hx heq => ?_
  by_contra hne
  exact (hapart.forall hx he hne).2 _ hb (eq_of_beq heq)

theorem isIdentifier_of_mem (h : ValidExchanges es) {e : Exchange} (he : e ∈ (ofList es).exchanges) :
    isIdentifier e.name = true := by
  rcases (mem_ofList h).1 he with rfl | rfl | he
  · decide
  · decide
  · exact (h.each e he).identifier

theorem validFields_of_mem (h : ValidExchanges es) {e : Exchange} (he : e ∈ (ofList es).exchanges)
    (direction : Direction) : (e.fields direction).Valid := by
  rcases (mem_ofList h).1 he with rfl | rfl | he
  · cases direction <;> exact Exchange.validFields_nil
  · cases direction with
    | request => exact Exchange.validFields_nil
    | response => exact Exchange.validFields_error
  · exact (h.each e he).fields direction

/-! ## Tables of any exchanges -/

/-- Whatever a table is built of, it holds no other exchanges than those and the built-in ones. -/
theorem mem_of_mem_foldl_add {table : ExchangeTable} {e : Exchange} (h : e ∈ (es.foldl add table).exchanges) :
    e ∈ table.exchanges ∨ e ∈ es := by
  induction es generalizing table with
  | nil => exact .inl h
  | cons first rest ih =>
      rw [List.foldl_cons] at h
      rcases ih h with h | h
      · rw [add] at h
        split at h
        · exact .inl h
        · rcases List.mem_append.1 h with h | h
          · exact .inl h
          · exact .inr (List.mem_singleton.1 h ▸ List.mem_cons_self)
      · exact .inr (List.mem_cons_of_mem _ h)

theorem mem_of_mem_ofList {e : Exchange} (h : e ∈ (ofList es).exchanges) : e = .ping ∨ e = .error ∨ e ∈ es := by
  rcases mem_of_mem_foldl_add h with h | h
  · simp only [builtIn, List.mem_cons, List.not_mem_nil, or_false] at h
    exact h.imp_right .inl
  · exact .inr (.inr h)

theorem nodup_names_foldl_add {table : ExchangeTable} (h : (table.exchanges.map Exchange.name).Nodup) :
    ((es.foldl add table).exchanges.map Exchange.name).Nodup := by
  induction es generalizing table with
  | nil => exact h
  | cons first rest ih =>
      refine ih ?_
      rw [add]
      split
      · exact h
      · next hfresh =>
        rw [Bool.not_eq_true, Option.isSome_eq_false_iff, Option.isNone_iff_eq_none, named?,
          List.find?_eq_none] at hfresh
        have hapart : first.name ∉ table.exchanges.map Exchange.name := by
          rintro hmem
          obtain ⟨e, he, heq⟩ := List.mem_map.1 hmem
          exact hfresh e he (beq_iff_eq.2 heq)
        simpa [List.nodup_append] using ⟨h, fun e he heq => hapart (heq ▸ List.mem_map_of_mem he)⟩

/-- No two exchanges of a table have one name. -/
theorem eq_of_name_eq {a b : Exchange} (ha : a ∈ (ofList es).exchanges) (hb : b ∈ (ofList es).exchanges)
    (h : a.name = b.name) : a = b :=
  List.inj_on_of_nodup_map (nodup_names_foldl_add (by decide)) ha hb h

theorem mem_of_named? {table : ExchangeTable} {name : String} {e : Exchange} (h : table.named? name = some e) :
    e ∈ table.exchanges ∧ e.name = name :=
  ⟨List.mem_of_find?_eq_some h, by simpa using List.find?_some h⟩

theorem mem_of_identified? {table : ExchangeTable} {byte : UInt8} {e : Exchange}
    (h : table.identified? byte = some e) : e ∈ table.exchanges ∧ e.identifier = some [byte] :=
  ⟨List.mem_of_find?_eq_some h, by simpa using List.find?_some h⟩

end ExchangeTable

end SerialContract
