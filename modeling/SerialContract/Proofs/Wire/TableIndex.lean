import SerialContract.Proofs.Wire.ExchangeTable

/-!
# Tables with an index

To look an exchange up, a table need not be searched: it can keep the place of every exchange by its name, and by the
byte that identifies it. Such an index grows with the table, exchange by exchange, and an exchange may enter the table,
or the table and one half of the index, or nothing. It always leads to what a search from the front would find.
-/

namespace SerialContract

/-- Exchanges with their places, by name and by the byte that identifies them. -/
structure IndexedTable where
  exchanges : List Exchange
  byName : Std.HashMap String Nat
  byByte : Std.HashMap UInt8 Nat

namespace IndexedTable

/-- The places by byte with one more, if the identifier is one byte that has no place yet. -/
def claim (byByte : Std.HashMap UInt8 Nat) (place : Nat) : Option (List UInt8) → Std.HashMap UInt8 Nat
  | some [byte] => byByte.insertIfNew byte place
  | _ => byByte

/-- The table with one more exchange, unless its name is taken. -/
def insert (t : IndexedTable) (e : Exchange) : IndexedTable :=
  if t.byName.contains e.name then t
  else
    { exchanges := t.exchanges ++ [e]
      byName := t.byName.insert e.name t.exchanges.length
      byByte := claim t.byByte t.exchanges.length e.identifier }

def empty : IndexedTable := ⟨[], ∅, ∅⟩

/-- The table of the built-in exchanges and others. -/
def ofList (es : List Exchange) : IndexedTable :=
  (.ping :: .error :: es).foldl insert empty

def named? (t : IndexedTable) (name : String) : Option Exchange :=
  t.byName[name]?.bind fun place => t.exchanges[place]?

def identified? (t : IndexedTable) (byte : UInt8) : Option Exchange :=
  t.byByte[byte]?.bind fun place => t.exchanges[place]?

/-! ## Places -/

/-- Each name and each byte leads to the place of the first exchange that has it. -/
structure Consistent (t : IndexedTable) : Prop where
  byName : ∀ name, t.byName[name]? = t.exchanges.findIdx? (·.name == name)
  byByte : ∀ byte, t.byByte[byte]? = t.exchanges.findIdx? (·.identifier == some [byte])

section Consistent

variable {t : IndexedTable}

theorem consistent_empty : Consistent empty :=
  ⟨fun _ => Std.HashMap.getElem?_empty, fun _ => Std.HashMap.getElem?_empty⟩

/-- A name is taken if an exchange of the table has it. -/
theorem Consistent.contains_iff (h : t.Consistent) (name : String) :
    t.byName.contains name = true ↔ ∃ e ∈ t.exchanges, e.name = name := by
  rw [Std.HashMap.contains_eq_isSome_getElem?, h.byName, List.findIdx?_isSome, List.any_eq_true]
  simp only [beq_iff_eq]

theorem getElem?_claim (byByte : Std.HashMap UInt8 Nat) (place : Nat) (identifier : Option (List UInt8)) (byte : UInt8) :
    (claim byByte place identifier)[byte]? =
      byByte[byte]?.or (if identifier = some [byte] then some place else none) := by
  rw [claim.eq_def]
  split
  · next claimed =>
    rw [Std.HashMap.getElem?_insertIfNew]
    by_cases hbyte : claimed = byte
    · subst hbyte
      cases hheld : byByte[claimed]? <;> simp [Std.HashMap.mem_iff_isSome_getElem?, hheld]
    · cases byByte[byte]? <;> simp [hbyte]
  · next hother =>
    have hne : identifier ≠ some [byte] := hother byte
    rw [if_neg hne, Option.or_none]

theorem Consistent.insert (h : t.Consistent) (e : Exchange) : (t.insert e).Consistent := by
  rw [IndexedTable.insert]
  split
  · exact h
  · next hfresh =>
    refine ⟨fun name => ?_, fun byte => ?_⟩
    · rw [Std.HashMap.getElem?_insert, h.byName, List.findIdx?_append, List.findIdx?_singleton]
      by_cases hname : e.name = name
      · subst hname
        have hnone : t.exchanges.findIdx? (·.name == e.name) = none := by
          rw [h.contains_iff] at hfresh
          rw [List.findIdx?_eq_none_iff]
          intro x hx
          exact beq_eq_false_iff_ne.2 fun heq => hfresh ⟨x, hx, heq⟩
        simp [hnone]
      · simp [hname]
    · rw [getElem?_claim, h.byByte, List.findIdx?_append, List.findIdx?_singleton]
      by_cases hbyte : e.identifier = some [byte] <;> simp [hbyte]

theorem consistent_foldl_insert (h : t.Consistent) (es : List Exchange) : (es.foldl IndexedTable.insert t).Consistent := by
  induction es generalizing t with
  | nil => exact h
  | cons e es ih => exact ih (h.insert e)

theorem consistent_ofList (es : List Exchange) : (ofList es).Consistent :=
  consistent_foldl_insert consistent_empty _

theorem Consistent.named?_eq (h : t.Consistent) (name : String) :
    t.named? name = t.exchanges.find? (·.name == name) := by
  rw [named?, h.byName, List.find?_eq_bind_findIdx?_getElem?]

theorem Consistent.identified?_eq (h : t.Consistent) (byte : UInt8) :
    t.identified? byte = t.exchanges.find? (·.identifier == some [byte]) := by
  rw [identified?, h.byByte, List.find?_eq_bind_findIdx?_getElem?]

theorem Consistent.isSome_named? (h : t.Consistent) (name : String) :
    (t.named? name).isSome = t.byName.contains name := by
  rw [h.named?_eq, Bool.eq_iff_iff, h.contains_iff, List.find?_isSome]
  simp only [beq_iff_eq]

/-- The places that the index holds. -/
def Stored (t : IndexedTable) (place : Nat) : Prop :=
  (∃ name : String, t.byName[name]? = some place) ∨ ∃ byte : UInt8, t.byByte[byte]? = some place

theorem Consistent.lt_length (h : t.Consistent) {place : Nat} (hplace : t.Stored place) :
    place < t.exchanges.length := by
  rcases hplace with ⟨name, hname⟩ | ⟨byte, hbyte⟩
  · rw [h.byName] at hname
    exact (List.findIdx?_eq_some_iff_findIdx_eq.1 hname).1
  · rw [h.byByte] at hbyte
    exact (List.findIdx?_eq_some_iff_findIdx_eq.1 hbyte).1

end Consistent

/-! ## What a table holds -/

/-- Of the exchanges behind others, those whose name does not occur in front of them. -/
def newlyNamed (before : List Exchange) : List Exchange → List Exchange
  | [] => []
  | e :: rest =>
    if before.any (·.name == e.name) then newlyNamed (before ++ [e]) rest
    else e :: newlyNamed (before ++ [e]) rest

/-- A table that knows the names of the exchanges so far takes in those whose name is new. -/
theorem exchanges_foldl_insert {t : IndexedTable} (h : t.Consistent) {before : List Exchange}
    (hnames : ∀ name, (∃ e ∈ t.exchanges, e.name = name) ↔ ∃ e ∈ before, e.name = name) (es : List Exchange) :
    (es.foldl insert t).exchanges = t.exchanges ++ newlyNamed before es := by
  induction es generalizing t before with
  | nil => simp [newlyNamed]
  | cons e es ih =>
      have htaken : t.byName.contains e.name = before.any (·.name == e.name) := by
        rw [Bool.eq_iff_iff, h.contains_iff, hnames, List.any_eq_true]
        simp only [beq_iff_eq]
      rw [List.foldl_cons, newlyNamed]
      have hinsert := h.insert e
      rw [IndexedTable.insert, htaken] at hinsert ⊢
      split
      · next hold =>
        rw [if_pos hold] at hinsert
        refine ih hinsert fun name => ?_
        obtain ⟨x, hx, hsame⟩ := List.any_eq_true.1 hold
        simp only [hnames, List.mem_append, List.mem_singleton]
        constructor
        · rintro ⟨y, hy, rfl⟩
          exact ⟨y, .inl hy, rfl⟩
        · rintro ⟨y, hy | rfl, rfl⟩
          · exact ⟨y, hy, rfl⟩
          · exact ⟨x, hx, eq_of_beq hsame⟩
      · next hnew =>
        rw [if_neg hnew] at hinsert
        rw [ih hinsert, List.append_assoc, List.singleton_append]
        intro name
        simp only [List.mem_append, or_and_right, exists_or, hnames]

theorem exchanges_ofList (es : List Exchange) :
    (ofList es).exchanges = .ping :: .error :: newlyNamed [.ping, .error] es := by
  have hempty : ∀ name, (∃ e ∈ empty.exchanges, e.name = name) ↔
      ∃ e ∈ ([] : List Exchange), e.name = name := fun _ => Iff.rfl
  rw [ofList, exchanges_foldl_insert consistent_empty hempty]
  rfl

/-- A table that is searched instead takes in the same exchanges. -/
theorem foldl_add_eq {t : IndexedTable} (h : t.Consistent) (es : List Exchange) :
    es.foldl ExchangeTable.add ⟨t.exchanges⟩ = ⟨(es.foldl insert t).exchanges⟩ := by
  induction es generalizing t with
  | nil => rfl
  | cons e es ih =>
      have hadd : ExchangeTable.add ⟨t.exchanges⟩ e = ⟨(t.insert e).exchanges⟩ := by
        rw [ExchangeTable.add, ExchangeTable.named?, ← h.named?_eq, h.isSome_named?, insert]
        split <;> rfl
      rw [List.foldl_cons, List.foldl_cons, hadd, ih (h.insert e)]

theorem ofList_eq (es : List Exchange) : ExchangeTable.ofList es = ⟨(ofList es).exchanges⟩ := by
  rw [ofList, ← foldl_add_eq consistent_empty]
  rfl

/-! ## Tables of contracts -/

/-- An exchange is found by its name and, if it has an identifier, by this, which is one byte. -/
def Finds (t : IndexedTable) (e : Exchange) : Prop :=
  t.named? e.name = some e ∧
    ∀ bytes, e.identifier = some bytes → ∃ byte, bytes = [byte] ∧ t.identified? byte = some e

theorem finds_of_mem {es : List Exchange} (h : ValidExchanges es) {e : Exchange} (he : e ∈ es) :
    (ofList es).Finds e := by
  have hmem : e ∈ (ExchangeTable.ofList es).exchanges := (ExchangeTable.mem_ofList h).2 (.inr (.inr he))
  have hconsistent := consistent_ofList es
  have hnamed := ExchangeTable.named?_of_mem h hmem
  rw [ofList_eq, ExchangeTable.named?, ← hconsistent.named?_eq] at hnamed
  refine ⟨hnamed, fun bytes hbytes => ?_⟩
  obtain ⟨byte, rfl, _⟩ := (h.each e he).byte bytes hbytes
  have hidentified := ExchangeTable.identified?_of_mem h hmem hbytes
  rw [ofList_eq, ExchangeTable.identified?, ← hconsistent.identified?_eq] at hidentified
  exact ⟨byte, rfl, hidentified⟩

/-- Whatever exchanges it is given, a table holds the built-in ones and then those whose name is new. A look-up by name
or by byte leads to the first that is held, for the built-in ones to themselves, and no place is behind the end; a
search of the table finds the same. Of the exchanges of a contract all are held and found. -/
theorem index_finds_first (es : List Exchange) :
    (ofList es).exchanges = .ping :: .error :: newlyNamed [.ping, .error] es ∧
      (∀ name, (ofList es).named? name = (ofList es).exchanges.find? (·.name == name)) ∧
      (∀ byte, (ofList es).identified? byte = (ofList es).exchanges.find? (·.identifier == some [byte])) ∧
      ((ofList es).named? Exchange.ping.name = some .ping ∧ (ofList es).named? Exchange.error.name = some .error ∧
        (ofList es).identified? Exchange.pingIdentifier = some .ping) ∧
      (∀ place, (ofList es).Stored place → place < (ofList es).exchanges.length) ∧
      ((ExchangeTable.ofList es).exchanges = (ofList es).exchanges ∧
        (∀ name, (ExchangeTable.ofList es).named? name = (ofList es).named? name) ∧
        ∀ byte, (ExchangeTable.ofList es).identified? byte = (ofList es).identified? byte) ∧
      ∀ (d : ContractDeclaration) (c : Contract), d.load = .ok c → es = c.exchanges →
        (ofList es).exchanges.length = es.length + 2 ∧ ∀ e ∈ es, (ofList es).Finds e := by
  have hconsistent := consistent_ofList es
  have hheld := exchanges_ofList es
  refine ⟨hheld, hconsistent.named?_eq, hconsistent.identified?_eq, ⟨?_, ?_, ?_⟩, fun _ => hconsistent.lt_length,
    ⟨?_, fun name => ?_, fun byte => ?_⟩, ?_⟩
  · rw [hconsistent.named?_eq, hheld]
    rfl
  · rw [hconsistent.named?_eq, hheld]
    rfl
  · rw [hconsistent.identified?_eq, hheld]
    rfl
  · rw [ofList_eq]
  · rw [ofList_eq, hconsistent.named?_eq, ExchangeTable.named?]
  · rw [ofList_eq, hconsistent.identified?_eq, ExchangeTable.identified?]
  · rintro d c hload rfl
    have hvalid := ContractDeclaration.validExchanges_of_load hload
    have hall := ExchangeTable.ofList_eq hvalid
    rw [ofList_eq, ExchangeTable.mk.injEq] at hall
    refine ⟨?_, fun e he => finds_of_mem hvalid he⟩
    rw [hall, List.length_cons, List.length_cons]

end IndexedTable

namespace Bench

/-- A second measurement with a byte of its own, an exchange with that byte, and two that would take the place of the
built-in ping. -/
def contested : List Exchange :=
  [measure, ⟨measure.name, some [9], [], []⟩, ⟨"Probe", some [9], [], []⟩, ⟨Exchange.ping.name, some [4], [], []⟩,
    ⟨"Reset", some [Exchange.pingIdentifier], [], []⟩]

end Bench

namespace IndexedTable

theorem index_finds_first_contested :
    ((ofList Bench.contested).exchanges.map Exchange.name = ["Ping", "Error", "Measure", "Probe", "Reset"] ∧
      (ofList Bench.contested).named? "Measure" = some Bench.measure ∧
      (ofList Bench.contested).identified? 9 = some ⟨"Probe", some [9], [], []⟩ ∧
      (ofList Bench.contested).identified? 4 = none ∧ (ofList Bench.contested).identified? 0 = some .ping) ∧
      Bench.declaration.load = .ok Bench.contract ∧
      (ofList Bench.contract.exchanges).Finds Bench.measure := by
  obtain ⟨hheld, hnamed, hidentified, _⟩ := index_finds_first Bench.contested
  obtain ⟨_, _, _, _, _, _, hcontract⟩ := index_finds_first Bench.contract.exchanges
  refine ⟨⟨?_, ?_, ?_, ?_, ?_⟩, Bench.load_declaration,
    (hcontract _ _ Bench.load_declaration rfl).2 _ List.mem_cons_self⟩
  · rw [hheld]
    decide
  · rw [hnamed, hheld]
    decide
  · rw [hidentified, hheld]
    decide
  · rw [hidentified, hheld]
    decide
  · rw [hidentified, hheld]
    decide

end IndexedTable

end SerialContract
