import SerialContract.Wire.Packet

/-!
# Packets read byte by byte

A reader that walks through a buffer must not take a byte that is not there. Here packets are read by such
steps, each of which has no outcome at all when the bytes run out. No packet gets there, whatever its bytes:
the steps always come to the message or the fault that reading a packet gives.
-/

namespace SerialContract.Packet

/-! ## Steps -/

/-- Steps that take bytes from the front: they end with a value and the bytes left, or refuse the bytes, or have
no outcome because they took bytes that were not there. -/
abbrev Steps := StateT (List UInt8) (ExceptT WireError Option)

def nextByte : Steps UInt8 := fun bytes => ExceptT.mk <|
  match bytes with
  | [] => none
  | byte :: rest => some (.ok (byte, rest))

def nextBytes (count : Nat) : Steps (List UInt8) := fun bytes => ExceptT.mk <|
  if bytes.length < count then none else some (.ok (bytes.take count, bytes.drop count))

/-- The value of a field. Its signifier is taken without a look at how many bytes are left, its bytes only if
they are there. -/
def stepValue (field : Field) : Steps FieldValue := do
  match Signifier.ofType? field.type with
  | none => throw (.unsupportedType field.name field.type)
  | some expected =>
    let first ← nextByte
    match Signifier.ofByte? first with
    | none => throw (.unknownSignifier first)
    | some found =>
      if found ≠ expected then throw (.typeMismatch field.name field.type found.type)
      else if (← get).length < found.width then throw (.truncated field.name)
      else return found.valueOf (← nextBytes found.width)

def stepValues (values : FieldValues) : FieldSet → Steps FieldValues
  | [] => return values
  | field :: rest => do
    if (← get).isEmpty then return values
    else
      let value ← stepValue field
      stepValues (values.insert field.name value) rest

def stepMessage (table : ExchangeTable) : Steps Message := do
  let size := (← get).length
  if size < headerWidth then throw (.frameTooShort headerWidth size)
  else
    let declared := ofLowFirst (← nextBytes lengthWidth)
    if declared ≠ size - headerWidth then throw (.lengthMismatch declared (size - headerWidth))
    else
      let byte ← nextByte
      match table.identified? (unmark byte) with
      | none => throw (.unknownIdentifier (unmark byte))
      | some exchange =>
        let direction := directionOf byte
        let fields := exchange.fields direction
        let values ← stepValues .empty fields
        match Message.complete (exchange.messageName direction) fields values with
        | .error fault => throw fault
        | .ok message =>
          let left ← get
          if left.isEmpty then return message else throw (.trailingBytes left.length)

/-- The outcome of reading a packet step by step, if it has one. -/
def decodeBySteps (table : ExchangeTable) (bytes : List UInt8) : Option (Except WireError Message) :=
  ((stepMessage table).run' bytes).run

/-! ## Outcomes -/

section Outcomes

variable {α β : Type} (bytes : List UInt8)

theorem pure_outcome (a : α) : (pure a : Steps α) bytes = some (.ok (a, bytes)) := rfl

theorem throw_outcome (fault : WireError) : (throw fault : Steps α) bytes = some (.error fault) := rfl

theorem get_bind_outcome (g : List UInt8 → Steps β) : (get >>= g) bytes = g bytes bytes := rfl

theorem nextByte_bind_outcome (byte : UInt8) (g : UInt8 → Steps β) :
    (nextByte >>= g) (byte :: bytes) = g byte bytes := rfl

theorem nextBytes_outcome {count : Nat} (h : ¬ bytes.length < count) :
    nextBytes count bytes = some (.ok (bytes.take count, bytes.drop count)) := by
  simp only [nextBytes, h, ↓reduceIte, ExceptT.mk]

theorem bind_ok_outcome {r : Steps α} {a : α} {left : List UInt8} (h : r bytes = some (.ok (a, left)))
    (g : α → Steps β) : (r >>= g) bytes = g a left := by
  have hbind : (r >>= g) bytes = ExceptT.bind (r bytes) fun p => g p.1 p.2 := rfl
  rw [hbind, h]
  rfl

theorem bind_error_outcome {r : Steps α} {fault : WireError} (h : r bytes = some (.error fault))
    (g : α → Steps β) : (r >>= g) bytes = some (.error fault) := by
  have hbind : (r >>= g) bytes = ExceptT.bind (r bytes) fun p => g p.1 p.2 := rfl
  rw [hbind, h]
  rfl

end Outcomes

theorem stepValue_cons (field : Field) (first : UInt8) (bytes : List UInt8) :
    stepValue field (first :: bytes) = some (readValue field first bytes) := by
  simp only [stepValue, readValue]
  cases Signifier.ofType? field.type with
  | none => rfl
  | some expected =>
      simp only [nextByte_bind_outcome]
      cases Signifier.ofByte? first with
      | none => rfl
      | some found =>
          by_cases hmatch : found = expected
          · simp only [hmatch, ne_eq, not_true_eq_false, ↓reduceIte, get_bind_outcome]
            by_cases hshort : bytes.length < expected.width
            · simp only [hshort, ↓reduceIte, throw_outcome]
            · simp only [hshort, ↓reduceIte, bind_ok_outcome bytes (nextBytes_outcome bytes hshort), pure_outcome]
          · simp only [hmatch, ne_eq, not_false_eq_true, ↓reduceIte, throw_outcome]

/-- Nothing but the look at whether bytes are left keeps the first byte from being taken out of none. -/
example : stepValue ⟨"time", .float⟩ [] = none := rfl

theorem stepValues_outcome (values : FieldValues) (fields : FieldSet) (bytes : List UInt8) :
    stepValues values fields bytes = some (readValues values fields bytes) := by
  induction fields generalizing values bytes with
  | nil => rfl
  | cons field rest ih =>
      cases bytes with
      | nil => rfl
      | cons first bytes =>
          have hvalue := stepValue_cons field first bytes
          simp only [stepValues, readValues, get_bind_outcome, List.isEmpty_cons, Bool.false_eq_true, ↓reduceIte]
          cases hread : readValue field first bytes with
          | error fault =>
              rw [hread] at hvalue
              rw [bind_error_outcome _ hvalue]
              rfl
          | ok read =>
              rw [hread] at hvalue
              rw [bind_ok_outcome _ hvalue]
              exact ih _ _

theorem stepMessage_outcome (table : ExchangeTable) (bytes : List UInt8) :
    stepMessage table bytes = some ((decode table bytes).map fun m => (m, [])) := by
  match bytes with
  | [] => rfl
  | [_] => rfl
  | [_, _] => rfl
  | low :: high :: byte :: payload =>
      have hlong : ¬ (low :: high :: byte :: payload).length < headerWidth := by
        simp [headerWidth, lengthWidth, IdentifierFault.identifierWidth]
      have hlength : nextBytes lengthWidth (low :: high :: byte :: payload) =
        some (.ok ([low, high], byte :: payload)) := rfl
      have hsize : (low :: high :: byte :: payload).length - headerWidth = payload.length := rfl
      simp only [stepMessage, decode, get_bind_outcome, hlong, ↓reduceIte, bind_ok_outcome _ hlength, hsize]
      by_cases hdeclared : ofLowFirst [low, high] = payload.length
      · simp only [hdeclared, ne_eq, not_true_eq_false, ↓reduceIte, nextByte_bind_outcome]
        cases table.identified? (unmark byte) with
        | none => rfl
        | some e =>
            have hvalues := stepValues_outcome .empty (e.fields (directionOf byte)) payload
            simp only []
            cases hread : readValues .empty (e.fields (directionOf byte)) payload with
            | error fault =>
                rw [hread] at hvalues
                rw [bind_error_outcome _ hvalues]
                rfl
            | ok read =>
                obtain ⟨values, left⟩ := read
                rw [hread] at hvalues
                rw [bind_ok_outcome _ hvalues]
                simp only [bind, Except.bind]
                cases Message.complete (e.messageName (directionOf byte)) (e.fields (directionOf byte)) values with
                | error fault => rfl
                | ok m => cases left <;> rfl
      · simp only [hdeclared, ne_eq, not_false_eq_true, ↓reduceIte, throw_outcome]
        rfl

/-- Reading a packet step by step takes no byte beyond the last, and comes to the same message or fault. -/
theorem decodeBySteps_eq (table : ExchangeTable) (bytes : List UInt8) :
    decodeBySteps table bytes = some (decode table bytes) := by
  have hrun : decodeBySteps table bytes =
    (Functor.map Prod.fst (stepMessage table bytes) : ExceptT WireError Option Message) := rfl
  rw [hrun, stepMessage_outcome]
  cases decode table bytes <;> rfl

end SerialContract.Packet
