import SerialContract.Proofs.Link.Session
import SerialContract.Proofs.Wire.Resolution

/-!
# Responses of the declared form

A session takes an answer for the response to a request only if it is named after the exchange that was asked
for. As a table holds each name once, the fields that were read are then those that this exchange declares, and
every one of them can be taken out with its own type.
-/

namespace SerialContract

/-! ## Taking values out -/

namespace Response

/-- What is taken out of a field as one of a type. -/
def take (r : Response) (field : String) : FieldType → Except LinkError FieldValue
  | .float => (r.float field).map .float
  | .integer => (r.integer field).map .integer
  | .text => (r.text field).map .text
  | .nothing => (r.nothing field).map fun _ => .nothing

theorem take_of_get? {r : Response} {field : String} {held : FieldValue} (h : r.values.get? field = some held) :
    r.take field held.type = .ok held := by
  cases held <;> simp only [take, float, integer, text, nothing, value, h, FieldValue.type, Except.map]

end Response

/-! ## Answers -/

namespace Session

/-- A response to a request of the exchange: it has the declared fields and no others, and each holds a value
of its type, which can be taken out. -/
structure Answers (e : Exchange) (r : Response) : Prop where
  named : r.name = e.name ++ "Response"
  declared : ∀ name, name ∈ r.values.names ↔ ∃ f ∈ e.response, f.name = name
  typed : ∀ f ∈ e.response, ∃ value, r.values.get? f.name = some value ∧ value.type = f.type ∧
    r.take f.name f.type = .ok value

theorem answers_of_carries {e : Exchange} {r : Response} (h : Message.Carries e .response r)
    (hd : (e.response.map Field.name).Nodup) : Answers e r := by
  refine ⟨h.named, fun name => h.mem_names, fun f hf => ?_⟩
  obtain ⟨value, hvalue, htype⟩ := h.typed hd hf
  exact ⟨value, hvalue, htype, htype ▸ Response.take_of_get? hvalue⟩

section Requests

variable {σ : Type} {line : Line σ} {s : Session σ}

theorem judge_eq_ok {expected : String} {message : Message} {r : Response} (h : judge expected message = .ok r) :
    r = message ∧ message.name = expected ∧ ¬ (message.exchangeName = Exchange.error.name ∧ !message.isRequest) := by
  rw [judge] at h
  split at h
  · split at h <;> cases h
  · next hreport =>
    split at h
    · next hname =>
      cases h
      exact ⟨rfl, hname, hreport⟩
    · cases h

theorem readFrame_table (line : Line σ) (s : Session σ) :
    (readFrame line s).2.encoding = s.encoding ∧ (readFrame line s).2.table = s.table := by
  fun_induction readFrame line s with
  | case1 => exact ⟨rfl, rfl⟩
  | case2 => exact ⟨rfl, rfl⟩
  | case3 => exact ⟨rfl, rfl⟩
  | case4 => exact ⟨rfl, rfl⟩
  | case5 _ _ _ _ _ _ _ ih => exact ih

/-- A response was read from a frame and is the message that was expected, and no report of an error. -/
theorem readResponse_eq_ok {expected : String} {r : Response} (h : (readResponse line expected s).1 = .ok r) :
    ∃ frame, s.encoding.decode s.table frame = .ok r ∧ r.name = expected ∧
      ¬ (r.exchangeName = Exchange.error.name ∧ !r.isRequest) := by
  obtain ⟨hencoding, htable⟩ := readFrame_table line s
  rw [readResponse_eq, hencoding, htable] at h
  obtain ⟨frame, _, h⟩ := bind_eq_ok.1 h
  obtain ⟨message, hdecode, hjudge⟩ := bind_eq_ok.1 h
  obtain ⟨rfl, hname, hreport⟩ := judge_eq_ok hjudge
  exact ⟨frame, mapError_eq_ok.1 hdecode, hname, hreport⟩

theorem request_eq_ok {name : String} {values : FieldValues} {r : Response}
    (h : (request line name values s).1 = .ok r) :
    ∃ e, s.table.named? name = some e ∧ ∃ frame, s.encoding.decode s.table frame = .ok r ∧
      r.name = e.messageName .response ∧ ¬ (r.exchangeName = Exchange.error.name ∧ !r.isRequest) := by
  rw [request] at h
  split at h
  · cases h
  · next e hnamed =>
    split at h
    · cases h
    · split at h
      · cases h
      · next state _ => exact ⟨e, hnamed, readResponse_eq_ok (s := { s with state }) h⟩

/-- Whatever a line carries, and whatever has arrived before: what a request returns is a response of the
exchange that was asked for, and neither a request nor the report of an error. -/
theorem response_well_typed {es : List Exchange} (htable : s.table = .ofList es)
    (hd : ∀ e ∈ es, (e.response.map Field.name).Nodup) {name : String} {values : FieldValues} {r : Response}
    (h : (request line name values s).1 = .ok r) :
    ∃ e, s.table.named? name = some e ∧ r.name = name ++ "Response" ∧ Answers e r ∧ r.isRequest = false ∧
      r.name ≠ "ErrorResponse" := by
  obtain ⟨e, hnamed, frame, hdecode, hname, hreport⟩ := request_eq_ok h
  obtain ⟨asked, rfl⟩ := ExchangeTable.mem_of_named? hnamed
  obtain ⟨read, hread, direction, hcarries⟩ := Encoding.carries_of_decode hdecode
  rw [htable] at asked hread
  -- the name tells the direction and the exchange, and the table holds the name once
  have hsplit := read.splitMessageName_messageName direction
  rw [← hcarries.named, hname, e.splitMessageName_messageName, Option.some.injEq, Prod.mk.injEq] at hsplit
  obtain ⟨hsame, rfl⟩ := hsplit
  obtain rfl := ExchangeTable.eq_of_name_eq asked hread hsame
  have hdistinct : (e.response.map Field.name).Nodup := by
    rcases ExchangeTable.mem_of_mem_ofList asked with rfl | rfl | he
    · exact List.nodup_nil
    · exact List.nodup_singleton _
    · exact hd e he
  have hresponse : r.isRequest = false := r.isRequest_of_name hname
  refine ⟨e, hnamed, hname, answers_of_carries hcarries hdistinct, hresponse, fun herror => hreport ⟨?_, ?_⟩⟩
  · exact r.exchangeName_of_name (e := .error) (d := .response) herror
  · rw [hresponse]
    rfl

end Requests

end Session

/-! ## Two exchanges with one identifying byte -/

namespace Bench

/-- Shares its identifying byte with the measurement, and declares a name twice for its request. -/
def probe : Exchange := ⟨"Probe", measure.identifier, [⟨"depth", .float⟩, ⟨"depth", .integer⟩], []⟩

/-- The answer to a measurement in three pieces, and the first byte of what follows. -/
def answering : Script := ⟨[.ok [6, 0], .ok [2, 2, 0, 0, 0x80], .ok [0x3f, 3, 9]], [.ok 4], none, []⟩

/-- The session in which this measurement is asked for. -/
def clashing : Session Script := .start answering .binary [measure, probe]

def asked : FieldValues := .ofList [("time", .float (.zero .double true)), ("channel", .integer (-2))]

def answered : Response :=
  ⟨"MeasureResponse", .ofList [("voltage", .float (Decimal.toFloat .double false ⟨1, 0⟩)), ("settled", .nothing)]⟩

end Bench

namespace Session

theorem response_well_typed_measure :
    (request Script.line Bench.measure.name Bench.asked Bench.clashing).1 = .ok Bench.answered ∧
      ∃ e, Bench.clashing.table.named? Bench.measure.name = some e ∧ Answers e Bench.answered := by
  have hresponse : (request Script.line Bench.measure.name Bench.asked Bench.clashing).1 = .ok Bench.answered := by
    decide +kernel
  obtain ⟨e, hnamed, _, hanswers, _⟩ := response_well_typed rfl (by decide) hresponse
  exact ⟨hresponse, e, hnamed, hanswers⟩

end Session

end SerialContract
