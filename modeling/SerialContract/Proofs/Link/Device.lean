import SerialContract.Link.Line
import SerialContract.Proofs.Wire.FrameBuffer

/-!
# Devices

A device collects the bytes that are written to it, and answers every request that is complete with one
reply, which a handler gives. It answers a request once, when its last byte arrives, in whatever pieces
it is written.
-/

namespace SerialContract

/-- What a handler gives: the values of the response, or the report of an error. -/
inductive Reply where
  | values (values : FieldValues)
  | report (text : String)
  deriving DecidableEq

/-- The bytes of a reply to a request of an exchange. -/
def Reply.encode (encoding : Encoding) (e : Exchange) : Reply → Except WireError (List UInt8)
  | .values given => encoding.encode e .response given
  | .report text => encoding.encode .error .response (.ofList [(Exchange.errorField, .text text)])

/-- Answers a request by the name of its exchange and its values, and keeps in mind what it likes. -/
abbrev Handler (μ : Type) := μ → String → FieldValues → Reply × μ

/-- A device with a handler that keeps a `μ` in mind; the calls of the handler are noted. -/
structure Device (μ : Type) where
  encoding : Encoding
  table : ExchangeTable
  incoming : FrameBuffer
  outgoing : List UInt8
  memory : μ
  calls : List (String × FieldValues)

namespace Device

variable {μ : Type} (handler : Handler μ)

/-- A device that knows the built-in exchanges and others, and to which and from which nothing is on
its way. -/
def idle (encoding : Encoding) (exchanges : List Exchange) (memory : μ) (calls : List (String × FieldValues)) :
    Device μ :=
  ⟨encoding, .ofList exchanges, .empty, [], memory, calls⟩

/-- Calls the handler and appends its reply, unless this cannot be written. -/
def call (d : Device μ) (e : Exchange) (values : FieldValues) : Option (Device μ) :=
  let (reply, memory) := handler d.memory e.name values
  match reply.encode d.encoding e with
  | .ok bytes =>
    some { d with outgoing := d.outgoing ++ bytes, memory, calls := d.calls ++ [(e.name, values)] }
  | .error _ => none

def answer (d : Device μ) (frame : List UInt8) : Option (Device μ) :=
  match d.encoding.decode d.table frame with
  | .error _ => none
  | .ok message =>
    if message.isRequest then
      match d.table.named? message.exchangeName with
      | some e => d.call handler e message.values
      | none => none
    else none

/-- Answers all frames that have arrived. -/
def serve (d : Device μ) : Option (Device μ) :=
  match _h : d.incoming.next d.encoding with
  | (.error _, _) => none
  | (.ok none, _) => some d
  | (.ok (some frame), left) =>
    match d.answer handler frame with
    | none => none
    | some after => serve { after with incoming := left }
termination_by d.incoming.bytes.length
decreasing_by exact FrameBuffer.length_lt_of_next _h

/-- Takes bytes, and answers what is complete. -/
def write (d : Device μ) (bytes : List UInt8) : Option (Device μ) :=
  serve handler { d with incoming := d.incoming.push bytes }

/-! ## Serving -/

variable {handler} {d : Device μ}

theorem serve_of_wait (h : d.incoming.next d.encoding = (.ok none, d.incoming)) : d.serve handler = some d := by
  rw [serve]
  split
  · next hnext => cases h.symm.trans hnext
  · rfl
  · next hnext => cases h.symm.trans hnext

theorem serve_of_frame {frame : List UInt8} {left : FrameBuffer}
    (h : d.incoming.next d.encoding = (.ok (some frame), left)) {after : Device μ}
    (ha : d.answer handler frame = some after) :
    d.serve handler = serve handler { after with incoming := left } := by
  rw [serve]
  split
  · next hnext => cases h.symm.trans hnext
  · next hnext => cases h.symm.trans hnext
  · next hnext =>
    cases h.symm.trans hnext
    simp only [ha]

section Request

variable {es : List Exchange} {e : Exchange} {values : FieldValues} {frame : List UInt8}

theorem call_eq {reply : List UInt8} (h : (handler d.memory e.name values).1.encode d.encoding e = .ok reply) :
    d.call handler e values = some { d with
      outgoing := d.outgoing ++ reply
      memory := (handler d.memory e.name values).2
      calls := d.calls ++ [(e.name, values)] } := by
  simp only [call, h]

theorem answer_request (hes : ValidExchanges es) (he : e ∈ (ExchangeTable.ofList es).exchanges)
    (htable : d.table = .ofList es) (h : d.encoding.encode e .request values = .ok frame) :
    d.answer handler frame = d.call handler e values := by
  simp only [answer, htable, Encoding.decode_of_encode hes he h, Message.isRequest_of_messageName,
    Message.exchangeName_of_messageName, ExchangeTable.named?_of_mem hes he, decide_true, ↓reduceIte]

/-! ## Writing in pieces -/

theorem write_nothing (h : d.incoming.bytes = []) : d.write handler [] = some d := by
  have hpush : d.incoming.push [] = d.incoming := by simp [FrameBuffer.push]
  rw [write, hpush]
  exact serve_of_wait (FrameBuffer.next_of_nil h)

theorem foldlM_write_nothing (h : d.incoming.bytes = []) {pieces : List (List UInt8)}
    (hp : pieces.flatten = []) : pieces.foldlM (write handler) d = some d := by
  induction pieces with
  | nil => rfl
  | cons piece rest ih =>
      rw [List.flatten_cons, List.append_eq_nil_iff] at hp
      rw [List.foldlM_cons, hp.1, write_nothing h]
      exact ih hp.2

variable (handler d e values) in
/-- The device once it has answered a request with a reply. -/
def answered (reply : List UInt8) : Device μ :=
  { d with
    incoming := d.incoming.clear
    outgoing := d.outgoing ++ reply
    memory := (handler d.memory e.name values).2
    calls := d.calls ++ [(e.name, values)] }

theorem write_part (hdelimits : d.encoding.Delimits frame) (hlimit : frame.length ≤ d.incoming.limit)
    {piece : List UInt8} (hp : d.incoming.bytes ++ piece <+: frame)
    (hshort : (d.incoming.bytes ++ piece).length < frame.length) :
    d.write handler piece = some { d with incoming := d.incoming.push piece } :=
  serve_of_wait (FrameBuffer.next_of_part hdelimits hlimit hp hshort)

theorem write_rest (hes : ValidExchanges es) (he : e ∈ (ExchangeTable.ofList es).exchanges)
    (htable : d.table = .ofList es) (h : d.encoding.encode e .request values = .ok frame)
    (hlimit : frame.length ≤ d.incoming.limit) {reply : List UInt8}
    (hreply : (handler d.memory e.name values).1.encode d.encoding e = .ok reply)
    {piece : List UInt8} (hp : d.incoming.bytes ++ piece = frame) :
    d.write handler piece = some (d.answered handler e values reply) := by
  have hdelimits := Encoding.delimits_of_encode hes he h
  have hnext : (d.incoming.push piece).next d.encoding =
      (.ok (some frame), { d.incoming.push piece with bytes := [] }) :=
    FrameBuffer.next_of_whole (b := d.incoming.push piece) hdelimits hlimit (hp.trans (List.append_nil frame).symm)
  rw [write, serve_of_frame hnext
    ((answer_request (d := { d with incoming := d.incoming.push piece }) hes he htable h).trans
      (call_eq (d := { d with incoming := d.incoming.push piece }) hreply))]
  exact serve_of_wait (FrameBuffer.next_of_nil rfl)

/-- A request, the first part of which has arrived, is answered once when the pieces of the rest are
written. -/
theorem foldlM_write_request (hes : ValidExchanges es) (he : e ∈ (ExchangeTable.ofList es).exchanges)
    (htable : d.table = .ofList es) (h : d.encoding.encode e .request values = .ok frame)
    (hlimit : frame.length ≤ d.incoming.limit) {reply : List UInt8}
    (hreply : (handler d.memory e.name values).1.encode d.encoding e = .ok reply)
    {pieces : List (List UInt8)} (hp : d.incoming.bytes ++ pieces.flatten = frame)
    (hshort : d.incoming.bytes.length < frame.length) :
    pieces.foldlM (write handler) d = some (d.answered handler e values reply) := by
  induction pieces generalizing d with
  | nil =>
      rw [List.flatten_nil, List.append_nil] at hp
      rw [hp] at hshort
      exact absurd hshort (Nat.lt_irrefl _)
  | cons piece rest ih =>
      rw [List.flatten_cons, ← List.append_assoc] at hp
      rw [List.foldlM_cons]
      by_cases hpart : (d.incoming.bytes ++ piece).length < frame.length
      · have hdelimits := Encoding.delimits_of_encode hes he h
        rw [write_part hdelimits hlimit ⟨_, hp⟩ hpart]
        exact ih (d := { d with incoming := d.incoming.push piece }) htable h hlimit hreply hp hpart
      · -- the last byte has arrived, so that nothing stands in the other pieces
        have hlength := congrArg List.length hp
        rw [List.length_append] at hlength
        have hrest : rest.flatten = [] := List.eq_nil_of_length_eq_zero (by omega)
        rw [hrest, List.append_nil] at hp
        rw [write_rest hes he htable h hlimit hreply hp]
        exact foldlM_write_nothing rfl hrest

/-- A device that was idle owes the reply to a request, in whatever pieces this was written. -/
theorem foldlM_write_idle (hes : ValidExchanges es) (he : e ∈ (ExchangeTable.ofList es).exchanges)
    {encoding : Encoding} (h : encoding.encode e .request values = .ok frame)
    (hlimit : frame.length ≤ FrameBuffer.maxFrame) {memory : μ} {reply : List UInt8}
    (hreply : (handler memory e.name values).1.encode encoding e = .ok reply)
    {pieces : List (List UInt8)} (hp : pieces.flatten = frame) (calls : List (String × FieldValues)) :
    pieces.foldlM (write handler) (idle encoding es memory calls) =
      some ⟨encoding, .ofList es, .empty, reply, (handler memory e.name values).2,
        calls ++ [(e.name, values)]⟩ := by
  have hpos := List.length_pos_of_ne_nil (Encoding.delimits_of_encode hes he h).nonempty
  exact foldlM_write_request (d := idle encoding es memory calls) hes he rfl h hlimit hreply hp hpos

end Request

end Device

end SerialContract
