import SerialContract.Link.Line
import SerialContract.Link.Response
import SerialContract.Wire.FrameBuffer

/-!
# Sessions

A session is a conversation with one device: a request is sent, and bytes are received until a whole
response has arrived. What arrives behind a response is kept for the next. The bytes of a session end at
the limit of its buffer, so that reading a response always stops.
-/

namespace SerialContract

/-- A conversation with a device, over a line with states in `σ`. -/
structure Session (σ : Type) where
  encoding : Encoding
  table : ExchangeTable
  buffer : FrameBuffer
  state : σ

namespace Session

variable {σ : Type}

/-- A session for the built-in exchanges and others. -/
def start (state : σ) (encoding : Encoding) (exchanges : List Exchange) : Session σ :=
  ⟨encoding, .ofList exchanges, .empty, state⟩

def ofContract (state : σ) (contract : Contract) : Session σ :=
  start state contract.encoding contract.exchanges

/-- The session with another encoding and other exchanges; the line and what has arrived are kept. -/
def withExchanges (s : Session σ) (encoding : Encoding) (exchanges : List Exchange) : Session σ :=
  { s with encoding, table := .ofList exchanges }

def withContract (s : Session σ) (contract : Contract) : Session σ :=
  s.withExchanges contract.encoding contract.exchanges

/-- How many bytes have arrived and are not used yet. -/
def buffered (s : Session σ) : Nat := s.buffer.bytes.length

def describe (s : Session σ) : String :=
  "Client \x7b encoding: " ++ (match s.encoding with | .text => "Text" | .binary => "Binary") ++
    ", exchanges: " ++ decimalText s.table.exchanges.length ++
    ", buffered: " ++ decimalText s.buffered ++ " \x7d"

/-- Receives bytes until the buffer holds a message, and takes it out. -/
def readFrame (line : Line σ) (s : Session σ) : Except LinkError (List UInt8) × Session σ :=
  match _h : s.buffer.next s.encoding with
  | (.ok (some frame), buffer) => (.ok frame, { s with buffer })
  | (.error fault, buffer) => (.error (.response fault), { s with buffer })
  | (.ok none, _) =>
    match line.receive s.state with
    | (.error failure, state) => (.error (.failure failure), { s with state })
    | (.ok [], state) => (.error .closed, { s with state })
    | (.ok (b :: bytes), state) =>
      readFrame line { s with buffer := s.buffer.push (b :: bytes), state }
termination_by s.buffer.limit + 1 - s.buffer.bytes.length
decreasing_by
  have bound := (FrameBuffer.next_eq_none _h).2
  simp only [FrameBuffer.push, List.length_append, List.length_cons]
  omega

/-- What a message means as the answer to a request: the report of an error, another message than
expected, or the response. -/
def judge (expected : String) (message : Message) : Except LinkError Response :=
  if message.exchangeName = Exchange.error.name ∧ !message.isRequest then
    match message.values.get? Exchange.errorField with
    | some (.text report) => .error (.reported report)
    | _ => .error (.reported "")
  else if message.name = expected then .ok message
  else .error (.unexpected expected message.name)

def readResponse (line : Line σ) (expected : String) (s : Session σ) :
    Except LinkError Response × Session σ :=
  match readFrame line s with
  | (.error e, s) => (.error e, s)
  | (.ok frame, s) =>
    match s.encoding.decode s.table frame with
    | .error fault => (.error (.response fault), s)
    | .ok message => (judge expected message, s)

/-- Performs an exchange: sends the request and receives the response. -/
def request (line : Line σ) (name : String) (values : FieldValues) (s : Session σ) :
    Except LinkError Response × Session σ :=
  match s.table.named? name with
  | none => (.error (.unknownExchange name), s)
  | some exchange =>
    match s.encoding.encode exchange .request values with
    | .error fault => (.error (.request fault), s)
    | .ok bytes =>
      match line.send bytes s.state with
      | (.error failure, state) => (.error (.failure failure), { s with state })
      | (.ok (), state) =>
        readResponse line (exchange.messageName .response) { s with state }

def ping (line : Line σ) (s : Session σ) : Except LinkError Unit × Session σ :=
  match request line Exchange.ping.name .empty s with
  | (.ok _, s) => (.ok (), s)
  | (.error e, s) => (.error e, s)

end Session

end SerialContract
