import SerialContract.Link.Session
import SerialContract.Proofs.Link.Device

/-!
# Sessions with a device

A session agrees with calling the handler of the device directly: between two requests nothing is left
on the way, in either direction, so every reply is read as the answer to its own request.
-/

namespace SerialContract

/-! ## Lines that carry everything -/

/-- A line to a device: what is sent is written to the device in some pieces, and while something is on
its way back, some front of it is received. -/
structure Line.Carries {σ μ : Type} (line : Line σ) (handler : Handler μ) (device : σ → Device μ) : Prop where
  send : ∀ bytes state, ∃ pieces : List (List UInt8), pieces.flatten = bytes ∧
    ∀ after, pieces.foldlM (Device.write handler) (device state) = some after →
      ∃ next, line.send bytes state = (.ok (), next) ∧ device next = after
  receive : ∀ state, (device state).outgoing ≠ [] → ∃ chunk rest next,
    (device state).outgoing = chunk ++ rest ∧ chunk ≠ [] ∧ chunk.length ≤ Line.chunkSize ∧
      line.receive state = (.ok chunk, next) ∧ device next = { device state with outgoing := rest }

/-- A line that gives some front of the bytes that are on their way, as long as there are any. -/
def Line.Supplies {σ : Type} (line : Line σ) (supply : σ → List UInt8 → Prop) : Prop :=
  ∀ state bytes, supply state bytes → bytes ≠ [] → ∃ chunk rest next,
    line.receive state = (.ok chunk, next) ∧ chunk ≠ [] ∧ bytes = chunk ++ rest ∧ supply next rest

/-! ## Requests without a line -/

/-- What comes of a request: it cannot be sent, or the handler gives a reply. -/
inductive Turn where
  | refused (fault : LinkError)
  | answered (exchange : Exchange) (values : FieldValues) (reply : Reply)
  deriving DecidableEq

namespace Turn

def result : Turn → Except LinkError Response
  | refused fault => .error fault
  | answered e _ (.values given) => .ok ⟨e.messageName .response, given⟩
  | answered _ _ (.report text) => .error (.reported text)

/-- Bytes that can be written and are not too long for a frame. -/
def FrameFits : Except WireError (List UInt8) → Prop
  | .ok frame => frame.length ≤ FrameBuffer.maxFrame
  | .error _ => False

theorem frameFits_iff {written : Except WireError (List UInt8)} :
    FrameFits written ↔ ∃ frame, written = .ok frame ∧ frame.length ≤ FrameBuffer.maxFrame := by
  cases written <;> simp [FrameFits]

instance : DecidablePred FrameFits
  | .ok frame => inferInstanceAs (Decidable (frame.length ≤ FrameBuffer.maxFrame))
  | .error _ => isFalse id

/-- Both the request and the reply have frames that fit. -/
def Fits (encoding : Encoding) : Turn → Prop
  | refused _ => True
  | answered e values reply => FrameFits (encoding.encode e .request values) ∧ FrameFits (reply.encode encoding e)

instance (encoding : Encoding) : DecidablePred (Fits encoding)
  | refused _ => isTrue trivial
  | answered _ _ _ => inferInstanceAs (Decidable (_ ∧ _))

end Turn

section Direct

variable {μ : Type} (handler : Handler μ) (encoding : Encoding) (table : ExchangeTable)

/-- Puts a request to the handler itself, if it can be sent. -/
def turn (memory : μ) (name : String) (values : FieldValues) : Turn × μ :=
  match table.named? name with
  | none => (.refused (.unknownExchange name), memory)
  | some e =>
    match encoding.encode e .request values with
    | .error fault => (.refused (.request fault), memory)
    | .ok _ => (.answered e values (handler memory name values).1, (handler memory name values).2)

def turns (memory : μ) : List (String × FieldValues) → List Turn × μ
  | [] => ([], memory)
  | (name, values) :: rest =>
    let (first, memory) := turn handler encoding table memory name values
    let (others, memory) := turns memory rest
    (first :: others, memory)

/-- Whether a request passes the look-up of its exchange and can be written. -/
def passes (request : String × FieldValues) : Bool :=
  match table.named? request.1 with
  | none => false
  | some e => (encoding.encode e .request request.2).isOk

end Direct

namespace Session

variable {σ : Type}

def requests (line : Line σ) (s : Session σ) :
    List (String × FieldValues) → List (Except LinkError Response) × Session σ
  | [] => ([], s)
  | (name, values) :: rest =>
    let (first, s) := request line name values s
    let (others, s) := requests line s rest
    (first :: others, s)

/-! ## Reading a reply -/

theorem readFrame_of_frame {line : Line σ} {s : Session σ} {frame : List UInt8} {buffer : FrameBuffer}
    (h : s.buffer.next s.encoding = (.ok (some frame), buffer)) :
    readFrame line s = (.ok frame, { s with buffer }) := by
  rw [readFrame]
  split
  · next hnext => cases h.symm.trans hnext; rfl
  · next hnext => cases h.symm.trans hnext
  · next hnext => cases h.symm.trans hnext

theorem readFrame_of_wait {line : Line σ} {s : Session σ}
    (h : s.buffer.next s.encoding = (.ok none, s.buffer)) {chunk : List UInt8} (hc : chunk ≠ []) {state : σ}
    (hr : line.receive s.state = (.ok chunk, state)) :
    readFrame line s = readFrame line { s with buffer := s.buffer.push chunk, state } := by
  rw [readFrame]
  split
  · next hnext => cases h.symm.trans hnext
  · next hnext => cases h.symm.trans hnext
  · cases chunk with
    | nil => exact absurd rfl hc
    | cons b bytes => simp only [hr]

theorem readFrame_of_closed {line : Line σ} {s : Session σ}
    (h : s.buffer.next s.encoding = (.ok none, s.buffer)) {state : σ} (hr : line.receive s.state = (.ok [], state)) :
    readFrame line s = (.error .closed, { s with state }) := by
  rw [readFrame]
  split
  · next hnext => cases h.symm.trans hnext
  · next hnext => cases h.symm.trans hnext
  · simp only [hr]

theorem readFrame_of_failure {line : Line σ} {s : Session σ}
    (h : s.buffer.next s.encoding = (.ok none, s.buffer)) {failure : Failure} {state : σ}
    (hr : line.receive s.state = (.error failure, state)) :
    readFrame line s = (.error (.failure failure), { s with state }) := by
  rw [readFrame]
  split
  · next hnext => cases h.symm.trans hnext
  · next hnext => cases h.symm.trans hnext
  · simp only [hr]

theorem request_of_sent {line : Line σ} {s : Session σ} {name : String} {values : FieldValues} {e : Exchange}
    {frame : List UInt8} {state : σ} (hnamed : s.table.named? name = some e)
    (hencode : s.encoding.encode e .request values = .ok frame)
    (hsent : line.send frame s.state = (.ok (), state)) :
    request line name values s = readResponse line (e.messageName .response) { s with state } := by
  simp only [request, hnamed, hencode, hsent]

theorem readResponse_eq (line : Line σ) (expected : String) (s : Session σ) :
    readResponse line expected s = ((readFrame line s).1.bind fun frame =>
      ((readFrame line s).2.encoding.decode (readFrame line s).2.table frame).mapError .response |>.bind
        (judge expected), (readFrame line s).2) := by
  rw [readResponse]
  split
  · next heq =>
    rw [heq]
    rfl
  · next heq =>
    rw [heq]
    split
    · next hdecode => simp only [Except.bind, hdecode, Except.mapError]
    · next hdecode => simp only [Except.bind, hdecode, Except.mapError]

theorem readResponse_of_frame {line : Line σ} {s after : Session σ} (expected : String) {frame : List UInt8}
    {message : Message} (hread : readFrame line s = (.ok frame, after))
    (hdecode : after.encoding.decode after.table frame = .ok message) :
    readResponse line expected s = (judge expected message, after) := by
  simp only [readResponse, hread, hdecode]

/-- A frame, the first part of which has arrived and the rest of which is on its way, is read, and what is
behind it is left. -/
theorem readFrame_supplied {line : Line σ} {supply : σ → List UInt8 → Prop} (hline : line.Supplies supply)
    {s : Session σ} {frame incoming rest : List UInt8} (hsupply : supply s.state incoming)
    (hdelimits : s.encoding.Delimits frame) (hlimit : frame.length ≤ s.buffer.limit)
    (h : s.buffer.bytes ++ incoming = frame ++ rest) :
    ∃ kept next left, readFrame line s =
        (.ok frame, { s with buffer := { s.buffer with bytes := kept }, state := next }) ∧
      supply next left ∧ kept ++ left = rest := by
  by_cases hshort : s.buffer.bytes.length < frame.length
  · have hempty : incoming ≠ [] := by
      rintro rfl
      have hlength := congrArg List.length h
      rw [List.append_nil, List.length_append] at hlength
      omega
    obtain ⟨chunk, out, next, hreceive, hchunk, hout, hnext⟩ := hline s.state incoming hsupply hempty
    have hpart : s.buffer.bytes <+: frame :=
      List.prefix_of_prefix_length_le ⟨_, h⟩ (List.prefix_append frame rest) (Nat.le_of_lt hshort)
    rw [readFrame_of_wait (FrameBuffer.next_of_part hdelimits hlimit hpart hshort) hchunk hreceive]
    have hrest : (s.buffer.push chunk).bytes ++ out = frame ++ rest := by
      rw [← h, hout]
      simp [FrameBuffer.push]
    exact readFrame_supplied hline (s := { s with buffer := s.buffer.push chunk, state := next }) hnext hdelimits hlimit
      hrest
  · obtain ⟨kept, hkept⟩ : frame <+: s.buffer.bytes :=
      List.prefix_of_prefix_length_le ⟨_, h.symm⟩ (List.prefix_append _ _) (Nat.le_of_not_lt hshort)
    refine ⟨kept, s.state, incoming,
      readFrame_of_frame (FrameBuffer.next_of_whole hdelimits hlimit hkept.symm), hsupply, ?_⟩
    rw [← hkept, List.append_assoc] at h
    exact List.append_cancel_left h
termination_by incoming.length
decreasing_by
  have hpos := List.length_pos_of_ne_nil hchunk
  rw [hout, List.length_append]
  omega

section Carried

variable {μ : Type} {handler : Handler μ} {line : Line σ} {device : σ → Device μ} {es : List Exchange}

theorem readFrame_front (hline : line.Carries handler device) {s : Session σ} {frame rest : List UInt8}
    (hdelimits : s.encoding.Delimits frame) (hlimit : frame.length ≤ s.buffer.limit)
    (h : s.buffer.bytes ++ (device s.state).outgoing = frame ++ rest) :
    ∃ kept next left, readFrame line s =
        (.ok frame, { s with buffer := { s.buffer with bytes := kept }, state := next }) ∧
      device next = { device s.state with outgoing := left } ∧ kept ++ left = rest := by
  have hsupplies : line.Supplies fun state out => device state = { device s.state with outgoing := out } := by
    intro state out hdevice hout
    have houtgoing : (device state).outgoing = out := congrArg Device.outgoing hdevice
    rw [← houtgoing] at hout
    obtain ⟨chunk, behind, next, hfront, hchunk, _, hreceive, hnext⟩ := hline.receive state hout
    refine ⟨chunk, behind, next, hreceive, hchunk, houtgoing ▸ hfront, hnext.trans ?_⟩
    rw [hdevice]
  exact readFrame_supplied hsupplies rfl hdelimits hlimit h

/-- When nothing is behind a frame, nothing is left. -/
theorem readFrame_carried (hline : line.Carries handler device) {s : Session σ} {frame : List UInt8}
    (hdelimits : s.encoding.Delimits frame) (hlimit : frame.length ≤ s.buffer.limit)
    (h : s.buffer.bytes ++ (device s.state).outgoing = frame) :
    ∃ next, readFrame line s = (.ok frame, { s with buffer := s.buffer.clear, state := next }) ∧
      device next = { device s.state with outgoing := [] } := by
  rw [← List.append_nil frame] at h
  obtain ⟨kept, next, left, hread, hnext, hleft⟩ := readFrame_front hline hdelimits hlimit h
  obtain ⟨rfl, rfl⟩ := List.append_eq_nil_iff.1 hleft
  exact ⟨next, hread, hnext⟩

theorem judge_response {e : Exchange} (hne : e.name ≠ Exchange.error.name) (values : FieldValues) :
    judge (e.messageName .response) ⟨e.messageName .response, values⟩ =
      .ok ⟨e.messageName .response, values⟩ := by
  simp only [judge, Message.exchangeName_of_messageName, hne, false_and, ↓reduceIte]

theorem judge_report (expected text : String) :
    judge expected ⟨Exchange.error.messageName .response, .ofList [(Exchange.errorField, .text text)]⟩ =
      .error (.reported text) := by
  have hget : (NameMap.ofList [(Exchange.errorField, FieldValue.text text)]).get? Exchange.errorField =
      some (.text text) := by
    simp [NameMap.ofList, NameMap.get?_insert]
  simp [judge, Message.exchangeName_of_messageName, Message.isRequest_of_messageName, hget]

theorem judge_reply (hes : ValidExchanges es) {e : Exchange} (he : e ∈ (ExchangeTable.ofList es).exchanges)
    (hne : e.name ≠ Exchange.error.name) {encoding : Encoding} {reply : Reply} {frame : List UInt8}
    (h : reply.encode encoding e = .ok frame) (values : FieldValues) :
    encoding.Delimits frame ∧ ∃ message, encoding.decode (.ofList es) frame = .ok message ∧
      judge (e.messageName .response) message = (Turn.answered e values reply).result := by
  cases reply with
  | values given =>
      exact ⟨Encoding.delimits_of_encode hes he h, _, Encoding.decode_of_encode hes he h,
        judge_response hne given⟩
  | report text =>
      have herror : Exchange.error ∈ (ExchangeTable.ofList es).exchanges :=
        (ExchangeTable.mem_ofList hes).2 (.inr (.inl rfl))
      exact ⟨Encoding.delimits_of_encode hes herror h, _, Encoding.decode_of_encode hes herror h,
        judge_report _ text⟩

/-! ## Requests over a line -/

/-- A session between two requests: nothing is on its way, and nothing is kept. -/
structure Idle (device : σ → Device μ) (encoding : Encoding) (es : List Exchange) (memory : μ)
    (calls : List (String × FieldValues)) (s : Session σ) : Prop where
  session : s = .start s.state encoding es
  device : device s.state = .idle encoding es memory calls

/-- A request that can be sent is answered with the reply of one call of the handler. -/
theorem request_answered (hes : ValidExchanges es) (hline : line.Carries handler device)
    {encoding : Encoding} {memory : μ} {calls : List (String × FieldValues)} {state : σ}
    (hdevice : device state = .idle encoding es memory calls) {e : Exchange}
    (hnamed : (ExchangeTable.ofList es).named? e.name = some e) (hne : e.name ≠ Exchange.error.name)
    {values : FieldValues} {frame : List UInt8} (hencode : encoding.encode e .request values = .ok frame)
    (hfits : (Turn.answered e values (handler memory e.name values).1).Fits encoding) :
    ∃ next, request line e.name values (start state encoding es) =
        ((Turn.answered e values (handler memory e.name values).1).result, start next encoding es) ∧
      device next = .idle encoding es (handler memory e.name values).2 (calls ++ [(e.name, values)]) := by
  obtain ⟨he, _⟩ := ExchangeTable.mem_of_named? hnamed
  obtain ⟨_, hframe, hlimit⟩ := Turn.frameFits_iff.1 hfits.1
  obtain ⟨reply, hreply, hreplylimit⟩ := Turn.frameFits_iff.1 hfits.2
  cases hencode.symm.trans hframe
  obtain ⟨hreplyframe, message, hdecode, hjudge⟩ := judge_reply hes he hne hreply values
  -- the request reaches the device in pieces, and the device owes the reply
  obtain ⟨pieces, hpieces, hsend⟩ := hline.send frame state
  have hwrite := Device.foldlM_write_idle hes he hencode hlimit hreply hpieces calls
  rw [← hdevice] at hwrite
  obtain ⟨sent, hsent, hsentdevice⟩ := hsend _ hwrite
  -- the reply comes back in chunks, and nothing is left of it
  obtain ⟨received, hread, hreceived⟩ := readFrame_carried hline (s := start sent encoding es)
    hreplyframe hreplylimit (by simp only [start, hsentdevice]; rfl)
  refine ⟨received, ?_, ?_⟩
  · rw [← hjudge]
    exact (request_of_sent hnamed hencode hsent).trans (readResponse_of_frame _ hread hdecode)
  · rw [hreceived, start, hsentdevice]
    rfl

/-- A request comes to what it comes to without a line, and the session is idle again. -/
theorem request_agrees (hes : ValidExchanges es) (hline : line.Carries handler device) {encoding : Encoding}
    {memory : μ} {calls : List (String × FieldValues)} {s : Session σ}
    (hs : Idle device encoding es memory calls s) {name : String} (hname : name ≠ Exchange.error.name)
    {values : FieldValues} (hfits : (turn handler encoding (.ofList es) memory name values).1.Fits encoding) :
    (request line name values s).1 = (turn handler encoding (.ofList es) memory name values).1.result ∧
      Idle device encoding es (turn handler encoding (.ofList es) memory name values).2
        (calls ++ [(name, values)].filter (passes encoding (.ofList es))) (request line name values s).2 := by
  obtain ⟨state, rfl⟩ : ∃ state, s = .start state encoding es := ⟨_, hs.session⟩
  cases hnamed : (ExchangeTable.ofList es).named? name with
  | none =>
      have hpasses : ¬ passes encoding (.ofList es) (name, values) = true := by simp [passes, hnamed]
      rw [List.filter_cons_of_neg hpasses, List.filter_nil, List.append_nil]
      simp only [request, start, hnamed, turn, Turn.result, true_and]
      exact hs
  | some e =>
      obtain ⟨_, rfl⟩ := ExchangeTable.mem_of_named? hnamed
      cases hencode : encoding.encode e .request values with
      | error fault =>
          have hpasses : ¬ passes encoding (.ofList es) (e.name, values) = true := by
            simp [passes, hnamed, hencode, Except.isOk, Except.toBool]
          rw [List.filter_cons_of_neg hpasses, List.filter_nil, List.append_nil]
          simp only [request, start, hnamed, hencode, turn, Turn.result, true_and]
          exact hs
      | ok frame =>
          have hpasses : passes encoding (.ofList es) (e.name, values) = true := by
            simp [passes, hnamed, hencode, Except.isOk, Except.toBool]
          simp only [turn, hnamed, hencode] at hfits ⊢
          have hdevice : device state = .idle encoding es memory calls := hs.device
          obtain ⟨next, hrequest, hnext⟩ := request_answered hes hline hdevice hnamed hname hencode hfits
          rw [hrequest, List.filter_cons_of_pos hpasses]
          exact ⟨rfl, rfl, hnext⟩

/-- Requests come to what they come to without a line, and every one that can be sent is one call. -/
theorem requests_agree (hes : ValidExchanges es) (hline : line.Carries handler device) {encoding : Encoding}
    {memory : μ} {calls : List (String × FieldValues)} {s : Session σ}
    (hs : Idle device encoding es memory calls s) {rs : List (String × FieldValues)}
    (hnames : ∀ r ∈ rs, r.1 ≠ Exchange.error.name)
    (hfits : ∀ t ∈ (turns handler encoding (.ofList es) memory rs).1, t.Fits encoding) :
    (requests line s rs).1 = (turns handler encoding (.ofList es) memory rs).1.map Turn.result ∧
      Idle device encoding es (turns handler encoding (.ofList es) memory rs).2
        (calls ++ rs.filter (passes encoding (.ofList es))) (requests line s rs).2 := by
  induction rs generalizing s memory calls with
  | nil => exact ⟨rfl, by rwa [List.filter_nil, List.append_nil]⟩
  | cons r rest ih =>
      obtain ⟨name, values⟩ := r
      rw [turns, List.forall_mem_cons] at hfits
      obtain ⟨hresult, hidle⟩ := request_agrees hes hline hs (hnames _ List.mem_cons_self) hfits.1
      obtain ⟨hresults, hfinal⟩ := ih hidle (fun r hr => hnames r (List.mem_cons_of_mem _ hr)) hfits.2
      refine ⟨congr (congrArg List.cons hresult) hresults, ?_⟩
      rw [List.append_assoc, ← List.filter_append] at hfinal
      exact hfinal

end Carried

end Session

/-! ## Lines cut at given places -/

/-- Bytes in pieces of given sizes, the last of which is what is left, and the sizes that are not used. -/
def cutInPieces : List Nat → List UInt8 → List (List UInt8) × List Nat
  | [], bytes => ([bytes], [])
  | size :: sizes, bytes =>
    if bytes.length ≤ size then ([bytes], sizes)
    else
      let (pieces, left) := cutInPieces sizes (bytes.drop size)
      (bytes.take size :: pieces, left)

theorem flatten_cutInPieces (sizes : List Nat) (bytes : List UInt8) :
    (cutInPieces sizes bytes).1.flatten = bytes := by
  induction sizes generalizing bytes with
  | nil => simp [cutInPieces]
  | cons size sizes ih =>
      simp only [cutInPieces]
      split
      · simp
      · rw [List.flatten_cons, ih, List.take_append_drop]

/-- A device at the end of a line, and the sizes of the next pieces and of the next chunks. -/
structure Wired (μ : Type) where
  device : Device μ
  pieces : List Nat
  chunks : List Nat

namespace Wired

variable {μ : Type} (handler : Handler μ)

/-- The line that cuts what it carries at the given places, and breaks with the device. -/
def line : Line (Wired μ) where
  send bytes wired :=
    let (pieces, left) := cutInPieces wired.pieces bytes
    match pieces.foldlM (Device.write handler) wired.device with
    | some after => (.ok (), { wired with device := after, pieces := left })
    | none => (.error ⟨.brokenPipe, "broken pipe"⟩, wired)
  receive wired :=
    let size := max 1 (min (wired.chunks.headD Line.chunkSize) Line.chunkSize)
    let outgoing := wired.device.outgoing
    (.ok (outgoing.take size),
      { wired with device := { wired.device with outgoing := outgoing.drop size }, chunks := wired.chunks.tail })

theorem carries : (line handler).Carries handler Wired.device := by
  refine ⟨fun bytes wired => ?_, fun wired hne => ?_⟩
  · refine ⟨_, flatten_cutInPieces wired.pieces bytes, fun after hafter => ?_⟩
    simp only [line, hafter, Prod.mk.injEq, true_and, exists_eq_left']
  · have hone : 1 ≤ Line.chunkSize := by decide
    refine ⟨_, _, _, (List.take_append_drop _ _).symm, ?_, ?_, rfl, rfl⟩
    · rw [ne_eq, List.take_eq_nil_iff, not_or]
      exact ⟨by omega, hne⟩
    · rw [List.length_take]
      omega

end Wired

/-! ## A device to talk to -/

namespace Bench

/-- Measures the time that it is asked to take, counts how often, and has no room for notes. -/
def handler : Handler Nat := fun count name values =>
  if name = measure.name then
    (.values (.ofList [("voltage", (values.get? "time").getD .nothing), ("settled", .nothing)]), count + 1)
  else (.report "no room", count)

def wired : Wired Nat := ⟨.idle .text contract.exchanges 0 [], [3, 0, 20], [1, 7]⟩

/-- Two requests that can be sent, one of an exchange that is not known, and one without its fields. -/
def requests : List (String × FieldValues) := [
  ("Measure", .ofList [("time", .float (.zero .double true)), ("channel", .integer (-2))]),
  ("LogRequest", .ofList [("urgent", .nothing), ("note", .text "done")]),
  ("Recall", .empty),
  ("Measure", .empty)]

end Bench

/-! ## Agreement -/

namespace Session

/-- However a line cuts what it carries, every request to a device comes to what its handler gives when it
is called directly. The handler is called once for each request that can be sent, in their order and with
their values, and in the end nothing is on the way or kept. -/
theorem session_agrees {σ μ : Type} {d : ContractDeclaration} {c : Contract} (hload : d.load = .ok c)
    (encoding : Encoding) {handler : Handler μ} {line : Line σ} {device : σ → Device μ}
    (hline : line.Carries handler device) {memory : μ} {state : σ}
    (hdevice : device state = .idle encoding c.exchanges memory [])
    {rs : List (String × FieldValues)} (hnames : ∀ r ∈ rs, r.1 ≠ Exchange.error.name)
    (hfits : ∀ t ∈ (turns handler encoding (.ofContract c) memory rs).1, t.Fits encoding) :
    (requests line (.start state encoding c.exchanges) rs).1 =
        (turns handler encoding (.ofContract c) memory rs).1.map Turn.result ∧
      device (requests line (.start state encoding c.exchanges) rs).2.state =
        .idle encoding c.exchanges (turns handler encoding (.ofContract c) memory rs).2
          (rs.filter (passes encoding (.ofContract c))) ∧
      (requests line (.start state encoding c.exchanges) rs).2.buffered = 0 := by
  have hes := ContractDeclaration.validExchanges_of_load hload
  obtain ⟨hresults, hidle⟩ := requests_agree hes hline (s := start state encoding c.exchanges)
    ⟨rfl, hdevice⟩ hnames hfits
  refine ⟨hresults, hidle.device, ?_⟩
  rw [buffered, hidle.session]
  rfl

theorem session_agrees_bench :
    (requests (Wired.line Bench.handler) (.start Bench.wired .text Bench.contract.exchanges) Bench.requests).1 = [
        .ok ⟨"MeasureResponse", .ofList [("voltage", .float (.zero .double true)), ("settled", .nothing)]⟩,
        .error (.reported "no room"),
        .error (.unknownExchange "Recall"),
        .error (.request (.missingField "MeasureRequest" "time"))] ∧
      (requests (Wired.line Bench.handler) (.start Bench.wired .text Bench.contract.exchanges)
        Bench.requests).2.state.device = .idle .text Bench.contract.exchanges 1 (Bench.requests.take 2) ∧
      (requests (Wired.line Bench.handler) (.start Bench.wired .text Bench.contract.exchanges)
        Bench.requests).2.buffered = 0 := by
  obtain ⟨hresults, hdevice, hbuffered⟩ := session_agrees Bench.load_declaration .text
    (Wired.carries Bench.handler) (show Bench.wired.device = _ from rfl)
    (show ∀ r ∈ Bench.requests, r.1 ≠ Exchange.error.name by decide) (by decide +kernel)
  have hturns : (turns Bench.handler .text (.ofContract Bench.contract) 0 Bench.requests).2 = 1 := by
    decide +kernel
  have hpass : Bench.requests.filter (passes .text (.ofContract Bench.contract)) = Bench.requests.take 2 := by
    decide +kernel
  rw [hturns, hpass] at hdevice
  exact ⟨hresults.trans (by decide +kernel), hdevice, hbuffered⟩

end Session

end SerialContract
