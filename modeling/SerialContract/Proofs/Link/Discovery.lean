import SerialContract.Link.Discovery
import SerialContract.Proofs.Link.Session
import SerialContract.Proofs.Link.Traffic

/-!
# Devices that are found

A device that is found may have printed lines when it started. For every such line one more ping is sent,
and the device answers them all; but the search stops at the first answer. The others are still on their
way when the session is handed over, and the first of them is read as the answer to the next request.
-/

namespace SerialContract

open Session

namespace Discovery

/-! ## Pings and their answers -/

def pingLine : List UInt8 := "PingRequest()\n".toUTF8.toList

def pongLine : List UInt8 := "PingResponse()\n".toUTF8.toList

theorem encode_ping : Encoding.text.encode .ping .request .empty = .ok pingLine := by
  decide +kernel

theorem encode_pong : (Reply.values .empty).encode .text .ping = .ok pongLine := by
  decide +kernel

theorem ping_mem {es : List Exchange} (hes : ValidExchanges es) : .ping ∈ (ExchangeTable.ofList es).exchanges :=
  (ExchangeTable.mem_ofList hes).2 (.inl rfl)

theorem pong_delimits : Encoding.text.Delimits pongLine :=
  Encoding.delimits_of_encode ⟨List.forall_mem_nil _, .nil⟩ (ping_mem ⟨List.forall_mem_nil _, .nil⟩) encode_pong

theorem pong_decodes {es : List Exchange} (hes : ValidExchanges es) :
    Encoding.text.decode (.ofList es) pongLine = .ok ⟨Exchange.ping.messageName .response, .empty⟩ :=
  Encoding.decode_of_encode hes (ping_mem hes) encode_pong

/-- A line that fits and is no answer to a ping, such as a device prints when it starts. -/
structure Stale (stale : List UInt8) : Prop where
  line : ∃ front, 10 ∉ front ∧ stale = front ++ [10]
  short : stale.length ≤ FrameBuffer.maxFrame
  other : ∀ message, Encoding.text.decode (.ofList []) stale = .ok message →
    message.name ≠ Exchange.ping.messageName .response

theorem Stale.delimits {stale : List UInt8} (h : Stale stale) : Encoding.text.Delimits stale := by
  obtain ⟨front, hfront, rfl⟩ := h.line
  exact TextLine.delimits hfront

section Owed

variable {σ μ : Type} {handler : Handler μ} {line : Line σ} {device : σ → Device μ} {es : List Exchange}

/-! ## Bytes that are owed -/

/-- A session that still has these bytes to read, kept or on their way, from a device at rest. -/
structure Owed (device : σ → Device μ) (es : List Exchange) (memory : μ) (bytes : List UInt8) (s : Session σ) :
    Prop where
  encoding : s.encoding = .text
  limit : s.buffer.limit = FrameBuffer.maxFrame
  resting : ∃ calls, device s.state = ⟨.text, .ofList es, .empty, (device s.state).outgoing, memory, calls⟩
  owed : s.buffer.bytes ++ (device s.state).outgoing = bytes

variable {memory : μ} {bytes : List UInt8} {s : Session σ}

theorem Owed.send (hes : ValidExchanges es) (hline : line.Carries handler device)
    (h : Owed device es memory bytes s) {e : Exchange} (he : e ∈ (ExchangeTable.ofList es).exchanges)
    {values : FieldValues} {frame reply : List UInt8} (hencode : Encoding.text.encode e .request values = .ok frame)
    (hlimit : frame.length ≤ FrameBuffer.maxFrame)
    (hreply : (handler memory e.name values).1.encode .text e = .ok reply) :
    ∃ state, line.send frame s.state = (.ok (), state) ∧
      Owed device es (handler memory e.name values).2 (bytes ++ reply) { s with state } := by
  obtain ⟨encoding, table, buffer, state⟩ := s
  obtain ⟨hencoding, hbuffer, ⟨calls, hresting⟩, howed⟩ := h
  obtain ⟨pieces, hpieces, hsend⟩ := hline.send frame state
  have hpos := List.length_pos_of_ne_nil (Encoding.delimits_of_encode hes he hencode).nonempty
  rcases hdevice : device state with ⟨deviceencoding, devicetable, incoming, outgoing, devicememory, devicecalls⟩
  simp only [hdevice] at hresting howed
  cases hresting
  have hwrite : pieces.foldlM (Device.write handler) ⟨.text, .ofList es, .empty, outgoing, memory, calls⟩ = _ :=
    Device.foldlM_write_request hes he rfl hencode hlimit hreply hpieces hpos
  rw [← hdevice] at hwrite
  obtain ⟨next, hsent, hnext⟩ := hsend _ hwrite
  refine ⟨next, hsent, hencoding, hbuffer, ⟨calls ++ [(e.name, values)], ?_⟩, ?_⟩
  · rw [hnext, hdevice]
    rfl
  · rw [hnext, hdevice, ← howed, List.append_assoc]
    rfl

theorem Owed.read (hline : line.Carries handler device) {frame rest : List UInt8}
    (h : Owed device es memory (frame ++ rest) s) (hdelimits : Encoding.text.Delimits frame)
    (hlimit : frame.length ≤ FrameBuffer.maxFrame) :
    ∃ after, readFrame line s = (.ok frame, after) ∧ after.table = s.table ∧ Owed device es memory rest after := by
  rw [← h.encoding] at hdelimits
  rw [← h.limit] at hlimit
  obtain ⟨kept, next, left, hread, hnext, hrest⟩ := readFrame_front hline hdelimits hlimit h.owed
  obtain ⟨calls, hresting⟩ := h.resting
  refine ⟨_, hread, rfl, h.encoding, h.limit, ⟨calls, ?_⟩, ?_⟩
  · rw [hnext, hresting]
  · rw [hnext]
    exact hrest

/-- The answer to a request that is sent is put behind what is owed, and what is owed first is read. -/
theorem Owed.request (hes : ValidExchanges es) (hline : line.Carries handler device)
    (h : Owed device es memory bytes s) {e : Exchange} (he : e ∈ (ExchangeTable.ofList es).exchanges)
    (hnamed : s.table.named? e.name = some e) {values : FieldValues} {sent reply : List UInt8}
    (hencode : Encoding.text.encode e .request values = .ok sent) (hsent : sent.length ≤ FrameBuffer.maxFrame)
    (hreply : (handler memory e.name values).1.encode .text e = .ok reply) {frame rest : List UInt8}
    (hfirst : bytes ++ reply = frame ++ rest) (hdelimits : Encoding.text.Delimits frame)
    (hlimit : frame.length ≤ FrameBuffer.maxFrame) :
    ∃ after, request line e.name values s =
        ((Encoding.text.decode s.table frame).mapError .response |>.bind (judge (e.messageName .response)), after) ∧
      after.table = s.table ∧ Owed device es (handler memory e.name values).2 rest after := by
  obtain ⟨state, hsend, howed⟩ := h.send hes hline he hencode hsent hreply
  rw [hfirst] at howed
  obtain ⟨after, hread, htable, hafter⟩ := howed.read hline hdelimits hlimit
  refine ⟨after, ?_, htable, hafter⟩
  rw [← h.encoding] at hencode
  rw [request_of_sent hnamed hencode hsend, readResponse_eq, hread]
  simp only [hafter.encoding, htable, Except.bind]

/-! ## Pinging -/

/-- What a handler keeps in mind after some pings. -/
def pinged (handler : Handler μ) (count : Nat) (memory : μ) : μ :=
  (fun memory => (handler memory Exchange.ping.name .empty).2)^[count] memory

theorem judge_other {expected : String} {message : Message} (h : message.name ≠ expected) :
    ∃ fault, judge expected message = .error fault ∧ isGarbage fault = true := by
  rw [judge]
  split
  · split
    · exact ⟨_, rfl, rfl⟩
    · exact ⟨_, rfl, rfl⟩
  · exact ⟨_, rfl, rfl⟩

/-- Whatever a stale line is read as, it is no reason to give up. -/
theorem Stale.garbage {stale : List UInt8} (h : Stale stale) : ∃ fault,
    (((Encoding.text.decode (.ofList []) stale).mapError .response).bind
      (judge (Exchange.ping.messageName .response))) = .error fault ∧ isGarbage fault = true := by
  cases hdecode : Encoding.text.decode (.ofList []) stale with
  | error fault => exact ⟨_, rfl, rfl⟩
  | ok message => exact judge_other (h.other message hdecode)

variable {rest : List UInt8}

theorem Owed.ping (hes : ValidExchanges es) (hline : line.Carries handler device)
    (hping : (handler memory Exchange.ping.name .empty).1 = .values .empty)
    (h : Owed device es memory bytes s) (htable : s.table = .ofList []) {frame : List UInt8}
    (hfirst : bytes ++ pongLine = frame ++ rest) (hdelimits : Encoding.text.Delimits frame)
    (hlimit : frame.length ≤ FrameBuffer.maxFrame) :
    ∃ after, ping line s = ((Encoding.text.decode (.ofList []) frame).mapError .response |>.bind
        (judge (Exchange.ping.messageName .response)) |>.map fun _ => (), after) ∧
      after.table = .ofList [] ∧ Owed device es (handler memory Exchange.ping.name .empty).2 rest after := by
  have hnamed : s.table.named? Exchange.ping.name = some .ping := by
    rw [htable]
    rfl
  have hreply : (handler memory Exchange.ping.name .empty).1.encode .text .ping = .ok pongLine := by
    rw [hping]
    exact encode_pong
  obtain ⟨after, hrequest, hafter, howed⟩ := h.request hes hline (ping_mem hes) hnamed encode_ping (by decide +kernel)
    hreply hfirst hdelimits hlimit
  refine ⟨after, ?_, hafter.trans htable, howed⟩
  rw [ping_eq, hrequest, htable]

theorem Owed.ping_stale (hes : ValidExchanges es) (hline : line.Carries handler device)
    (hping : (handler memory Exchange.ping.name .empty).1 = .values .empty) {stale : List UInt8}
    (h : Owed device es memory (stale ++ rest) s) (htable : s.table = .ofList []) (hstale : Stale stale) :
    ∃ fault after, Session.ping line s = (.error fault, after) ∧ isGarbage fault = true ∧
      after.table = .ofList [] ∧
      Owed device es (handler memory Exchange.ping.name .empty).2 (rest ++ pongLine) after := by
  obtain ⟨after, hpinged, hafter⟩ := h.ping hes hline hping htable (List.append_assoc _ _ _) hstale.delimits hstale.short
  obtain ⟨fault, hjudge, hgarbage⟩ := hstale.garbage
  rw [hjudge] at hpinged
  exact ⟨fault, after, hpinged, hgarbage, hafter⟩

theorem Owed.ping_answered (hes : ValidExchanges es) (hline : line.Carries handler device)
    (hping : (handler memory Exchange.ping.name .empty).1 = .values .empty)
    (h : Owed device es memory bytes s) (htable : s.table = .ofList [])
    (hfirst : bytes ++ pongLine = pongLine ++ rest) :
    ∃ after, Session.ping line s = (.ok (), after) ∧ after.table = .ofList [] ∧
      Owed device es (handler memory Exchange.ping.name .empty).2 rest after := by
  obtain ⟨after, hpinged, hafter⟩ := h.ping hes hline hping htable hfirst pong_delimits (by decide +kernel)
  have hjudge := judge_response (e := .ping) (by decide) .empty
  rw [pong_decodes ⟨List.forall_mem_nil _, .nil⟩] at hpinged
  simp only [Except.mapError, Except.bind, hjudge, Except.map] at hpinged
  exact ⟨after, hpinged, hafter⟩

/-- The answers to as many pings. -/
def pongs (count : Nat) : List UInt8 :=
  (List.replicate count pongLine).flatten

theorem pongs_append (count : Nat) : pongs count ++ pongLine = pongs (count + 1) := by
  rw [pongs, pongs, List.replicate_succ', List.flatten_append, List.flatten_singleton]

/-- Every stale line costs a ping whose answer is not read. -/
theorem Owed.pingUntilAnswered (hes : ValidExchanges es) (hline : line.Carries handler device)
    (hping : ∀ memory, (handler memory Exchange.ping.name .empty).1 = .values .empty)
    {stale : List (List UInt8)} (hstale : ∀ line ∈ stale, Stale line) {count : Nat}
    (h : Owed device es memory (stale.flatten ++ pongs count) s) (htable : s.table = .ofList []) {attempts : Nat}
    {after : Session σ} (hanswered : Discovery.pingUntilAnswered line attempts s = some after) :
    Owed device es (pinged handler (stale.length + 1) memory) (pongs (count + stale.length)) after := by
  induction stale generalizing s memory count attempts with
  | nil =>
      rw [List.flatten_nil, List.nil_append] at h
      cases attempts with
      | zero => cases hanswered
      | succ attempts =>
          obtain ⟨_, hpinged, _, howed⟩ := h.ping_answered hes hline (hping memory) htable (pongs_append count)
          simp only [Discovery.pingUntilAnswered, hpinged] at hanswered
          cases hanswered
          exact howed
  | cons first rest ih =>
      rw [List.forall_mem_cons] at hstale
      rw [List.flatten_cons, List.append_assoc] at h
      cases attempts with
      | zero => cases hanswered
      | succ attempts =>
          obtain ⟨fault, next, hpinged, hgarbage, hnext, howed⟩ :=
            h.ping_stale hes hline (hping memory) htable hstale.1
          rw [List.append_assoc, pongs_append] at howed
          simp only [Discovery.pingUntilAnswered, hpinged, hgarbage, ↓reduceIte] at hanswered
          have hrest := ih hstale.2 howed hnext hanswered
          rw [Nat.add_right_comm] at hrest
          exact hrest

/-! ## The first request -/

theorem judge_pong {e : Exchange} (h : Exchange.ping.name ≠ e.name) :
    judge (e.messageName .response) ⟨Exchange.ping.messageName .response, .empty⟩ =
      .error (.unexpected (e.messageName .response) (Exchange.ping.messageName .response)) := by
  have herror : Exchange.ping.name ≠ Exchange.error.name := by decide
  have hname : Exchange.ping.messageName .response ≠ e.messageName .response := fun hsame =>
    h (Exchange.messageName_inj.1 hsame).1
  simp only [judge, Message.exchangeName_of_messageName, herror, hname, false_and, ↓reduceIte]

/-- The first request is answered by its own answer, or by the answer to a ping that is still on its way. -/
theorem Owed.firstRequest (hes : ValidExchanges es) (hline : line.Carries handler device) {count : Nat}
    (h : Owed device es memory (pongs count) s) (htable : s.table = .ofList es) {e : Exchange} (he : e ∈ es)
    {values : FieldValues} (hfits : (Turn.answered e values (handler memory e.name values).1).Fits .text) :
    (Session.request line e.name values s).1 =
      if count = 0 then (Turn.answered e values (handler memory e.name values).1).result
      else .error (.unexpected (e.messageName .response) (Exchange.ping.messageName .response)) := by
  have hmem : e ∈ (ExchangeTable.ofList es).exchanges := (ExchangeTable.mem_ofList hes).2 (.inr (.inr he))
  have hnamed : s.table.named? e.name = some e := by
    rw [htable]
    exact ExchangeTable.named?_of_mem hes hmem
  obtain ⟨sent, hsent, hsentlimit⟩ := Turn.frameFits_iff.1 hfits.1
  obtain ⟨reply, hreply, hreplylimit⟩ := Turn.frameFits_iff.1 hfits.2
  cases count with
  | zero =>
      have hne : e.name ≠ Exchange.error.name := (Exchange.error_apart (hes.each e he)).name_ne.symm
      obtain ⟨hdelimits, message, hdecode, hjudge⟩ := judge_reply hes hmem hne hreply values
      obtain ⟨after, hrequest, _⟩ := h.request hes hline hmem hnamed hsent hsentlimit hreply
        (List.append_nil reply).symm hdelimits hreplylimit
      rw [hrequest, htable, hdecode, ← hjudge]
      rfl
  | succ count =>
      have hfirst : pongs (count + 1) ++ reply = pongLine ++ (pongs count ++ reply) := List.append_assoc _ _ _
      obtain ⟨after, hrequest, _⟩ := h.request hes hline hmem hnamed hsent hsentlimit hreply hfirst pong_delimits
        (by decide +kernel)
      have hjudge := judge_pong (Exchange.ping_apart (hes.each e he)).name_ne
      rw [hrequest, htable, pong_decodes hes]
      exact hjudge

theorem connect_of_search {channel : Channel} {attempts total : Nat} {candidates : List (Candidate σ)}
    {candidate : Candidate σ} (h : (search line channel attempts total candidates).found = .ok (candidate, s)) :
    connect line channel attempts candidate = some s := by
  induction candidates with
  | nil => cases h
  | cons first rest ih =>
      rw [search] at h
      split at h
      · next hconnect =>
        cases h
        exact hconnect
      · exact ih h

/-- A session with a device that is found gives the first request the answer of the device if this has
printed nothing before. For every line that it has printed, the answer to a ping is still to come, so
that the first of them is read in place of the answer. -/
theorem request_after_discovery {d : ContractDeclaration} {c : Contract} (hload : d.load = .ok c)
    (htext : c.encoding = .text) (hline : line.Carries handler device)
    (hping : ∀ memory, (handler memory Exchange.ping.name .empty).1 = .values .empty) {channel : Channel}
    {attempts : Nat} {candidates : List (Candidate σ)} {candidate : Candidate σ}
    (hfound : (discover line channel attempts candidates).found = .ok (candidate, s)) {state : σ}
    (hopen : candidate.connect channel = .ok state) {stale : List (List UInt8)}
    (hdevice : device state = { Device.idle .text c.exchanges memory [] with outgoing := stale.flatten })
    (hstale : ∀ line ∈ stale, Stale line) {e : Exchange} (he : e ∈ c.exchanges) {values : FieldValues}
    (hfits : (Turn.answered e values
      (handler (pinged handler (stale.length + 1) memory) e.name values).1).Fits .text) :
    (Session.request line e.name values (s.withContract c)).1 =
      if stale = [] then
        (Turn.answered e values (handler (pinged handler (stale.length + 1) memory) e.name values).1).result
      else .error (.unexpected (e.messageName .response) (Exchange.ping.messageName .response)) := by
  have hes := ContractDeclaration.validExchanges_of_load hload
  have hconnect := connect_of_search hfound
  simp only [connect, hopen] at hconnect
  have hstart : Owed device c.exchanges memory (stale.flatten ++ pongs 0) (Session.start state .text []) := by
    refine ⟨rfl, rfl, ⟨[], ?_⟩, ?_⟩
    · rw [start, hdevice]
      rfl
    · rw [start, hdevice]
      exact (List.append_nil _).symm
  have howed := hstart.pingUntilAnswered hes hline hping hstale rfl hconnect
  rw [Nat.zero_add] at howed
  have hcontract : Owed device c.exchanges (pinged handler (stale.length + 1) memory) (pongs stale.length)
      (s.withContract c) := ⟨htext, howed.limit, howed.resting, howed.owed⟩
  rw [hcontract.firstRequest hes hline rfl he hfits]
  simp only [List.length_eq_zero_iff]

end Owed

end Discovery

namespace Bench

/-- Answers pings, and everything else as before. -/
def pinger : Handler Nat := fun count name values =>
  if name = Exchange.ping.name then (.values .empty, count) else handler count name values

/-- The device on a port, after it has printed something. -/
def printing (printed : List (List UInt8)) : Candidate (Wired Nat) where
  name := "port"
  identifier := none
  connect _ := .ok ⟨{ Device.idle .text contract.exchanges 0 [] with outgoing := printed.flatten }, [3, 0, 20], [1, 7]⟩

def banner : List UInt8 := "boot banner\n".toUTF8.toList

theorem stale_banner : Discovery.Stale banner := by
  refine ⟨⟨"boot banner".toUTF8.toList, by decide +kernel, by decide +kernel⟩, by decide +kernel, ?_⟩
  intro message hdecode
  have hfault : (Encoding.text.decode (.ofList []) banner).toOption = none := by decide +kernel
  rw [hdecode] at hfault
  cases hfault

def measureValues : FieldValues :=
  .ofList [("time", .float (.zero .double true)), ("channel", .integer (-2))]

/-- The search for the device, and the session that it comes to. -/
def found (printed : List (List UInt8)) : Except LinkError (Candidate (Wired Nat) × Session (Wired Nat)) :=
  (Discovery.discover (Wired.line pinger) contract.channel 3 [printing printed]).found

/-- What the first measurement gives in this session. -/
def firstMeasure (printed : List (List UInt8)) : Option (Except LinkError Response) :=
  (found printed).toOption.map fun result =>
    (Session.request (Wired.line pinger) "Measure" measureValues (result.2.withContract contract)).1

end Bench

namespace Discovery

theorem request_after_discovery_banner : ∃ s, Bench.found [Bench.banner] = .ok (Bench.printing [Bench.banner], s) ∧
    (Session.request (Wired.line Bench.pinger) Bench.measure.name Bench.measureValues
      (s.withContract Bench.contract)).1 = .error (.unexpected "MeasureResponse" "PingResponse") := by
  have hconnects : (connect (Wired.line Bench.pinger) Bench.contract.channel 3
      (Bench.printing [Bench.banner])).isSome := by decide +kernel
  obtain ⟨s, hs⟩ := Option.isSome_iff_exists.1 hconnects
  have hfound : Bench.found [Bench.banner] = .ok (Bench.printing [Bench.banner], s) := by
    rw [Bench.found, discover, prioritize, if_pos (by decide +kernel), search, hs]
  refine ⟨s, hfound, ?_⟩
  rw [request_after_discovery Bench.load_declaration rfl (Wired.carries Bench.pinger) (fun _ => rfl) hfound rfl rfl
    (List.forall_mem_singleton.2 Bench.stale_banner) (e := Bench.measure) List.mem_cons_self (by decide +kernel)]
  decide +kernel

/-- The first request is answered by its own answer if the device has printed nothing, but not if it has
printed a line. -/
theorem firstMeasure_after_banner : Stale Bench.banner ∧
    Bench.firstMeasure [] = some (Turn.answered Bench.measure Bench.measureValues
      (Bench.pinger 0 Bench.measure.name Bench.measureValues).1).result ∧
    Bench.firstMeasure [Bench.banner] = some (.error (.unexpected "MeasureResponse" "PingResponse")) :=
  ⟨Bench.stale_banner, by decide +kernel, by decide +kernel⟩

end Discovery

end SerialContract
