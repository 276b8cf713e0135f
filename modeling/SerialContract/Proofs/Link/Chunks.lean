import SerialContract.Proofs.Link.Session
import SerialContract.Proofs.Link.Traffic
import SerialContract.Proofs.Wire.CanonicalPacket
import SerialContract.Proofs.Wire.FrameBuffer

/-!
# Answers in chunks

What a session makes of the bytes that arrive does not depend on how they are cut into chunks: it is what
it makes of them if all are in its buffer from the start.
-/

namespace SerialContract

/-! ## Lines that fit -/

/-- No line with its line feed, and no line that is still without one, is longer than a limit. -/
structure LinesFit (limit : Nat) (bytes : List UInt8) : Prop where
  line : ∀ before line after, bytes = before ++ line ++ 10 :: after → 10 ∉ line → line.length + 1 ≤ limit
  tail : ∀ before tail, bytes = before ++ tail → 10 ∉ tail → tail.length ≤ limit

theorem LinesFit.drop {limit : Nat} {front rest : List UInt8} (h : LinesFit limit (front ++ rest)) :
    LinesFit limit rest := by
  constructor
  · rintro before line after rfl
    exact h.line (front ++ before) line after (by simp)
  · rintro before tail rfl
    exact h.tail (front ++ before) tail (by simp)

theorem linesFit_of_length_le {limit : Nat} {bytes : List UInt8} (h : bytes.length ≤ limit) :
    LinesFit limit bytes := by
  constructor
  · rintro before line after rfl _
    simp only [List.length_append, List.length_cons] at h
    omega
  · rintro before tail rfl _
    rw [List.length_append] at h
    omega

/-- The front of a line that fits is no longer than the line. -/
theorem LinesFit.length_le {limit : Nat} {front rest : List UInt8} (h : LinesFit limit (front ++ rest))
    (hfront : 10 ∉ front) : front.length ≤ limit := by
  by_cases hrest : 10 ∈ rest
  · obtain ⟨more, after, rfl, hmore⟩ := List.eq_append_cons_of_mem hrest
    have hline := h.line [] (front ++ more) after (by simp) (by simp [hfront, hmore])
    rw [List.length_append] at hline
    omega
  · have htail := h.tail [] (front ++ rest) (by simp) (by simp [hfront, hrest])
    rw [List.length_append] at htail
    omega

namespace FrameBuffer

variable {encoding : Encoding} {b after : FrameBuffer}

theorem length_le_of_frameLength? {bytes : List UInt8} {length : Nat}
    (h : Packet.frameLength? bytes = some length) : length ≤ maxFrame := by
  match bytes with
  | [] => cases h
  | [_] => cases h
  | low :: high :: rest =>
      cases h
      have hlt : Packet.ofLowFirst [low, high] < 256 ^ 2 := Packet.ofLowFirst_lt [low, high]
      exact Nat.add_le_add_left (Nat.le_of_lt_succ hlt) _

theorem length_lt_of_frameLength?_eq_none {bytes : List UInt8} (h : Packet.frameLength? bytes = none) :
    bytes.length < 2 := by
  match bytes with
  | [] => exact Nat.zero_lt_two
  | [_] => exact Nat.one_lt_two
  | _ :: _ :: _ => cases h

/-- What a buffer finds at the front of lines that fit, or of packets, is not too long for it. -/
theorem length_le_of_fits {bytes rest : List UInt8} (hfits : encoding = .text → LinesFit maxFrame (bytes ++ rest)) :
    (∀ length, encoding.frameLength? bytes = some length → length ≤ maxFrame) ∧
      (encoding.frameLength? bytes = none → bytes.length ≤ maxFrame) := by
  cases encoding with
  | text =>
      by_cases hmem : 10 ∈ bytes
      · obtain ⟨line, after, rfl, hline⟩ := List.eq_append_cons_of_mem hmem
        have hlength : Encoding.text.frameLength? (line ++ 10 :: after) = some (line.length + 1) :=
          TextLine.frameLength?_append hline after
        rw [hlength]
        refine ⟨fun length h => ?_, fun h => (by cases h)⟩
        cases h
        exact (hfits rfl).line [] line (after ++ rest) (by simp) hline
      · have hlength : Encoding.text.frameLength? bytes = none := TextLine.frameLength?_eq_none hmem
        rw [hlength]
        exact ⟨fun _ h => (by cases h), fun _ => (hfits rfl).length_le hmem⟩
  | binary =>
      refine ⟨fun _ => length_le_of_frameLength?, fun h => ?_⟩
      exact Nat.le_trans (Nat.le_of_lt (length_lt_of_frameLength?_eq_none h)) (by decide)

theorem next_ne_error (hlimit : b.limit = maxFrame) {rest : List UInt8}
    (hfits : encoding = .text → LinesFit maxFrame (b.bytes ++ rest)) (fault : WireError) :
    b.next encoding ≠ (.error fault, after) := by
  obtain ⟨hsome, hnone⟩ := length_le_of_fits hfits
  rw [← hlimit] at hsome hnone
  intro h
  simp only [next] at h
  split at h
  · next length hlength =>
    have hle := hsome length hlength
    split at h
    · omega
    · split at h <;> cases h
  · next hlength =>
    have hle := hnone hlength
    split at h
    · omega
    · cases h

theorem frameLength?_append {front : List UInt8} {length : Nat} (h : encoding.frameLength? front = some length)
    (rest : List UInt8) : encoding.frameLength? (front ++ rest) = some length := by
  cases encoding with
  | text =>
      obtain ⟨index, hindex, rfl⟩ := Option.map_eq_some_iff.1 h
      refine Option.map_eq_some_iff.2 ⟨index, ?_, rfl⟩
      rw [List.findIdx?_append, hindex, Option.some_or]
  | binary =>
      match front with
      | [] => cases h
      | [_] => cases h
      | _ :: _ :: _ => exact h

/-- A frame is given out whatever stands behind it. -/
theorem next_push {frame : List UInt8} (h : b.next encoding = (.ok (some frame), after)) (rest : List UInt8) :
    (b.push rest).next encoding = (.ok (some frame), after.push rest) := by
  obtain ⟨hlength, hshort, hbytes, hlimit⟩ := next_eq_some h
  have hlong : ¬ b.limit < frame.length := Nat.not_lt_of_le hshort
  have hpushed := frameLength?_append hlength rest
  rw [hbytes, List.append_assoc] at hpushed
  simp only [next, push, hbytes, List.append_assoc, hpushed, hlong, List.take_left, List.drop_left, ↓reduceIte,
    hlimit]

end FrameBuffer

/-! ## Scripts without failures -/

namespace Script

/-- Everything that is still read are chunks with bytes in them. -/
def Flowing (script : Script) : Prop :=
  ∀ item ∈ script.reads, ∃ chunk : List UInt8, chunk ≠ [] ∧ item = .ok chunk

/-- The script after which no bytes come any more, and which is otherwise the same. -/
def ended (script : Script) : Script :=
  { script with reads := [] }

variable {script : Script}

theorem reads_send (script : Script) (bytes : List UInt8) : (script.send bytes).2.reads = script.reads := by
  rcases haccept : accept script.writes bytes with ⟨result, accepted, left⟩
  cases result <;> cases hflush : script.flush <;> simp [send, haccept, hflush]

theorem pending_send (script : Script) (bytes : List UInt8) : (script.send bytes).2.pending = script.pending := by
  rw [pending, reads_send, pending]

theorem send_ended (bytes : List UInt8) :
    script.ended.send bytes = ((script.send bytes).1, (script.send bytes).2.ended) := by
  rcases haccept : accept script.writes bytes with ⟨result, accepted, left⟩
  cases result <;> cases hflush : script.flush <;> simp [send, ended, haccept, hflush]

/-- A script that answers with chunks. -/
def answering (script : Script) (chunks : List (List UInt8)) : Script :=
  { script with reads := chunks.map .ok }

theorem flowing_answering {chunks : List (List UInt8)} (h : [] ∉ chunks) : (script.answering chunks).Flowing := by
  intro item hitem
  obtain ⟨chunk, hchunk, rfl⟩ := List.mem_map.1 hitem
  exact ⟨chunk, fun hnil => h (hnil ▸ hchunk), rfl⟩

theorem pending_answering (chunks : List (List UInt8)) : (script.answering chunks).pending = chunks.flatten := by
  simp only [pending, answering, List.flatMap_map, List.flatMap_id']

/-- A chunk is received at once, or a front of it if it is too long. -/
theorem receive_chunk {chunk : List UInt8} (hchunk : chunk ≠ []) {rest : List (Except Failure (List UInt8))}
    (h : script.reads = .ok chunk :: rest) : ∃ (front : List UInt8) (others : List (List UInt8)),
      script.receive = (.ok front, { script with reads := others.map .ok ++ rest }) ∧
      front ≠ [] ∧ [] ∉ others ∧ front ++ others.flatten = chunk := by
  by_cases hshort : chunk.length ≤ Line.chunkSize
  · exact ⟨chunk, [], by simp [Script.receive, h, hshort], hchunk, List.not_mem_nil, List.append_nil chunk⟩
  · refine ⟨chunk.take Line.chunkSize, [chunk.drop Line.chunkSize], by simp [Script.receive, h, hshort], ?_, ?_, ?_⟩
    · rw [Ne, List.take_eq_nil_iff, not_or]
      exact ⟨by decide, hchunk⟩
    · rw [List.mem_singleton, eq_comm, List.drop_eq_nil_iff]
      exact hshort
    · rw [List.flatten_singleton, List.take_append_drop]

/-- What is received is the front of what is still to come, and nothing only if there is nothing. -/
theorem Flowing.receive (h : script.Flowing) : ∃ chunk after, script.receive = (.ok chunk, after) ∧
    after.Flowing ∧ after.ended = script.ended ∧ script.pending = chunk ++ after.pending ∧
      (chunk = [] → script.reads = []) := by
  cases hreads : script.reads with
  | nil => exact ⟨[], script, by simp [Script.receive, hreads], h, rfl, rfl, fun _ => rfl⟩
  | cons item rest =>
      rw [Flowing, hreads, List.forall_mem_cons] at h
      obtain ⟨⟨chunk, hne, rfl⟩, hrest⟩ := h
      obtain ⟨front, others, hreceive, hfront, hothers, rfl⟩ := receive_chunk hne hreads
      refine ⟨front, _, hreceive, ?_, rfl, ?_, fun hnil => absurd hnil hfront⟩
      · have hflowing : (script.answering others).Flowing := flowing_answering hothers
        rw [Flowing, List.forall_mem_append]
        exact ⟨hflowing, hrest⟩
      · simp only [pending, hreads, List.flatMap_cons, List.flatMap_append, List.flatMap_map, List.flatMap_id',
          List.append_assoc]

end Script

namespace Session

open Script (Flowing)

/-! ## Settled sessions -/

/-- The session when all bytes that will come have arrived. -/
def settled (s : Session Script) : Session Script :=
  { s with buffer := s.buffer.push s.state.pending, state := s.state.ended }

@[simp] theorem encoding_settled (s : Session Script) : s.settled.encoding = s.encoding := rfl

@[simp] theorem table_settled (s : Session Script) : s.settled.table = s.table := rfl

/-- A session over a script without failures, whose bytes are lines that fit if they are read as `text`. -/
structure Fluent (text : Prop) (s : Session Script) : Prop where
  flowing : s.state.Flowing
  limit : s.buffer.limit = FrameBuffer.maxFrame
  encoding : s.encoding = .text → text
  fits : text → LinesFit FrameBuffer.maxFrame (s.buffer.bytes ++ s.state.pending)

variable {text : Prop} {s : Session Script}

theorem settled_eq_self (h : s.state.reads = []) : s.settled = s := by
  obtain ⟨encoding, table, buffer, ⟨reads, writes, flush, pieces⟩⟩ := s
  cases h
  simp [settled, Script.ended, Script.pending, FrameBuffer.push_nil]

theorem settled_received {chunk : List UInt8} {state : Script} (hended : state.ended = s.state.ended)
    (hpending : s.state.pending = chunk ++ state.pending) :
    settled { s with buffer := s.buffer.push chunk, state } = s.settled := by
  simp [settled, hended, hpending, FrameBuffer.push]

/-- A frame is read as if all bytes had arrived. -/
theorem readFrame_settled (h : s.Fluent text) :
    (readFrame Script.line s).1 = (readFrame Script.line s.settled).1 ∧
      (readFrame Script.line s).2.settled = (readFrame Script.line s.settled).2.settled ∧
      (readFrame Script.line s).2.Fluent text := by
  fun_induction readFrame Script.line s with
  | case1 s frame buffer hnext =>
      obtain ⟨_, _, hbytes, hlimit⟩ := FrameBuffer.next_eq_some hnext
      have hread : readFrame Script.line s.settled = _ :=
        readFrame_of_frame (FrameBuffer.next_push hnext s.state.pending)
      rw [hread]
      refine ⟨rfl, (settled_eq_self rfl).symm, h.flowing, hlimit.trans h.limit, h.encoding, fun htext => ?_⟩
      have hfits := h.fits htext
      rw [hbytes, List.append_assoc] at hfits
      exact hfits.drop
  | case2 s fault buffer hnext =>
      exact absurd hnext (FrameBuffer.next_ne_error h.limit (fun hencoding => h.fits (h.encoding hencoding)) fault)
  | case3 s buffer hnext failure state hfail =>
      obtain ⟨chunk, after, hreceive, -⟩ := h.flowing.receive
      cases hreceive.symm.trans hfail
  | case4 s buffer hnext state hclosed =>
      -- only a script that is over gives no bytes, and its session is settled
      obtain ⟨chunk, after, hreceive, hflowing, hended, hpending, hlast⟩ := h.flowing.receive
      cases hreceive.symm.trans hclosed
      have hsettled := settled_eq_self (hlast rfl)
      obtain ⟨rfl, -⟩ := FrameBuffer.next_eq_none hnext
      rw [hsettled, readFrame_of_closed hnext hclosed]
      rw [List.nil_append] at hpending
      refine ⟨rfl, rfl, hflowing, h.limit, h.encoding, fun htext => ?_⟩
      rw [← hpending]
      exact h.fits htext
  | case5 s buffer hnext b bytes state hmore ih =>
      obtain ⟨chunk, after, hreceive, hflowing, hended, hpending, -⟩ := h.flowing.receive
      cases hreceive.symm.trans hmore
      rw [← settled_received hended hpending]
      refine ih ⟨hflowing, h.limit, h.encoding, fun htext => ?_⟩
      have hfits := h.fits htext
      rw [hpending, ← List.append_assoc] at hfits
      exact hfits

/-! ## Calls -/

section Send

variable {bytes : List UInt8} {answer : Except Failure Unit} {state : Script}

theorem send_settled (h : s.state.send bytes = (answer, state)) :
    s.settled.state.send bytes = (answer, state.ended) := by
  rw [settled, Script.send_ended, h]

theorem settled_sent (h : s.state.send bytes = (answer, state)) :
    settled { s with state } = { s.settled with state := state.ended } := by
  have hpending := s.state.pending_send bytes
  rw [h] at hpending
  simp only [settled, hpending]

theorem Fluent.sent (hs : s.Fluent text) (h : s.state.send bytes = (answer, state)) :
    Fluent text { s with state } := by
  have hreads := s.state.reads_send bytes
  have hpending := s.state.pending_send bytes
  rw [h] at hreads hpending
  refine ⟨?_, hs.limit, hs.encoding, ?_⟩
  · rw [Flowing, hreads]
    exact hs.flowing
  · rw [hpending]
    exact hs.fits

end Send

theorem readResponse_settled (h : s.Fluent text) (expected : String) :
    (readResponse Script.line expected s).1 = (readResponse Script.line expected s.settled).1 ∧
      (readResponse Script.line expected s).2.settled = (readResponse Script.line expected s.settled).2.settled ∧
      (readResponse Script.line expected s).2.Fluent text := by
  obtain ⟨hframe, hsettled, hfluent⟩ := readFrame_settled h
  have hencoding := congrArg encoding hsettled
  have htable := congrArg table hsettled
  simp only [readResponse_eq]
  refine ⟨?_, hsettled, hfluent⟩
  rw [encoding_settled, encoding_settled] at hencoding
  rw [table_settled, table_settled] at htable
  rw [hframe, hencoding, htable]

theorem request_settled (h : s.Fluent text) (name : String) (values : FieldValues) :
    (request Script.line name values s).1 = (request Script.line name values s.settled).1 ∧
      (request Script.line name values s).2.settled = (request Script.line name values s.settled).2.settled ∧
      (request Script.line name values s).2.Fluent text := by
  have hself : s.settled.settled = s.settled := settled_eq_self rfl
  simp only [request, table_settled, encoding_settled]
  split
  · exact ⟨rfl, hself.symm, h⟩
  · next exchange _ =>
    split
    · exact ⟨rfl, hself.symm, h⟩
    · next bytes _ =>
      rcases hsend : s.state.send bytes with ⟨answer, state⟩
      have hsettled := settled_sent hsend
      simp only [Script.line, hsend, send_settled hsend]
      cases answer with
      | error failure =>
          exact ⟨rfl, hsettled.trans (settled_eq_self rfl).symm, h.sent hsend⟩
      | ok _ =>
          have hread := readResponse_settled (h.sent hsend) (exchange.messageName .response)
          rw [hsettled] at hread
          exact hread

/-- To switch to text is allowed if lines fit. -/
def Call.Reads (text : Prop) : Call → Prop
  | .switch .text _ => text
  | _ => True

theorem perform_settled (h : s.Fluent text) {call : Call} (hcall : call.Reads text) :
    (perform Script.line s call).1 = (perform Script.line s.settled call).1 ∧
      (perform Script.line s call).2.settled = (perform Script.line s.settled call).2.settled ∧
      (perform Script.line s call).2.Fluent text := by
  cases call with
  | request name values =>
      obtain ⟨hresult, hrest⟩ := request_settled h name values
      exact ⟨congrArg Outcome.response hresult, hrest⟩
  | ping =>
      obtain ⟨hresult, hrest⟩ := request_settled h Exchange.ping.name .empty
      simp only [perform, ping_eq, hresult, true_and]
      exact hrest
  | switch encoding exchanges =>
      refine ⟨rfl, (settled_eq_self rfl).symm, h.flowing, h.limit, ?_, h.fits⟩
      rintro rfl
      exact hcall

/-- Sessions that come to the same when all bytes have arrived give the same answers. -/
theorem run_eq_of_settled {t : Session Script} {calls : List Call} (hs : s.Fluent text) (ht : t.Fluent text)
    (h : s.settled = t.settled) (hcalls : ∀ call ∈ calls, call.Reads text) :
    (run Script.line s calls).1 = (run Script.line t calls).1 := by
  induction calls generalizing s t with
  | nil => rfl
  | cons call calls ih =>
      rw [List.forall_mem_cons] at hcalls
      obtain ⟨hsresult, hssettled, hsafter⟩ := perform_settled hs hcalls.1
      obtain ⟨htresult, htsettled, htafter⟩ := perform_settled ht hcalls.1
      rw [h] at hsresult hssettled
      simp only [run]
      rw [hsresult, htresult, ih hsafter htafter (hssettled.trans htsettled.symm) hcalls.2]

/-! ## Cutting a stream -/

variable {chunks : List (List UInt8)}

theorem fluent_start (script : Script) (exchanges : List Exchange) (h : [] ∉ chunks) {encoding : Encoding}
    (hencoding : encoding = .text → text) (hfits : text → LinesFit FrameBuffer.maxFrame chunks.flatten) :
    Fluent text (.start (script.answering chunks) encoding exchanges) := by
  refine ⟨Script.flowing_answering h, rfl, hencoding, fun htext => ?_⟩
  rw [start, Script.pending_answering]
  exact hfits htext

theorem settled_start (script : Script) (encoding : Encoding) (exchanges : List Exchange) :
    settled (.start (script.answering chunks) encoding exchanges) =
      { Session.start script.ended encoding exchanges with buffer := FrameBuffer.empty.push chunks.flatten } := by
  rw [settled, start, Script.pending_answering]
  rfl

/-- Text is read if a session starts with it or is switched to it. -/
def ReadsText (encoding : Encoding) (calls : List Call) : Prop :=
  encoding = .text ∨ ∃ exchanges, .switch .text exchanges ∈ calls

/-- Whatever a line does, no call loses or repeats a byte: what has come in are the frames that the calls have
taken and what is kept. A call that reads a message takes one frame, one on which the line breaks off takes
none and keeps all, and one that cannot be sent does nothing. So a session gives the same answers however
the same bytes are cut into chunks. -/
theorem calls_conserve_bytes (encoding : Encoding) (exchanges : List Exchange) (calls : List Call) :
    (∀ {σ : Type} (line : Line σ) (state : σ),
      (∀ o ∈ (run line (.start state encoding exchanges) calls).1, o.ending ≠ .overlong) →
        ∃ logs, Recorded line (.start state encoding exchanges) calls logs
            (run line (.start state encoding exchanges) calls).2 ∧
          received logs.flatten = (taken logs.flatten).flatten ++
            (run line (.start state encoding exchanges) calls).2.buffer.bytes) ∧
      ∀ (script : Script) (chunks others : List (List UInt8)), [] ∉ chunks → [] ∉ others →
        chunks.flatten = others.flatten →
        (ReadsText encoding calls → LinesFit FrameBuffer.maxFrame chunks.flatten) →
          (run Script.line (.start (script.answering chunks) encoding exchanges) calls).1 =
            (run Script.line (.start (script.answering others) encoding exchanges) calls).1 := by
  refine ⟨fun line state hcalls => ?_, fun script chunks others hchunks hothers hsame hfits => ?_⟩
  · obtain ⟨logs, hlogs⟩ := run_recorded hcalls
    exact ⟨logs, hlogs, hlogs.steps.conserves⟩
  · have hfirst := fluent_start script exchanges hchunks Or.inl hfits
    rw [hsame] at hfits
    have hsecond := fluent_start script exchanges hothers Or.inl hfits
    refine run_eq_of_settled hfirst hsecond ?_ fun call hcall => ?_
    · rw [settled_start, settled_start, hsame]
    · match call with
      | .switch .text exchanges => exact .inr ⟨exchanges, hcall⟩
      | .switch .binary _ | .request _ _ | .ping => trivial

end Session

namespace Bench

/-- Requests, a ping after a change to the built-in exchanges, and one for which there are no bytes any more. -/
def calls : List Session.Call := [
  .request "Recall" .empty,
  .request "Measure" (.ofList [("time", .float (.zero .double true)), ("channel", .integer (-2))]),
  .switch .text [],
  .ping,
  .ping]

def script : Script := ⟨[], [.ok 3], none, []⟩

def chunks : List (List UInt8) :=
  ["MeasureResponse(voltage=-0.0,set".toUTF8.toList, "tled=)\nPing".toUTF8.toList,
    "Response()\nPingRes".toUTF8.toList]

end Bench

namespace Session

theorem calls_conserve_bytes_bench :
    (∃ logs, Recorded Script.line (.start (Bench.script.answering Bench.chunks) .text Bench.contract.exchanges)
        Bench.calls logs
        (run Script.line (.start (Bench.script.answering Bench.chunks) .text Bench.contract.exchanges) Bench.calls).2 ∧
      received logs.flatten = (taken logs.flatten).flatten ++ "PingRes".toUTF8.toList) ∧
      (run Script.line (.start (Bench.script.answering [Bench.chunks.flatten]) .text Bench.contract.exchanges)
        Bench.calls).1 = [
          .response (.error (.unknownExchange "Recall")),
          .response (.ok ⟨"MeasureResponse",
            .ofList [("voltage", .float (.zero .double true)), ("settled", .nothing)]⟩),
          .switched,
          .pong (.ok ()),
          .pong (.error .closed)] := by
  obtain ⟨hconserved, hsame⟩ := calls_conserve_bytes .text Bench.contract.exchanges Bench.calls
  constructor
  · obtain ⟨logs, hlogs, hbytes⟩ := hconserved Script.line (Bench.script.answering Bench.chunks) (by decide +kernel)
    have hkept : (run Script.line (.start (Bench.script.answering Bench.chunks) .text Bench.contract.exchanges)
        Bench.calls).2.buffer.bytes = "PingRes".toUTF8.toList := by decide +kernel
    rw [hkept] at hbytes
    exact ⟨logs, hlogs, hbytes⟩
  · have hfits : LinesFit FrameBuffer.maxFrame Bench.chunks.flatten := linesFit_of_length_le (by decide +kernel)
    rw [← hsame Bench.script Bench.chunks [Bench.chunks.flatten] (by decide +kernel) (by decide +kernel)
      (List.append_nil _).symm fun _ => hfits]
    decide +kernel

end Session

end SerialContract
