import SerialContract.Proofs.Link.Chunks
import SerialContract.Proofs.Link.Discovery
import SerialContract.Proofs.Wire.LineGrammar

/-!
# Pinging past garbage

What a device printed before it was asked is read as the answers to the first pings. Every such line is taken out of the
buffer by one ping, so that the ping that is answered is the next one, and what has arrived behind its answer is all that
is kept. It does not matter how the bytes are cut into chunks: a session waits for the same bytes, in its buffer or still
to come.
-/

namespace SerialContract

open Session

/-! ## Scripts that break off -/

namespace Script

/-- Bytes in chunks, and then the rest, are what a script still answers with. -/
def Feeds (script : Script) (bytes : List UInt8) (rest : List (Except Failure (List UInt8))) : Prop :=
  ∃ chunks : List (List UInt8), script.reads = chunks.map .ok ++ rest ∧ [] ∉ chunks ∧ chunks.flatten = bytes

/-- No bytes come next, but the end or a failure. -/
def Silent (reads : List (Except Failure (List UInt8))) : Prop :=
  ∀ chunk others, reads = .ok chunk :: others → chunk = []

/-- So many times a frame can be sent. -/
def Takes (frame : List UInt8) : Nat → Script → Prop
  | 0, _ => True
  | count + 1, script => (script.send frame).1 = .ok () ∧ (script.send frame).2.Takes frame count

variable {script : Script} {rest : List (Except Failure (List UInt8))}

theorem Feeds.receive {bytes : List UInt8} (h : script.Feeds bytes rest) (hbytes : bytes ≠ []) : ∃ chunk left after,
    script.receive = (.ok chunk, after) ∧ chunk ≠ [] ∧ chunk ++ left = bytes ∧ after.Feeds left rest ∧
      after.ended = script.ended := by
  obtain ⟨chunks, hreads, hchunks, rfl⟩ := h
  cases chunks with
  | nil => exact absurd rfl hbytes
  | cons chunk chunks =>
      rw [List.mem_cons, not_or] at hchunks
      obtain ⟨front, others, hreceive, hfront, hothers, rfl⟩ := receive_chunk (Ne.symm hchunks.1) hreads
      refine ⟨front, others.flatten ++ chunks.flatten, _, hreceive, hfront, ?_, ⟨others ++ chunks, ?_, ?_, ?_⟩, rfl⟩
      · rw [List.flatten_cons, List.append_assoc]
      · rw [List.map_append, List.append_assoc]
        rfl
      · rw [List.mem_append, not_or]
        exact ⟨hothers, hchunks.2⟩
      · rw [List.flatten_append]

theorem Feeds.receive_silent (h : script.Feeds [] rest) (hrest : Silent rest) : ∃ after, after.ended = script.ended ∧
    (script.receive = (.ok [], after) ∨ ∃ failure, script.receive = (.error failure, after)) := by
  obtain ⟨chunks, hreads, hchunks, hflatten⟩ := h
  obtain rfl : chunks = [] :=
    List.eq_nil_iff_forall_not_mem.2 fun chunk hmem => hchunks (List.flatten_eq_nil_iff.1 hflatten chunk hmem ▸ hmem)
  rw [List.map_nil, List.nil_append] at hreads
  subst hreads
  cases hreads : script.reads with
  | nil => exact ⟨script, rfl, .inl (by simp [Script.receive, hreads])⟩
  | cons item others =>
      refine ⟨{ script with reads := others }, rfl, ?_⟩
      cases item with
      | error failure => exact .inr ⟨failure, by simp [Script.receive, hreads]⟩
      | ok chunk =>
          obtain rfl := hrest chunk others hreads
          exact .inl (by simp [Script.receive, hreads])

/-- Whether frames can be sent does not depend on what is read. -/
theorem takes_ended {frame : List UInt8} {count : Nat} : script.ended.Takes frame count ↔ script.Takes frame count := by
  induction count generalizing script with
  | zero => exact Iff.rfl
  | succ count ih => rw [Takes, Takes, send_ended, ih]

theorem takes_congr {after : Script} (h : after.ended = script.ended) {frame : List UInt8} {count : Nat} :
    after.Takes frame count ↔ script.Takes frame count := by
  rw [← takes_ended, h, takes_ended]

theorem written_congr {after : Script} (h : after.ended = script.ended) : after.written = script.written :=
  congrArg (fun script => script.pieces.reverse.flatten) h

/-- What is accepted is a front of the bytes, and all of them unless writing fails. -/
theorem accept_accepts (steps : List (Except Failure Nat)) (bytes : List UInt8) :
    (accept steps bytes).2.1 <+: bytes ∧ ((accept steps bytes).1 = .ok () → (accept steps bytes).2.1 = bytes) := by
  fun_induction accept steps bytes with
  | case1 => exact ⟨List.prefix_rfl, fun _ => rfl⟩
  | case2 => exact ⟨List.prefix_rfl, fun _ => rfl⟩
  | case3 => exact ⟨List.nil_prefix, fun h => by cases h⟩
  | case4 count steps b bytes _ result accepted left haccept ih =>
      rw [haccept] at ih
      refine ⟨?_, fun hok => ?_⟩
      · have hprefix := (List.prefix_append_right_inj ((b :: bytes).take count)).2 ih.1
        rw [List.take_append_drop] at hprefix
        exact hprefix
      · have hrest : accepted = (b :: bytes).drop count := ih.2 hok
        rw [hrest]
        exact List.take_append_drop count (b :: bytes)
  | case5 _ _ _ _ _ ih => exact ih
  | case6 => exact ⟨List.nil_prefix, fun h => by cases h⟩

theorem written_send (script : Script) (bytes : List UInt8) : ∃ accepted,
    (script.send bytes).2.written = script.written ++ accepted ∧ accepted <+: bytes ∧
      ((script.send bytes).1 = .ok () → accepted = bytes) := by
  rcases haccept : accept script.writes bytes with ⟨result, accepted, left⟩
  have haccepts := accept_accepts script.writes bytes
  rw [haccept] at haccepts
  refine ⟨accepted, ?_, haccepts.1, fun hok => haccepts.2 ?_⟩
  · cases result <;> cases hflush : script.flush <;> simp [send, haccept, hflush, written]
  · cases result with
    | ok _ => rfl
    | error failure => simp [send, haccept] at hok

theorem written_of_sent {bytes : List UInt8} {after : Script} (h : script.send bytes = (.ok (), after)) :
    after.written = script.written ++ bytes := by
  obtain ⟨accepted, hwritten, -, hall⟩ := script.written_send bytes
  rw [h] at hwritten hall
  rw [hwritten, hall rfl]

theorem Takes.sent {frame : List UInt8} {count : Nat} (h : script.Takes frame (count + 1)) : ∃ after,
    script.send frame = (.ok (), after) ∧ after.written = script.written ++ frame ∧ after.Takes frame count :=
  have hsend : script.send frame = (.ok (), (script.send frame).2) := Prod.ext h.1 rfl
  ⟨_, hsend, written_of_sent hsend, h.2⟩

end Script

namespace Discovery

open Script (Silent)

/-! ## Single pings -/

section Sent

variable {σ : Type} {line : Line σ} {s : Session σ} {state : σ}

theorem ping_of_sent (hencoding : s.encoding = .text) (htable : s.table = .ofList [])
    (hsent : line.send pingLine s.state = (.ok (), state)) :
    s.ping line =
      ((readResponse line (Exchange.ping.messageName .response) { s with state }).1.map fun _ => (),
        (readResponse line (Exchange.ping.messageName .response) { s with state }).2) := by
  have hnamed : s.table.named? Exchange.ping.name = some .ping := by
    rw [htable]
    rfl
  have hencode : s.encoding.encode .ping .request .empty = .ok pingLine := by
    rw [hencoding]
    exact encode_ping
  rw [ping_eq, request_of_sent hnamed hencode hsent]

theorem ping_of_unsent (hencoding : s.encoding = .text) (htable : s.table = .ofList []) {failure : Failure}
    (hsent : line.send pingLine s.state = (.error failure, state)) :
    s.ping line = (.error (.failure failure), { s with state }) := by
  have hnamed : (ExchangeTable.ofList []).named? Exchange.ping.name = some .ping := rfl
  simp only [ping_eq, request, htable, hnamed, hencoding, encode_ping, hsent, Except.map]

end Sent

/-- A whole line that is read as the answer to a ping. -/
structure Pong (pong : List UInt8) : Prop where
  line : ∃ front, 10 ∉ front ∧ pong = front ++ [10]
  answer : ∃ values, Encoding.text.decode (.ofList []) pong = .ok ⟨Exchange.ping.messageName .response, values⟩

theorem Pong.delimits {pong : List UInt8} (h : Pong pong) : Encoding.text.Delimits pong := by
  obtain ⟨front, hfront, rfl⟩ := h.line
  exact TextLine.delimits hfront

/-- The answer has one spelling, apart from how the line ends. -/
theorem Pong.short {pong : List UInt8} (h : Pong pong) : pong.length ≤ FrameBuffer.maxFrame := by
  obtain ⟨values, hdecode⟩ := h.answer
  obtain ⟨e, he, direction, arguments, ending, hline, hname, _⟩ :=
    (TextLine.decode_eq_ok_iff ⟨List.forall_mem_nil _, .nil⟩).1 hdecode
  obtain ⟨hnames, rfl⟩ := Exchange.messageName_inj.1 hname
  obtain rfl : e = .ping := by
    rcases (ExchangeTable.mem_ofList ⟨List.forall_mem_nil _, .nil⟩).1 he with rfl | rfl | he
    · rfl
    · exact absurd hnames (by decide)
    · cases he
  obtain rfl : arguments = [] := List.map_eq_nil_iff.1 hline.declared.eq_nil
  rw [hline.spelt]
  have hendings : ∀ ending ∈ [[], ['\x0d'], ['\n'], ['\x0d', '\n']],
      (utf8 ((Exchange.ping.messageName .response).toList ++
        '(' :: ([','].intercalate (List.map TextLine.Argument.spelling []) ++ ')' :: ending))).length ≤
      FrameBuffer.maxFrame := by decide +kernel
  exact hendings ending hline.ended

theorem Pong.answers {pong : List UInt8} (h : Pong pong) :
    ((((Encoding.text.decode (.ofList []) pong).mapError .response).bind
      (judge (Exchange.ping.messageName .response))).map fun _ => ()) = .ok () := by
  obtain ⟨values, hdecode⟩ := h.answer
  have hjudge := judge_response (e := .ping) (by decide) values
  rw [hdecode]
  simp only [Except.mapError, Except.bind, hjudge, Except.map]

/-! ## Sessions that wait for bytes -/

/-- A session before a ping that still has these bytes to read, kept or to come. What the script answers with behind them
is the rest. -/
structure Awaiting (rest : List (Except Failure (List UInt8))) (bytes : List UInt8) (s : Session Script) : Prop where
  encoding : s.encoding = .text
  table : s.table = .ofList []
  limit : s.buffer.limit = FrameBuffer.maxFrame
  awaited : ∃ left, s.state.Feeds left rest ∧ s.buffer.bytes ++ left = bytes

variable {rest : List (Except Failure (List UInt8))} {bytes frame : List UInt8} {s : Session Script}
  {state : Script}

theorem Awaiting.send (h : Awaiting rest bytes s) {answer : Except Failure Unit}
    (hsend : s.state.send pingLine = (answer, state)) : Awaiting rest bytes { s with state } := by
  obtain ⟨left, ⟨chunks, hreads, hchunks⟩, hbytes⟩ := h.awaited
  have hsame := s.state.reads_send pingLine
  rw [hsend] at hsame
  exact ⟨h.encoding, h.table, h.limit, left, ⟨chunks, hsame.trans hreads, hchunks⟩, hbytes⟩

/-- The front of what a session waits for is read. -/
theorem Awaiting.read (h : Awaiting rest (frame ++ bytes) s) (hdelimits : Encoding.text.Delimits frame)
    (hlimit : frame.length ≤ FrameBuffer.maxFrame) : ∃ next, readFrame Script.line s = (.ok frame, next) ∧
      Awaiting rest bytes next ∧ next.state.ended = s.state.ended := by
  obtain ⟨left, hfeeds, hbytes⟩ := h.awaited
  have hsupplies : Script.line.Supplies fun state bytes => state.Feeds bytes rest ∧ state.ended = s.state.ended := by
    rintro state bytes ⟨hfeeds, hended⟩ hbytes
    obtain ⟨chunk, left, after, hreceive, hchunk, rfl, hafter, hsame⟩ := hfeeds.receive hbytes
    exact ⟨chunk, left, after, hreceive, hchunk, rfl, hafter, hsame.trans hended⟩
  rw [← h.encoding] at hdelimits
  rw [← h.limit] at hlimit
  obtain ⟨kept, next, behind, hread, ⟨hnext, hended⟩, hkept⟩ :=
    readFrame_supplied hsupplies ⟨hfeeds, rfl⟩ hdelimits hlimit hbytes
  exact ⟨_, hread, ⟨h.encoding, h.table, h.limit, behind, hnext, hkept⟩, hended⟩

theorem readFrame_silent {s : Session Script} {left : List UInt8} (hfeeds : s.state.Feeds left rest) (hrest : Silent rest)
    (hdelimits : s.encoding.Delimits frame) (hlimit : frame.length ≤ s.buffer.limit)
    (hpart : s.buffer.bytes ++ left <+: frame) (hshort : (s.buffer.bytes ++ left).length < frame.length) :
    ∃ fault next, readFrame Script.line s = (.error fault, next) ∧ isGarbage fault = false ∧
      next.state.ended = s.state.ended := by
  -- a part of a frame is all that ever arrives, so the buffer has nothing to give out
  have hwait : s.buffer.next s.encoding = (.ok none, s.buffer) := by
    rw [List.length_append] at hshort
    exact FrameBuffer.next_of_part hdelimits hlimit ((List.prefix_append _ _).trans hpart) (by omega)
  by_cases hleft : left = []
  · subst hleft
    obtain ⟨next, hended, hreceive | ⟨failure, hreceive⟩⟩ := hfeeds.receive_silent hrest
    · exact ⟨_, _, readFrame_of_closed hwait hreceive, rfl, hended⟩
    · exact ⟨_, _, readFrame_of_failure hwait hreceive, rfl, hended⟩
  · obtain ⟨chunk, behind, next, hreceive, hchunk, hfront, hnext, hended⟩ := hfeeds.receive hleft
    rw [← hfront, ← List.append_assoc] at hpart hshort
    obtain ⟨fault, after, hread, hgarbage, hafter⟩ :=
      readFrame_silent (s := { s with buffer := s.buffer.push chunk, state := next }) hnext hrest hdelimits hlimit hpart
        hshort
    rw [readFrame_of_wait hwait hchunk hreceive]
    exact ⟨fault, after, hread, hgarbage, hafter.trans hended⟩
termination_by left.length
decreasing_by
  have hpos := List.length_pos_of_ne_nil hchunk
  rw [← hfront, List.length_append]
  omega

/-- The answer to a ping is the first line that the session waits for. -/
theorem Awaiting.ping (h : Awaiting rest (frame ++ bytes) s) (hsend : s.state.send pingLine = (.ok (), state))
    (hdelimits : Encoding.text.Delimits frame) (hlimit : frame.length ≤ FrameBuffer.maxFrame) :
    ∃ next, s.ping Script.line = ((((Encoding.text.decode (.ofList []) frame).mapError .response).bind
        (judge (Exchange.ping.messageName .response))).map fun _ => (), next) ∧
      Awaiting rest bytes next ∧ next.state.ended = state.ended := by
  obtain ⟨next, hread, hnext, hended⟩ := (h.send hsend).read hdelimits hlimit
  refine ⟨next, ?_, hnext, hended⟩
  rw [ping_of_sent h.encoding h.table hsend, readResponse_eq, hread]
  simp only [hnext.encoding, hnext.table, Except.bind]

theorem Awaiting.ping_stale {stale : List UInt8} (h : Awaiting rest (stale ++ bytes) s)
    (hsend : s.state.send pingLine = (.ok (), state)) (hstale : Stale stale) : ∃ fault next,
      s.ping Script.line = (.error fault, next) ∧ isGarbage fault = true ∧ Awaiting rest bytes next ∧
        next.state.ended = state.ended := by
  obtain ⟨next, hping, hnext⟩ := h.ping hsend hstale.delimits hstale.short
  obtain ⟨fault, hjudge, hgarbage⟩ := hstale.garbage
  rw [hjudge] at hping
  exact ⟨fault, next, hping, hgarbage, hnext⟩

theorem Awaiting.ping_pong {pong : List UInt8} (h : Awaiting rest (pong ++ bytes) s)
    (hsend : s.state.send pingLine = (.ok (), state)) (hpong : Pong pong) : ∃ next,
      s.ping Script.line = (.ok (), next) ∧ Awaiting rest bytes next ∧ next.state.ended = state.ended := by
  obtain ⟨next, hping, hnext⟩ := h.ping hsend hpong.delimits hpong.short
  rw [hpong.answers] at hping
  exact ⟨next, hping, hnext⟩

theorem Awaiting.ping_silent (h : Awaiting rest bytes s) (hsend : s.state.send pingLine = (.ok (), state))
    (hrest : Silent rest) (hdelimits : Encoding.text.Delimits frame) (hlimit : frame.length ≤ FrameBuffer.maxFrame)
    (hpart : bytes <+: frame) (hshort : bytes.length < frame.length) : ∃ fault next,
      s.ping Script.line = (.error fault, next) ∧ isGarbage fault = false ∧ next.state.ended = state.ended := by
  obtain ⟨left, hfeeds, rfl⟩ := (h.send hsend).awaited
  rw [← h.encoding] at hdelimits
  rw [← h.limit] at hlimit
  obtain ⟨fault, next, hread, hgarbage, hended⟩ :=
    readFrame_silent (s := { s with state }) hfeeds hrest hdelimits hlimit hpart hshort
  refine ⟨fault, next, ?_, hgarbage, hended⟩
  rw [ping_of_sent h.encoding h.table hsend, readResponse_eq, hread]
  rfl

/-! ## Pings in a row -/

/-- Pings as `pingUntilAnswered` does: whether the device has answered, and the session behind the last ping. -/
def pinging {σ : Type} (line : Line σ) : Nat → Session σ → Bool × Session σ
  | 0, s => (false, s)
  | attempts + 1, s =>
    match s.ping line with
    | (.ok (), s) => (true, s)
    | (.error fault, s) => if isGarbage fault then pinging line attempts s else (false, s)

theorem pinging_garbage {σ : Type} {line : Line σ} {s next : Session σ} {fault : LinkError}
    (hping : s.ping line = (.error fault, next)) (hgarbage : isGarbage fault = true) (attempts : Nat) :
    pinging line (attempts + 1) s = pinging line attempts next := by
  simp only [pinging, hping, hgarbage, ↓reduceIte]

theorem pinging_failed {σ : Type} {line : Line σ} {s next : Session σ} {fault : LinkError}
    (hping : s.ping line = (.error fault, next)) (hgarbage : isGarbage fault = false) (attempts : Nat) :
    pinging line (attempts + 1) s = (false, next) := by
  simp only [pinging, hping, hgarbage, Bool.false_eq_true, ↓reduceIte]

theorem pingUntilAnswered_eq {σ : Type} (line : Line σ) (attempts : Nat) (s : Session σ) :
    pingUntilAnswered line attempts s =
      if (pinging line attempts s).1 then some (pinging line attempts s).2 else none := by
  fun_induction pinging line attempts s with
  | case1 => rfl
  | case2 attempts s next hping => simp only [pingUntilAnswered, hping, ↓reduceIte]
  | case3 attempts s fault next hping hgarbage ih => simp only [pingUntilAnswered, hping, hgarbage, ↓reduceIte, ih]
  | case4 attempts s fault next hping hgarbage =>
      simp only [pingUntilAnswered, hping, hgarbage, Bool.false_eq_true, ↓reduceIte]

/-- As many pings as they are written. -/
def pingLines (count : Nat) : List UInt8 :=
  (List.replicate count pingLine).flatten

theorem pingLines_succ (count : Nat) : pingLines (count + 1) = pingLine ++ pingLines count := by
  rw [pingLines, List.replicate_succ, List.flatten_cons, pingLines]

theorem pingLines_one : pingLines 1 = pingLine :=
  List.append_nil pingLine

variable {stale : List (List UInt8)}

/-- Every stale line takes one ping, and the answer takes the next. -/
theorem Awaiting.pinging_answered (hstale : ∀ line ∈ stale, Stale line) {pong : List UInt8} (hpong : Pong pong)
    (h : Awaiting rest (stale.flatten ++ (pong ++ bytes)) s) (htakes : s.state.Takes pingLine (stale.length + 1))
    (spare : Nat) : ∃ after, pinging Script.line (spare + (stale.length + 1)) s = (true, after) ∧
      after.state.written = s.state.written ++ pingLines (stale.length + 1) ∧ Awaiting rest bytes after := by
  induction stale generalizing s with
  | nil =>
      obtain ⟨state, hsend, hwritten, -⟩ := htakes.sent
      have hfirst : Awaiting rest (pong ++ bytes) s := h
      obtain ⟨after, hping, hafter, hended⟩ := hfirst.ping_pong hsend hpong
      refine ⟨after, by simp only [pinging, hping], ?_, hafter⟩
      rw [Script.written_congr hended, hwritten, List.length_nil, pingLines_one]
  | cons line stale ih =>
      rw [List.forall_mem_cons] at hstale
      rw [List.flatten_cons, List.append_assoc] at h
      obtain ⟨state, hsend, hwritten, htakes⟩ := htakes.sent
      obtain ⟨fault, next, hping, hgarbage, hnext, hended⟩ := h.ping_stale hsend hstale.1
      obtain ⟨after, hpinging, hafter, hrest⟩ := ih hstale.2 hnext ((Script.takes_congr hended).2 htakes)
      refine ⟨after, (pinging_garbage hping hgarbage _).trans hpinging, ?_, hrest⟩
      rw [hafter, Script.written_congr hended, hwritten, List.append_assoc, ← pingLines_succ, List.length_cons]

/-- Pinging comes to nothing: a ping cannot be sent, or no bytes come any more before the line behind the stale ones is
whole. -/
def BreaksOff (rest : List (Except Failure (List UInt8))) (stale : List (List UInt8)) (bytes : List UInt8)
    (script : Script) : Prop :=
  (stale.flatten <+: bytes ∧ ¬ script.Takes pingLine (stale.length + 1)) ∨
    Silent rest ∧ ∃ front, 10 ∉ front ∧ front.length < FrameBuffer.maxFrame ∧
      bytes <+: stale.flatten ++ (front ++ [10]) ∧ bytes ≠ stale.flatten ++ (front ++ [10])

theorem BreaksOff.congr {script after : Script} (h : BreaksOff rest stale bytes script)
    (hended : after.ended = script.ended) : BreaksOff rest stale bytes after :=
  h.imp_left fun htakes => ⟨htakes.1, fun hafter => htakes.2 ((Script.takes_congr hended).1 hafter)⟩

/-- What comes to nothing does so behind the first line, or this one is never whole. -/
theorem BreaksOff.cons {line : List UInt8} {script after : Script} (h : BreaksOff rest (line :: stale) bytes script)
    (hsend : script.send pingLine = (.ok (), after)) :
    (∃ behind, bytes = line ++ behind ∧ BreaksOff rest stale behind after) ∨
      Silent rest ∧ bytes <+: line ∧ bytes.length < line.length := by
  rcases h with ⟨⟨behind, rfl⟩, htakes⟩ | ⟨hrest, front, hfront, hlength, hpart, hne⟩
  · refine .inl ⟨stale.flatten ++ behind, ?_, .inl ⟨List.prefix_append _ _, fun hafter => htakes ⟨?_, ?_⟩⟩⟩
    · rw [List.flatten_cons, List.append_assoc]
    · rw [hsend]
    · rw [hsend]
      exact hafter
  · rw [List.flatten_cons, List.append_assoc] at hpart hne
    by_cases hshort : bytes.length < line.length
    · exact .inr ⟨hrest, List.prefix_of_prefix_length_le hpart (List.prefix_append _ _) (Nat.le_of_lt hshort), hshort⟩
    · obtain ⟨behind, rfl⟩ :=
        List.prefix_of_prefix_length_le (List.prefix_append line _) hpart (Nat.le_of_not_lt hshort)
      rw [List.prefix_append_right_inj] at hpart
      exact .inl ⟨behind, rfl, .inr ⟨hrest, front, hfront, hlength, hpart, fun hsame => hne (hsame ▸ rfl)⟩⟩

/-- Behind the last of the stale lines, there is no whole line. -/
theorem BreaksOff.nil {script after : Script} (h : BreaksOff rest [] bytes script)
    (hsend : script.send pingLine = (.ok (), after)) : Silent rest ∧ ∃ next, Encoding.text.Delimits next ∧
      next.length ≤ FrameBuffer.maxFrame ∧ bytes <+: next ∧ bytes.length < next.length := by
  rcases h with ⟨_, htakes⟩ | ⟨hrest, front, hfront, hlength, hpart, hne⟩
  · exact absurd ⟨congrArg Prod.fst hsend, trivial⟩ htakes
  · refine ⟨hrest, front ++ [10], TextLine.delimits hfront, ?_, hpart, ?_⟩
    · rw [List.length_append]
      exact hlength
    · exact Nat.lt_of_le_of_ne hpart.length_le fun hsame => hne (hpart.eq_of_length hsame)

/-- Pinging comes to nothing, and no more than a front of these bytes has been written. -/
def GivesUp (attempts : Nat) (s : Session Script) (most : List UInt8) : Prop :=
  ∃ after sent, pinging Script.line attempts s = (false, after) ∧ after.state.written = s.state.written ++ sent ∧
    sent <+: most

variable {attempts : Nat} {most : List UInt8}

theorem Awaiting.givesUp_of_unsent (h : Awaiting rest bytes s) {failure : Failure}
    (hsend : s.state.send pingLine = (.error failure, state)) : GivesUp (attempts + 1) s (pingLine ++ most) := by
  obtain ⟨sent, hwritten, hsent, -⟩ := s.state.written_send pingLine
  rw [hsend] at hwritten
  exact ⟨_, sent, pinging_failed (ping_of_unsent h.encoding h.table hsend) rfl attempts, hwritten,
    hsent.trans (List.prefix_append _ _)⟩

theorem Awaiting.givesUp_of_silent (h : Awaiting rest bytes s) (hsend : s.state.send pingLine = (.ok (), state))
    (hrest : Silent rest) (hdelimits : Encoding.text.Delimits frame) (hlimit : frame.length ≤ FrameBuffer.maxFrame)
    (hpart : bytes <+: frame) (hshort : bytes.length < frame.length) :
    GivesUp (attempts + 1) s (pingLine ++ most) := by
  obtain ⟨fault, after, hping, hgarbage, hended⟩ := h.ping_silent hsend hrest hdelimits hlimit hpart hshort
  exact ⟨after, pingLine, pinging_failed hping hgarbage attempts,
    (Script.written_congr hended).trans (Script.written_of_sent hsend), List.prefix_append _ _⟩

theorem GivesUp.of_garbage {next : Session Script} (h : GivesUp attempts next most)
    (hsend : s.state.send pingLine = (.ok (), state)) {fault : LinkError} (hping : s.ping Script.line = (.error fault, next))
    (hgarbage : isGarbage fault = true) (hended : next.state.ended = state.ended) :
    GivesUp (attempts + 1) s (pingLine ++ most) := by
  obtain ⟨after, sent, hpinging, hwritten, hsent⟩ := h
  refine ⟨after, pingLine ++ sent, (pinging_garbage hping hgarbage attempts).trans hpinging, ?_,
    (List.prefix_append_right_inj pingLine).2 hsent⟩
  rw [hwritten, Script.written_congr hended, Script.written_of_sent hsend, List.append_assoc]

/-- However the pinging breaks off, it takes no more pings than the answer would have. -/
theorem Awaiting.pinging_broken (hstale : ∀ line ∈ stale, Stale line) (h : Awaiting rest bytes s)
    (hbroken : BreaksOff rest stale bytes s.state) (attempts : Nat) :
    GivesUp attempts s (pingLines (stale.length + 1)) := by
  induction attempts generalizing s stale bytes with
  | zero => exact ⟨s, [], rfl, (List.append_nil _).symm, List.nil_prefix⟩
  | succ attempts ih =>
      -- of as many pings as there are lines and one more, this is the first, and the others are left for the rest
      rw [pingLines_succ]
      rcases hsend : s.state.send pingLine with ⟨failure | _, state⟩
      · exact h.givesUp_of_unsent hsend
      · cases stale with
        | nil =>
            obtain ⟨hrest, next, hdelimits, hlimit, hpart, hshort⟩ := hbroken.nil hsend
            exact h.givesUp_of_silent hsend hrest hdelimits hlimit hpart hshort
        | cons line stale =>
            rw [List.forall_mem_cons] at hstale
            rcases hbroken.cons hsend with ⟨behind, rfl, hbehind⟩ | ⟨hrest, hpart, hshort⟩
            · obtain ⟨fault, next, hping, hgarbage, hnext, hended⟩ := h.ping_stale hsend hstale.1
              exact (ih hstale.2 hnext (hbehind.congr hended)).of_garbage hsend hping hgarbage hended
            · exact h.givesUp_of_silent hsend hrest hstale.1.delimits hstale.1.short hpart hshort

/-! ## From the start -/

theorem awaiting_start {script : Script} (h : script.Feeds bytes rest) :
    Awaiting rest bytes (.start script .text []) :=
  ⟨rfl, rfl, rfl, bytes, h, List.nil_append bytes⟩

/-- Behind stale lines, in whatever chunks, the device is found by one ping more than there are lines, and what has been
read behind its answer is kept, and nothing else. If instead a ping cannot be sent, or the line ends or fails before the
line behind the stale ones is whole, then the device is not found, and no more pings than these have been written. -/
theorem pinging_past_garbage {script : Script} {chunks : List (List UInt8)}
    {rest : List (Except Failure (List UInt8))} (hreads : script.reads = chunks.map .ok ++ rest) (hchunks : [] ∉ chunks)
    {stale : List (List UInt8)} (hstale : ∀ line ∈ stale, Stale line) (attempts : Nat) :
    (∀ pong more, Pong pong → chunks.flatten = stale.flatten ++ pong ++ more →
      script.Takes pingLine (stale.length + 1) → stale.length < attempts →
        ∃ s read left, pingUntilAnswered Script.line attempts (.start script .text []) = some s ∧
          s.state.written = script.written ++ pingLines (stale.length + 1) ∧
          chunks.flatten = read ++ left ∧ s.state.Feeds left rest ∧
          read = stale.flatten ++ pong ++ s.buffer.bytes) ∧
    (BreaksOff rest stale chunks.flatten script →
      pingUntilAnswered Script.line attempts (.start script .text []) = none ∧
        ∃ sent, (pinging Script.line attempts (.start script .text [])).2.state.written = script.written ++ sent ∧
          sent <+: pingLines (stale.length + 1)) := by
  have hstart : Awaiting rest chunks.flatten (.start script .text []) := awaiting_start ⟨chunks, hreads, hchunks, rfl⟩
  constructor
  · intro pong more hpong hbytes htakes hattempts
    rw [List.append_assoc] at hbytes
    rw [hbytes] at hstart
    obtain ⟨spare, rfl⟩ := Nat.exists_eq_add_of_le' hattempts
    obtain ⟨s, hpinging, hwritten, hs⟩ := hstart.pinging_answered hstale hpong htakes spare
    obtain ⟨left, hfeeds, hmore⟩ := hs.awaited
    refine ⟨s, stale.flatten ++ pong ++ s.buffer.bytes, left, ?_, hwritten, ?_, hfeeds, rfl⟩
    · rw [pingUntilAnswered_eq, hpinging]
      rfl
    · rw [hbytes, ← hmore]
      simp only [List.append_assoc]
  · intro hbroken
    obtain ⟨after, sent, hpinging, hwritten, hsent⟩ := hstart.pinging_broken hstale hbroken attempts
    rw [pingUntilAnswered_eq, hpinging]
    exact ⟨rfl, sent, hwritten, hsent⟩

theorem pong_pongLine : Pong pongLine where
  line := ⟨"PingResponse()".toUTF8.toList, by decide +kernel, by decide +kernel⟩
  answer := ⟨.empty, pong_decodes ⟨List.forall_mem_nil _, .nil⟩⟩

end Discovery

namespace Bench

/-- A banner, the answer to a ping and the start of another line. -/
def chatter : List (List UInt8) :=
  ["boot ban".toUTF8.toList, "ner\nPingResponse".toUTF8.toList, "()\nMea".toUTF8.toList, "sure".toUTF8.toList]

def unplugged : List (Except Failure (List UInt8)) := [.error ⟨.brokenPipe, "unplugged"⟩]

/-- The line fails behind these chunks. -/
def failing (chunks : List (List UInt8)) : Script :=
  { script with reads := chunks.map .ok ++ unplugged }

end Bench

namespace Discovery

theorem pinging_past_garbage_banner :
    (∃ s read left, pingUntilAnswered Script.line 2 (.start (Bench.failing Bench.chatter) .text []) = some s ∧
      s.state.written = pingLines 2 ∧ Bench.chatter.flatten = read ++ left ∧ s.state.Feeds left Bench.unplugged ∧
      read = [Bench.banner].flatten ++ pongLine ++ s.buffer.bytes) ∧
    pingUntilAnswered Script.line 2 (.start (Bench.failing (Bench.chatter.take 2)) .text []) = none := by
  have hreads : ∀ chunks, (Bench.failing chunks).reads = chunks.map .ok ++ Bench.unplugged := fun _ => rfl
  have hstale : ∀ line ∈ [Bench.banner], Stale line := List.forall_mem_singleton.2 Bench.stale_banner
  constructor
  · obtain ⟨hanswered, _⟩ := pinging_past_garbage (hreads Bench.chatter) (by decide +kernel) hstale 2
    exact hanswered pongLine "Measure".toUTF8.toList pong_pongLine (by decide +kernel)
      ⟨by decide +kernel, by decide +kernel, trivial⟩ (by decide)
  · obtain ⟨_, hbroken⟩ := pinging_past_garbage (hreads (Bench.chatter.take 2)) (by decide +kernel) hstale 2
    have hsilent : Script.Silent Bench.unplugged := fun _ _ h => by cases h
    exact (hbroken (.inr ⟨hsilent, "PingResponse()".toUTF8.toList, by decide +kernel, by decide +kernel,
      by decide +kernel, by decide +kernel⟩)).1

/-- What has arrived with the last bytes of the answer is kept. -/
example : ((pingUntilAnswered Script.line 2 (.start (Bench.failing Bench.chatter) .text [])).map (·.buffer.bytes)) =
    some "Mea".toUTF8.toList := by
  decide +kernel

end Discovery

end SerialContract
