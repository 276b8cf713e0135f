import Mathlib.Data.List.Basic
import SerialContract.Link.Session
import SerialContract.Proofs.Wire.Answers

/-!
# The traffic of sessions

Every call of a session is a row of single steps: bytes are sent, an answer of the line is received, a frame
is taken out of the buffer. No step loses a byte, so in the end the bytes that have come in are the frames
that have been taken out and then those that are still kept.
-/

namespace SerialContract

namespace FrameBuffer

variable {encoding : Encoding} {b after : FrameBuffer}

theorem push_nil (b : FrameBuffer) : b.push [] = b := by
  rw [push, List.append_nil]

/-- A frame that is given out is the front of the buffer, as long as the encoding says. -/
theorem next_eq_some {frame : List UInt8} (h : b.next encoding = (.ok (some frame), after)) :
    encoding.frameLength? b.bytes = some frame.length ∧ frame.length ≤ b.limit ∧
      b.bytes = frame ++ after.bytes ∧ after.limit = b.limit := by
  cases answers_of_next h with
  | frame _ hshort hdelimited hfront => exact ⟨hdelimited, hshort, hfront, rfl⟩

/-- What makes a buffer fail is a frame that is too long. -/
theorem next_eq_error {fault : WireError} (h : b.next encoding = (.error fault, after)) :
    ∃ limit length, fault = .frameTooLong limit length := by
  cases answers_of_next h with
  | overflow => exact ⟨_, _, rfl⟩

end FrameBuffer

namespace Session

variable {σ : Type} {line : Line σ}

/-! ## Single steps -/

/-- What passes between a session, its line and its buffer. -/
inductive Event where
  | sent (bytes : List UInt8) (answer : Except Failure Unit)
  | received (answer : Except Failure (List UInt8))
  | taken (frame : List UInt8)
  | switched (encoding : Encoding) (exchanges : List Exchange)

inductive Step (line : Line σ) : Session σ → Event → Session σ → Prop where
  | send {s bytes answer state} : line.send bytes s.state = (answer, state) →
      Step line s (.sent bytes answer) { s with state }
  | receive {s chunk state} : line.receive s.state = (.ok chunk, state) →
      Step line s (.received (.ok chunk)) { s with buffer := s.buffer.push chunk, state }
  | fail {s failure state} : line.receive s.state = (.error failure, state) →
      Step line s (.received (.error failure)) { s with state }
  | take {s frame buffer} : s.buffer.next s.encoding = (.ok (some frame), buffer) →
      Step line s (.taken frame) { s with buffer }
  | switch (s : Session σ) (encoding exchanges) :
      Step line s (.switched encoding exchanges) (s.withExchanges encoding exchanges)

inductive Steps (line : Line σ) : Session σ → List Event → Session σ → Prop where
  | nil (s) : Steps line s [] s
  | cons {s t u event log} : Step line s event t → Steps line t log u → Steps line s (event :: log) u

/-- The bytes that have come in. -/
def received : List Event → List UInt8
  | [] => []
  | .received (.ok chunk) :: log => chunk ++ received log
  | _ :: log => received log

/-- The frames that have been taken out. -/
def taken : List Event → List (List UInt8)
  | [] => []
  | .taken frame :: log => frame :: taken log
  | _ :: log => taken log

variable {s t u : Session σ} {log : List Event}

theorem Steps.single {event : Event} (h : Step line s event t) : Steps line s [event] t :=
  .cons h (.nil t)

theorem Steps.append {later : List Event} (h : Steps line s log t) (hlater : Steps line t later u) :
    Steps line s (log ++ later) u := by
  induction h with
  | nil => exact hlater
  | cons hstep _ ih => exact .cons hstep (ih hlater)

theorem Step.conserves {event : Event} (h : Step line s event t) :
    s.buffer.bytes ++ received [event] = (taken [event]).flatten ++ t.buffer.bytes := by
  cases h with
  | send _ => simp [received, taken]
  | receive _ => simp [received, taken, FrameBuffer.push]
  | fail _ => simp [received, taken]
  | take hnext => simp [received, taken, (FrameBuffer.next_eq_some hnext).2.2.1]
  | switch _ _ => simp [received, taken, withExchanges]

theorem received_append (log later : List Event) : received (log ++ later) = received log ++ received later := by
  fun_induction received log with
  | case1 => rfl
  | case2 chunk log ih => simp only [List.cons_append, received, ih, List.append_assoc]
  | case3 event log hne ih => rw [List.cons_append, received.eq_3 _ _ hne, ih]

theorem taken_append (log later : List Event) : taken (log ++ later) = taken log ++ taken later := by
  fun_induction taken log with
  | case1 => rfl
  | case2 frame log ih => simp only [List.cons_append, taken, ih]
  | case3 event log hne ih => rw [List.cons_append, taken.eq_3 _ _ hne, ih]

/-- No byte is lost: what was kept and what has come in are the frames taken out and what is kept. -/
theorem Steps.conserves (h : Steps line s log t) :
    s.buffer.bytes ++ received log = (taken log).flatten ++ t.buffer.bytes := by
  induction h with
  | nil s => simp [received, taken]
  | @cons s t u event log hstep _ ih =>
      rw [← List.singleton_append, received_append, taken_append, List.flatten_append, ← List.append_assoc,
        hstep.conserves, List.append_assoc, ih, List.append_assoc]

/-! ## Calls -/

/-- What is asked of a session. To take over a contract is to switch to its encoding and its exchanges. -/
inductive Call where
  | request (name : String) (values : FieldValues)
  | ping
  | switch (encoding : Encoding) (exchanges : List Exchange)

inductive Outcome where
  | response (result : Except LinkError Response)
  | pong (result : Except LinkError Unit)
  | switched
  deriving DecidableEq

def perform (line : Line σ) (s : Session σ) : Call → Outcome × Session σ
  | .request name values => ((.response (request line name values s).1), (request line name values s).2)
  | .ping => (.pong (ping line s).1, (ping line s).2)
  | .switch encoding exchanges => (.switched, s.withExchanges encoding exchanges)

def run (line : Line σ) (s : Session σ) : List Call → List Outcome × Session σ
  | [] => ([], s)
  | call :: calls =>
    let (outcome, s) := perform line s call
    let (outcomes, s) := run line s calls
    (outcome :: outcomes, s)

/-- How a call ends: a message was read, the line broke off, nothing was sent, only the encoding and the
exchanges were changed, or what arrived was longer than any message. -/
inductive Ending where
  | answered
  | interrupted
  | refused
  | switched
  | overlong
  deriving DecidableEq

def endingOf : LinkError → Ending
  | .reported _ | .unexpected _ _ => .answered
  | .response (.frameTooLong _ _) => .overlong
  | .response _ => .answered
  | .failure _ | .closed => .interrupted
  | .unknownExchange _ | .request _ | .noDevice _ => .refused

def ending {α : Type} : Except LinkError α → Ending
  | .ok _ => .answered
  | .error e => endingOf e

def Outcome.ending : Outcome → Ending
  | .response result => Session.ending result
  | .pong result => Session.ending result
  | .switched => .switched

/-- What the log of a call from one session to another comes to, by the way the call ended. -/
def Accounts (s : Session σ) (log : List Event) (t : Session σ) : Ending → Prop
  | .answered => ∃ frame, taken log = [frame]
  | .interrupted => taken log = [] ∧ t.buffer.bytes = s.buffer.bytes ++ received log
  | .refused => log = [] ∧ t = s
  | .switched => received log = [] ∧ taken log = [] ∧ t.buffer = s.buffer ∧ t.state = s.state
  | .overlong => False

theorem Steps.interrupted (h : Steps line s log t) (htaken : taken log = []) : Accounts s log t .interrupted := by
  have hbytes := h.conserves
  rw [htaken] at hbytes
  exact ⟨htaken, hbytes.symm⟩

/-- Reading takes one frame, or the line breaks off before there is a whole one. -/
theorem readFrame_steps (line : Line σ) (s : Session σ) : ending (readFrame line s).1 = .overlong ∨
    ∃ log, Steps line s log (readFrame line s).2 ∧
      ((∃ frame, (readFrame line s).1 = .ok frame ∧ taken log = [frame]) ∨
        ending (readFrame line s).1 = .interrupted ∧ taken log = []) := by
  fun_induction readFrame line s with
  | case1 s frame buffer hnext => exact .inr ⟨_, .single (.take hnext), .inl ⟨frame, rfl, rfl⟩⟩
  | case2 s fault buffer hnext =>
      obtain ⟨limit, length, rfl⟩ := FrameBuffer.next_eq_error hnext
      exact .inl rfl
  | case3 s buffer hnext failure state hreceive =>
      exact .inr ⟨_, .single (.fail hreceive), .inr ⟨rfl, rfl⟩⟩
  | case4 s buffer hnext state hreceive =>
      have hstep := Steps.single (Step.receive hreceive)
      rw [FrameBuffer.push_nil] at hstep
      exact .inr ⟨_, hstep, .inr ⟨rfl, rfl⟩⟩
  | case5 s buffer hnext b bytes state hreceive ih =>
      refine ih.imp id ?_
      rintro ⟨log, hsteps, htaken⟩
      exact ⟨_, .cons (.receive hreceive) hsteps, htaken⟩

theorem ending_judge (expected : String) (message : Message) : ending (judge expected message) = .answered := by
  rw [judge]
  split
  · split <;> rfl
  · split <;> rfl

/-- Whatever message a frame is read as, or even if it is none, the frame is gone. -/
theorem readResponse_steps (line : Line σ) (expected : String) (s : Session σ) :
    ending (readResponse line expected s).1 = .overlong ∨ ∃ log, Steps line s log (readResponse line expected s).2 ∧
      (ending (readResponse line expected s).1 = .answered ∧ (∃ frame, taken log = [frame]) ∨
        ending (readResponse line expected s).1 = .interrupted ∧ taken log = []) := by
  have hread := readFrame_steps line s
  rw [readResponse]
  split
  · next e after heq =>
    rw [heq] at hread
    rcases hread with hlong | ⟨log, hsteps, ⟨frame, hframe, _⟩ | hbroken⟩
    · exact .inl hlong
    · cases hframe
    · exact .inr ⟨log, hsteps, .inr hbroken⟩
  · next frame after heq =>
    rw [heq] at hread
    rcases hread with hlong | ⟨log, hsteps, ⟨_, hframe, htaken⟩ | ⟨hbroken, _⟩⟩
    · cases hlong
    · split
      · next fault hdecode =>
        cases fault with
        | frameTooLong _ _ => exact .inl rfl
        | _ => exact .inr ⟨log, hsteps, .inl ⟨rfl, _, htaken⟩⟩
      · exact .inr ⟨log, hsteps, .inl ⟨ending_judge _ _, _, htaken⟩⟩
    · cases hbroken

theorem request_accounts (line : Line σ) (name : String) (values : FieldValues) (s : Session σ) :
    ending (request line name values s).1 = .overlong ∨ ∃ log, Steps line s log (request line name values s).2 ∧
      Accounts s log (request line name values s).2 (ending (request line name values s).1) := by
  rw [request]
  split
  · exact .inr ⟨[], .nil s, rfl, rfl⟩
  · next e _ =>
    split
    · exact .inr ⟨[], .nil s, rfl, rfl⟩
    · split
      · next hsend =>
        have hstep := Steps.single (Step.send hsend)
        exact .inr ⟨_, hstep, hstep.interrupted rfl⟩
      · next state hsend =>
        refine (readResponse_steps line (e.messageName .response) { s with state }).imp id ?_
        rintro ⟨log, hsteps, ⟨hending, frame, htaken⟩ | ⟨hending, htaken⟩⟩
        · rw [hending]
          exact ⟨_, .cons (.send hsend) hsteps, frame, htaken⟩
        · rw [hending]
          have hall := Steps.cons (Step.send hsend) hsteps
          exact ⟨_, hall, hall.interrupted htaken⟩

theorem ping_eq (line : Line σ) (s : Session σ) :
    ping line s = ((request line Exchange.ping.name .empty s).1.map fun _ => (),
      (request line Exchange.ping.name .empty s).2) := by
  rw [ping]
  split
  · next heq =>
    rw [heq]
    rfl
  · next heq =>
    rw [heq]
    rfl

theorem ending_map {α β : Type} (f : α → β) (result : Except LinkError α) : ending (result.map f) = ending result := by
  cases result <;> rfl

theorem perform_accounts (line : Line σ) (s : Session σ) (call : Call) :
    (perform line s call).1.ending = .overlong ∨ ∃ log, Steps line s log (perform line s call).2 ∧
      Accounts s log (perform line s call).2 (perform line s call).1.ending := by
  cases call with
  | request name values => exact request_accounts line name values s
  | ping =>
      simp only [perform, Outcome.ending, ping_eq, ending_map]
      exact request_accounts line Exchange.ping.name .empty s
  | switch encoding exchanges =>
      exact .inr ⟨_, .single (.switch s encoding exchanges), rfl, rfl, rfl, rfl⟩

/-! ## Runs -/

/-- Calls one after another, each with its log. -/
inductive Recorded (line : Line σ) : Session σ → List Call → List (List Event) → Session σ → Prop where
  | nil (s : Session σ) : Recorded line s [] [] s
  | cons {s t : Session σ} {call calls log logs} : Steps line s log (perform line s call).2 →
      Accounts s log (perform line s call).2 (perform line s call).1.ending →
      Recorded line (perform line s call).2 calls logs t → Recorded line s (call :: calls) (log :: logs) t

theorem Recorded.steps {calls : List Call} {logs : List (List Event)} (h : Recorded line s calls logs t) :
    Steps line s logs.flatten t := by
  induction h with
  | nil s => exact .nil s
  | cons hsteps _ _ ih => exact hsteps.append ih

theorem run_recorded {calls : List Call} (h : ∀ o ∈ (run line s calls).1, o.ending ≠ .overlong) :
    ∃ logs, Recorded line s calls logs (run line s calls).2 := by
  induction calls generalizing s with
  | nil => exact ⟨[], .nil s⟩
  | cons call calls ih =>
      rw [run, List.forall_mem_cons] at h
      rcases perform_accounts line s call with hlong | ⟨log, hsteps, haccounts⟩
      · exact absurd hlong h.1
      · obtain ⟨logs, hlogs⟩ := ih h.2
        exact ⟨log :: logs, .cons hsteps haccounts hlogs⟩

end Session

end SerialContract
