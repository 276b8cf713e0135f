import SerialContract.Link.Session
import SerialContract.Proofs.Wire.Answers

/-!
# Reading comes to an end

A session that reads a frame receives until its buffer gives one out or gives up. No number of reads is fixed: reading
ends because every chunk makes the buffer longer, and a buffer that waits keeps to its limit. So the room that is left
in the buffer bounds the number of reads, whatever the line answers.
-/

namespace SerialContract

/-- What a line answers to reads one after another, on the way from one state to another. -/
inductive Line.Receives {σ : Type} (line : Line σ) : σ → List (Except Failure (List UInt8)) → σ → Prop
  | nil (state : σ) : Receives line state [] state
  | cons {state next final : σ} {answer : Except Failure (List UInt8)} {answers : List (Except Failure (List UInt8))} :
      line.receive state = (answer, next) → Receives line next answers final →
      Receives line state (answer :: answers) final

theorem Line.Receives.exists_state {σ : Type} {line : Line σ} {state final : σ}
    {answers : List (Except Failure (List UInt8))} (h : line.Receives state answers final)
    {answer : Except Failure (List UInt8)} (hmem : answer ∈ answers) : ∃ state, (line.receive state).1 = answer := by
  induction h with
  | nil => cases hmem
  | @cons state _ _ _ _ hreceive _ ih =>
      rcases List.mem_cons.1 hmem with rfl | hmem
      · exact ⟨state, congrArg Prod.fst hreceive⟩
      · exact ih hmem

namespace Session

/-- Bytes that are no frame yet, and not too many for one. -/
structure Unfinished (encoding : Encoding) (bytes : List UInt8) : Prop where
  incomplete : ∀ length, encoding.frameLength? bytes = some length → bytes.length < length
  short : bytes.length ≤ FrameBuffer.maxFrame

/-- Chunks that are received behind bytes that are held: none is empty, and each is asked for because there is no frame
in what is held by then. -/
inductive Awaited (encoding : Encoding) : List UInt8 → List (List UInt8) → Prop
  | nil (held : List UInt8) : Awaited encoding held []
  | cons {held chunk : List UInt8} {chunks : List (List UInt8)} (unfinished : Unfinished encoding held)
      (nonempty : chunk ≠ []) (later : Awaited encoding (held ++ chunk) chunks) :
      Awaited encoding held (chunk :: chunks)

/-- What reading a frame comes to, and the bytes that are left, by the bytes that are held and the answers of the line.
The frame stands in front of all that is held and received, as long as the encoding says. Only text can be too long
for a frame. There are bytes in all answers, except that the last may be the end of the line or a failure; then what is
held and received stays. -/
inductive Ends (encoding : Encoding) (held : List UInt8) :
    List (Except Failure (List UInt8)) → Except LinkError (List UInt8) → List UInt8 → Prop
  | frame {chunks : List (List UInt8)} {frame rest : List UInt8} (awaited : Awaited encoding held chunks)
      (front : held ++ chunks.flatten = frame ++ rest)
      (delimited : encoding.frameLength? (held ++ chunks.flatten) = some frame.length)
      (short : frame.length ≤ FrameBuffer.maxFrame) : Ends encoding held (chunks.map .ok) (.ok frame) rest
  | overlong {chunks : List (List UInt8)} {length : Nat} (awaited : Awaited encoding held chunks)
      (text : encoding = .text)
      (given : (encoding.frameLength? (held ++ chunks.flatten)).getD (held ++ chunks.flatten).length = length)
      (long : FrameBuffer.maxFrame < length) :
      Ends encoding held (chunks.map .ok) (.error (.response (.frameTooLong FrameBuffer.maxFrame length))) []
  | closed {chunks : List (List UInt8)} (awaited : Awaited encoding held chunks)
      (unfinished : Unfinished encoding (held ++ chunks.flatten)) :
      Ends encoding held (chunks.map .ok ++ [.ok []]) (.error .closed) (held ++ chunks.flatten)
  | failed {chunks : List (List UInt8)} {failure : Failure} (awaited : Awaited encoding held chunks)
      (unfinished : Unfinished encoding (held ++ chunks.flatten)) :
      Ends encoding held (chunks.map .ok ++ [.error failure]) (.error (.failure failure)) (held ++ chunks.flatten)

variable {σ : Type} {line : Line σ} {encoding : Encoding} {held chunk : List UInt8}

theorem unfinished_of_next {b after : FrameBuffer} (hlimit : b.limit = FrameBuffer.maxFrame)
    (h : b.next encoding = (.ok none, after)) : Unfinished encoding b.bytes := by
  cases FrameBuffer.answers_of_next h with
  | wait incomplete short => exact ⟨incomplete, hlimit ▸ short⟩

/-- A buffer that waits has room for one more read. -/
theorem Unfinished.one_le_room (h : Unfinished encoding held) : 1 ≤ FrameBuffer.maxFrame + 1 - held.length :=
  Nat.le_sub_of_add_le' (Nat.succ_le_succ h.short)

/-- What is received first is held from then on. -/
theorem Ends.cons {answers : List (Except Failure (List UInt8))} {result : Except LinkError (List UInt8)}
    {left : List UInt8} (hheld : Unfinished encoding held) (hchunk : chunk ≠ [])
    (h : Ends encoding (held ++ chunk) answers result left) :
    Ends encoding held (.ok chunk :: answers) result left := by
  cases h with
  | @frame chunks _ _ awaited front delimited short =>
      rw [List.append_assoc, ← List.flatten_cons] at front delimited
      exact .frame (.cons hheld hchunk awaited) front delimited short
  | @overlong chunks _ awaited text given long =>
      rw [List.append_assoc, ← List.flatten_cons] at given
      exact .overlong (.cons hheld hchunk awaited) text given long
  | @closed chunks awaited unfinished =>
      rw [List.append_assoc, ← List.flatten_cons] at unfinished ⊢
      exact .closed (.cons hheld hchunk awaited) unfinished
  | @failed chunks _ awaited unfinished =>
      rw [List.append_assoc, ← List.flatten_cons] at unfinished ⊢
      exact .failed (.cons hheld hchunk awaited) unfinished

/-- Where all answers are bytes, neither the end of the line nor a failure ends the reading. -/
theorem Ends.of_chunks {answers : List (Except Failure (List UInt8))} {result : Except LinkError (List UInt8)}
    {left : List UInt8} (h : Ends encoding held answers result left)
    (hanswers : ∀ answer ∈ answers, ∃ chunk, chunk ≠ [] ∧ answer = .ok chunk) :
    ∃ chunks : List (List UInt8), answers = chunks.map .ok ∧
      ((∃ frame, result = .ok frame ∧ held ++ chunks.flatten = frame ++ left ∧
          encoding.frameLength? (held ++ chunks.flatten) = some frame.length ∧ frame.length ≤ FrameBuffer.maxFrame) ∨
        encoding = .text ∧ ∃ length, FrameBuffer.maxFrame < length ∧
          result = .error (.response (.frameTooLong FrameBuffer.maxFrame length))) := by
  cases h with
  | @frame chunks frame _ _ front delimited short =>
      exact ⟨chunks, rfl, .inl ⟨frame, rfl, front, delimited, short⟩⟩
  | @overlong chunks length _ text _ long => exact ⟨chunks, rfl, .inr ⟨text, length, long, rfl⟩⟩
  | closed _ =>
      obtain ⟨chunk, hne, hchunk⟩ := hanswers (.ok []) (by simp)
      cases hchunk
      exact absurd rfl hne
  | @failed _ failure _ =>
      obtain ⟨chunk, _, hchunk⟩ := hanswers (.error failure) (by simp)
      cases hchunk

/-- Each read finds the buffer within its limit and leaves it longer. -/
theorem readFrame_ends (line : Line σ) {s : Session σ} (hlimit : s.buffer.limit = FrameBuffer.maxFrame) :
    ∃ answers, line.Receives s.state answers (readFrame line s).2.state ∧
      answers.length ≤ FrameBuffer.maxFrame + 1 - s.buffered ∧
      Ends s.encoding s.buffer.bytes answers (readFrame line s).1 (readFrame line s).2.buffer.bytes := by
  fun_induction readFrame line s with
  | case1 s frame buffer hnext =>
      refine ⟨[], .nil _, Nat.zero_le _, ?_⟩
      cases FrameBuffer.answers_of_next hnext with
      | frame _ hshort hdelimited hfront =>
          have hheld := List.append_nil s.buffer.bytes
          exact .frame (.nil _) (hheld.trans hfront) (hheld.symm ▸ hdelimited) (hlimit ▸ hshort)
  | case2 s fault buffer hnext =>
      refine ⟨[], .nil _, Nat.zero_le _, ?_⟩
      have htext : s.encoding = .text := by
        cases hencoding : s.encoding with
        | text => rfl
        | binary =>
            rw [hencoding] at hnext
            exact absurd hnext (FrameBuffer.next_binary_ne_error hlimit fault buffer)
      cases FrameBuffer.answers_of_next hnext with
      | overflow hlong hgiven =>
          rw [hlimit] at hlong ⊢
          exact .overlong (.nil _) htext (by rw [List.flatten_nil, List.append_nil, hgiven]) hlong
  | case3 s buffer hnext failure state hreceive =>
      have hheld := unfinished_of_next hlimit hnext
      have hends : Ends s.encoding s.buffer.bytes [.error failure] (.error (.failure failure)) _ :=
        .failed (.nil _) (by simpa using hheld)
      exact ⟨[.error failure], .cons hreceive (.nil state), hheld.one_le_room, by simpa using hends⟩
  | case4 s buffer hnext state hreceive =>
      have hheld := unfinished_of_next hlimit hnext
      have hends : Ends s.encoding s.buffer.bytes [.ok []] (.error .closed) _ :=
        .closed (.nil _) (by simpa using hheld)
      exact ⟨[.ok []], .cons hreceive (.nil state), hheld.one_le_room, by simpa using hends⟩
  | case5 s buffer hnext b bytes state hreceive ih =>
      have hheld := unfinished_of_next hlimit hnext
      obtain ⟨answers, hreceives, hlength, hends⟩ := ih hlimit
      refine ⟨.ok (b :: bytes) :: answers, .cons hreceive hreceives, ?_, hends.cons hheld (List.cons_ne_nil b bytes)⟩
      have hshort := hheld.short
      simp only [buffered, FrameBuffer.push, List.length_append, List.length_cons] at hlength ⊢
      omega

/-- The session with these bytes, which have arrived and are not used yet. -/
def holding (s : Session σ) (bytes : List UInt8) : Session σ :=
  { s with buffer := FrameBuffer.empty.push bytes }

/-- Whatever has arrived and whatever the line answers, a session makes at most one read more than its buffer has room,
and comes to a frame that stands in front of all that was held and received, to text that is too long for one, to the
end of the line or to a failure. On a line that never stops sending it comes to a frame or to text that is too long. -/
theorem reading_stops (line : Line σ) (s : Session σ) (bytes : List UInt8) :
    ∃ answers left, line.Receives s.state answers (readFrame line (s.holding bytes)).2.state ∧
      answers.length ≤ FrameBuffer.maxFrame + 1 - (s.holding bytes).buffered ∧
      (readFrame line (s.holding bytes)).2.buffer.bytes = left ∧
      Ends s.encoding bytes answers (readFrame line (s.holding bytes)).1 left ∧
      ((∀ state, ∃ chunk, chunk ≠ [] ∧ (line.receive state).1 = .ok chunk) →
        ∃ chunks : List (List UInt8), answers = chunks.map .ok ∧
          ((∃ frame, (readFrame line (s.holding bytes)).1 = .ok frame ∧ bytes ++ chunks.flatten = frame ++ left ∧
              s.encoding.frameLength? (bytes ++ chunks.flatten) = some frame.length ∧
              frame.length ≤ FrameBuffer.maxFrame) ∨
            s.encoding = .text ∧ ∃ length, FrameBuffer.maxFrame < length ∧
              (readFrame line (s.holding bytes)).1 = .error (.response (.frameTooLong FrameBuffer.maxFrame length)))) := by
  obtain ⟨answers, hreceives, hlength, hends⟩ := readFrame_ends line (s := s.holding bytes) rfl
  refine ⟨answers, _, hreceives, hlength, rfl, hends, fun hsending => hends.of_chunks fun answer hanswer => ?_⟩
  obtain ⟨state, rfl⟩ := hreceives.exists_state hanswer
  exact hsending state

end Session

namespace Bench

/-- A line that sends zeros one by one without end; its state is their number. -/
def zeros : Line Nat where
  send _ count := (.ok (), count)
  receive count := (.ok [0], count + 1)

end Bench

namespace Session

theorem reading_stops_zeros : ∃ (chunks : List (List UInt8)) (frame left : List UInt8),
    (readFrame Bench.zeros (holding (.start 0 .binary []) [5])).1 = .ok frame ∧ [5] ++ chunks.flatten = frame ++ left ∧
      Encoding.binary.frameLength? ([5] ++ chunks.flatten) = some frame.length ∧
      chunks.length ≤ FrameBuffer.maxFrame := by
  obtain ⟨answers, left, _, hlength, _, _, hsending⟩ := reading_stops Bench.zeros (.start 0 .binary []) [5]
  obtain ⟨chunks, rfl, ⟨frame, hread, hfront, hdelimited, _⟩ | ⟨htext, _⟩⟩ :=
    hsending fun count => ⟨[0], List.cons_ne_nil 0 [], rfl⟩
  · rw [List.length_map] at hlength
    exact ⟨chunks, frame, left, hread, hfront, hdelimited, hlength⟩
  · cases htext

/-- The first byte that has arrived announces a packet of eight. -/
example : (readFrame Bench.zeros (holding (.start 0 .binary []) [5])).2.state = 7 := by decide +kernel

end Session

end SerialContract
