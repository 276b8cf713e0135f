import SerialContract.Proofs.Wire.FrameBuffer

/-!
# What a buffer answers

A buffer that is asked for a frame gives out its front, or waits with no more bytes than the limit, or gives up all
that it holds. This is so of any bytes, malformed ones too, and so a buffer that is asked again and again comes to an
end and never holds on to more than the limit.
-/

namespace SerialContract.FrameBuffer

/-! ## One question -/

/-- The answer of a buffer that is asked for a frame, and the buffer behind it. -/
inductive Answers (encoding : Encoding) (b : FrameBuffer) :
    Except WireError (Option (List UInt8)) × FrameBuffer → Prop
  | frame {frame rest : List UInt8} (nonempty : frame ≠ []) (short : frame.length ≤ b.limit)
      (delimited : encoding.frameLength? b.bytes = some frame.length) (front : b.bytes = frame ++ rest) :
      Answers encoding b (.ok (some frame), { b with bytes := rest })
  | wait (unfinished : ∀ length, encoding.frameLength? b.bytes = some length → b.bytes.length < length)
      (short : b.bytes.length ≤ b.limit) : Answers encoding b (.ok none, b)
  | overflow {length : Nat} (long : b.limit < length)
      (given : (encoding.frameLength? b.bytes).getD b.bytes.length = length) :
      Answers encoding b (.error (.frameTooLong b.limit length), b.clear)

theorem next_answers (encoding : Encoding) (b : FrameBuffer) : Answers encoding b (b.next encoding) := by
  rw [next]
  cases hlength : encoding.frameLength? b.bytes with
  | none =>
      dsimp only
      split
      · next hlong => exact .overflow hlong (by rw [hlength, Option.getD_none])
      · next hshort => exact .wait (fun _ h => by rw [hlength] at h; cases h) (Nat.le_of_not_lt hshort)
  | some length =>
      dsimp only
      split
      · next hlong => exact .overflow hlong (by rw [hlength, Option.getD_some])
      · next hshort =>
        split
        · next hwhole =>
          have hpos := encoding.frameLength?_pos hlength
          refine .frame ?_ (by omega) (by rw [hlength, hwhole]) (List.take_append_drop length b.bytes).symm
          rw [← List.length_pos_iff]
          omega
        · next hpart =>
          rw [List.length_take] at hpart
          refine .wait (fun other h => ?_) (by omega)
          rw [hlength] at h
          cases h
          omega

section Answers

variable {encoding : Encoding} {b after : FrameBuffer} {answer : Except WireError (Option (List UInt8))}

theorem answers_of_next (h : b.next encoding = (answer, after)) : Answers encoding b (answer, after) :=
  h ▸ next_answers encoding b

theorem Answers.limit_eq (h : Answers encoding b (answer, after)) : after.limit = b.limit := by
  cases h <;> rfl

/-- Whoever gets no frame leaves no more bytes than the limit. -/
theorem Answers.length_le (h : Answers encoding b (answer, after)) (hnone : ∀ frame, answer ≠ .ok (some frame)) :
    after.bytes.length ≤ b.limit := by
  cases h with
  | frame => exact absurd rfl (hnone _)
  | wait _ hshort => exact hshort
  | overflow => exact Nat.zero_le _

end Answers

/-- A packet is never longer than the longest frame. -/
theorem frameLength?_binary_le (bytes : List UInt8) :
    (Encoding.binary.frameLength? bytes).getD bytes.length ≤ maxFrame := by
  match bytes with
  | [] => exact Nat.zero_le _
  | [_] => exact Nat.succ_le_succ (Nat.zero_le _)
  | low :: high :: _ =>
      have hlow := low.toNat_lt
      have hhigh := high.toNat_lt
      have hmax : maxFrame = 65538 := rfl
      simp only [Encoding.frameLength?, Packet.frameLength?, Packet.ofLowFirst, Packet.headerWidth, Packet.lengthWidth,
        IdentifierFault.identifierWidth, Option.getD_some]
      omega

theorem next_binary_ne_error {b : FrameBuffer} (hlimit : b.limit = maxFrame) (fault : WireError)
    (after : FrameBuffer) : b.next .binary ≠ (.error fault, after) := by
  intro h
  cases answers_of_next h with
  | overflow hlong hgiven =>
      have hle := frameLength?_binary_le b.bytes
      omega

/-! ## Calls -/

/-- What may be done with a buffer, whose encoding may be another one at every question. -/
inductive Call where
  | push (chunk : List UInt8)
  | next (encoding : Encoding)
  | clear

/-- The buffer behind a call. -/
def after (b : FrameBuffer) : Call → FrameBuffer
  | .push chunk => b.push chunk
  | .next encoding => (b.next encoding).2
  | .clear => b.clear

theorem limit_after (b : FrameBuffer) (call : Call) : (b.after call).limit = b.limit := by
  cases call with
  | push chunk => rfl
  | next encoding => exact (next_answers encoding b).limit_eq
  | clear => rfl

/-- The buffer with a limit that comes of calls. -/
def reached (limit : Nat) (calls : List Call) : FrameBuffer :=
  calls.foldl after ⟨[], limit⟩

theorem limit_reached (limit : Nat) (calls : List Call) : (reached limit calls).limit = limit := by
  have hall : ∀ b : FrameBuffer, (calls.foldl after b).limit = b.limit := by
    induction calls with
    | nil => exact fun b => rfl
    | cons call calls ih => exact fun b => (ih (b.after call)).trans (limit_after b call)
  exact hall _

/-- A line, and behind it the front of a packet that is longer than the limit: that is given up. -/
example : reached 8 [.push [9, 0, 65, 10, 66, 10], .next .text, .push [255, 255], .next .binary] = ⟨[], 8⟩ := by
  decide

/-! ## Questions until there is no frame -/

/-- A buffer is asked, each time with the next of the encodings, until it gives no frame. -/
inductive Drains : (Nat → Encoding) → FrameBuffer → List (List UInt8) → Except WireError (Option (List UInt8)) →
    FrameBuffer → Prop
  | stop {encodings : Nat → Encoding} {b final : FrameBuffer} {answer : Except WireError (Option (List UInt8))}
      (asked : b.next (encodings 0) = (answer, final)) (none : ∀ frame, answer ≠ .ok (some frame)) :
      Drains encodings b [] answer final
  | more {encodings : Nat → Encoding} {b after final : FrameBuffer} {frame : List UInt8} {frames : List (List UInt8)}
      {answer : Except WireError (Option (List UInt8))} (asked : b.next (encodings 0) = (.ok (some frame), after))
      (later : Drains (fun n => encodings (n + 1)) after frames answer final) :
      Drains encodings b (frame :: frames) answer final

/-- Every frame takes bytes away, so a buffer gives no more frames than it has bytes. -/
theorem exists_drains (encodings : Nat → Encoding) (b : FrameBuffer) : ∃ frames answer final,
    Drains encodings b frames answer final ∧ frames.length ≤ b.bytes.length := by
  induction hlength : b.bytes.length using Nat.strong_induction_on generalizing encodings b with
  | _ length ih =>
      subst hlength
      match hnext : b.next (encodings 0) with
      | (.ok (some frame), rest) =>
          have hshorter := length_lt_of_next hnext
          obtain ⟨frames, answer, final, hdrains, hcount⟩ := ih _ hshorter (fun n => encodings (n + 1)) rest rfl
          refine ⟨frame :: frames, answer, final, .more hnext hdrains, ?_⟩
          exact Nat.succ_le_of_lt (Nat.lt_of_le_of_lt hcount hshorter)
      | (.ok none, final) => exact ⟨[], _, final, .stop hnext (by simp), Nat.zero_le _⟩
      | (.error fault, final) => exact ⟨[], _, final, .stop hnext (by simp), Nat.zero_le _⟩

theorem Drains.length_le {encodings : Nat → Encoding} {b final : FrameBuffer} {frames : List (List UInt8)}
    {answer : Except WireError (Option (List UInt8))} (h : Drains encodings b frames answer final) :
    final.bytes.length ≤ b.limit := by
  induction h with
  | stop hasked hnone => exact (answers_of_next hasked).length_le hnone
  | more hasked _ ih => exact (answers_of_next hasked).limit_eq ▸ ih

theorem Drains.answer_eq {encodings : Nat → Encoding} {b final : FrameBuffer} {frames : List (List UInt8)}
    {answer : Except WireError (Option (List UInt8))} (h : Drains encodings b frames answer final) :
    answer = .ok none ∨ ∃ fault, answer = .error fault := by
  induction h with
  | @stop _ _ _ answer _ hnone =>
      match answer with
      | .ok none => exact .inl rfl
      | .ok (some frame) => exact absurd rfl (hnone frame)
      | .error fault => exact .inr ⟨fault, rfl⟩
  | more _ _ ih => exact ih

/-! ## Any calls -/

/-- Whatever has been done with a buffer, a frame that it gives out is its front, which is not empty, within the
limit and as long as the encoding says; a buffer that waits stays as it is, within the limit; one that fails is
empty. Asking on comes to an end with no more bytes than the limit, and with the usual limit no packet is too
long. -/
theorem withstands_any_bytes (limit : Nat) (calls : List Call) :
    (reached limit calls).limit = limit ∧
      (∀ encoding, Answers encoding (reached limit calls) ((reached limit calls).next encoding)) ∧
      (∀ encodings : Nat → Encoding, ∃ frames answer final, Drains encodings (reached limit calls) frames answer final ∧
        frames.length ≤ (reached limit calls).bytes.length ∧ (answer = .ok none ∨ ∃ fault, answer = .error fault) ∧
        final.bytes.length ≤ limit) ∧
      ∀ fault after, (reached maxFrame calls).next .binary ≠ (.error fault, after) := by
  have hlimit := limit_reached limit calls
  refine ⟨hlimit, fun encoding => next_answers encoding _, fun encodings => ?_,
    next_binary_ne_error (limit_reached maxFrame calls)⟩
  obtain ⟨frames, answer, final, hdrains, hcount⟩ := exists_drains encodings (reached limit calls)
  refine ⟨frames, answer, final, hdrains, hcount, hdrains.answer_eq, ?_⟩
  have hle := hdrains.length_le
  rwa [hlimit] at hle

end SerialContract.FrameBuffer
