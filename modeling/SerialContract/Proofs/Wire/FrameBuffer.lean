import SerialContract.Proofs.Wire.Packet
import SerialContract.Proofs.Wire.TextLine
import SerialContract.Wire.FrameBuffer

/-!
# Frames put together again

A written message tells where it ends, and no part of it tells anything else. So a buffer that starts
at the front of a frame gives out frame after frame, in whatever pieces the bytes arrive and whenever
it is asked.
-/

namespace SerialContract

/-! ## Frames that tell their length -/

/-- The bytes of a frame tell its length, whatever stands behind them; fewer bytes tell nothing or the
same length. -/
structure Encoding.Delimits (encoding : Encoding) (frame : List UInt8) : Prop where
  nonempty : frame ≠ []
  whole : ∀ rest, encoding.frameLength? (frame ++ rest) = some frame.length
  part : ∀ front, front <+: frame → front.length < frame.length →
    encoding.frameLength? front = none ∨ encoding.frameLength? front = some frame.length

theorem TextLine.frameLength?_append {front : List UInt8} (h : 10 ∉ front) (rest : List UInt8) :
    frameLength? (front ++ 10 :: rest) = some (front.length + 1) := by
  induction front with
  | nil => rfl
  | cons b front ih =>
      rw [List.mem_cons, not_or] at h
      have hrest := ih h.2
      simp only [frameLength?, Option.map_eq_some_iff, Nat.add_right_cancel_iff, exists_eq_right] at hrest
      simp [frameLength?, List.findIdx?_cons, Ne.symm h.1, hrest]

theorem TextLine.frameLength?_eq_none {front : List UInt8} (h : 10 ∉ front) : frameLength? front = none := by
  simp only [frameLength?, Option.map_eq_none_iff, List.findIdx?_eq_none_iff]
  intro b hb
  rw [beq_eq_false_iff_ne]
  rintro rfl
  exact h hb

theorem TextLine.delimits {front : List UInt8} (h : 10 ∉ front) : Encoding.text.Delimits (front ++ [10]) := by
  refine ⟨by simp, fun rest => ?_, fun part hpart hshort => ?_⟩
  · simpa [Encoding.frameLength?] using frameLength?_append h rest
  · left
    have hfront : part <+: front :=
      List.prefix_of_prefix_length_le hpart (List.prefix_append front [10])
        (Nat.le_of_lt_succ (by simpa using hshort))
    exact frameLength?_eq_none fun hmem => h (hfront.subset hmem)

theorem Packet.delimits {low high byte : UInt8} {payload : List UInt8}
    (h : ofLowFirst [low, high] = payload.length) :
    Encoding.binary.Delimits (low :: high :: byte :: payload) := by
  have hlength : headerWidth + ofLowFirst [low, high] = (low :: high :: byte :: payload).length := by
    rw [h, Nat.add_comm]
    rfl
  refine ⟨by simp, fun rest => congrArg some hlength, fun part hpart _ => ?_⟩
  match part with
  | [] => exact .inl rfl
  | [first] => exact .inl rfl
  | first :: second :: rest =>
      obtain ⟨rfl, hrest⟩ := List.cons_prefix_cons.1 hpart
      obtain ⟨rfl, _⟩ := List.cons_prefix_cons.1 hrest
      exact .inr (congrArg some hlength)

theorem Encoding.frameLength?_pos (encoding : Encoding) {bytes : List UInt8} {length : Nat}
    (h : encoding.frameLength? bytes = some length) : 0 < length := by
  cases encoding with
  | text =>
      obtain ⟨index, _, rfl⟩ := Option.map_eq_some_iff.1 h
      exact Nat.succ_pos index
  | binary =>
      match bytes with
      | [] => cases h
      | [_] => cases h
      | low :: high :: _ =>
          cases h
          exact Nat.add_pos_left (by decide) _

section Encode

variable {es : List Exchange} {e : Exchange} {encoding : Encoding} {direction : Direction}
  {values : FieldValues} {frame : List UInt8}

theorem Encoding.delimits_of_encode (hes : ValidExchanges es) (he : e ∈ (ExchangeTable.ofList es).exchanges)
    (h : encoding.encode e direction values = .ok frame) : encoding.Delimits frame := by
  cases encoding with
  | text =>
      obtain ⟨entries, arguments, hwritten⟩ := TextLine.written_of_encode h
      have hinner := fun c => hwritten.inner_body (TextLine.speakable_of_mem hes he) (c := c)
      rw [hwritten.bytes_eq_body, utf8_append]
      refine TextLine.delimits fun hmem => ?_
      rw [utf8_eq_map fun c hc => (hinner c hc).1] at hmem
      obtain ⟨c, hc, hten⟩ := List.mem_map.1 hmem
      have hnat := congrArg UInt8.toNat hten
      rw [toNat_ofNat_of_lt (hinner c hc).1] at hnat
      exact (hinner c hc).2 (Char.toNat_inj.1 hnat)
  | binary =>
      obtain ⟨b, entries, payload, hpacked⟩ := Packet.packed_of_encode h
      obtain ⟨low, high, rfl, hlength⟩ := hpacked.header
      exact Packet.delimits hlength

theorem Encoding.decode_of_encode (hes : ValidExchanges es) (he : e ∈ (ExchangeTable.ofList es).exchanges)
    (h : encoding.encode e direction values = .ok frame) :
    encoding.decode (.ofList es) frame = .ok ⟨e.messageName direction, values⟩ := by
  cases encoding with
  | text => exact TextLine.decode_of_encode hes he h
  | binary => exact Packet.decode_of_encode hes he h

end Encode

/-! ## One question -/

namespace FrameBuffer

variable {encoding : Encoding} {b : FrameBuffer} {frame : List UInt8}

theorem next_of_whole (h : encoding.Delimits frame) (hlimit : frame.length ≤ b.limit) {rest : List UInt8}
    (hb : b.bytes = frame ++ rest) : b.next encoding = (.ok (some frame), { b with bytes := rest }) := by
  have hlong : ¬ b.limit < frame.length := by omega
  simp only [next, hb, h.whole, hlong, List.take_left, List.drop_left, ↓reduceIte]

theorem next_of_part (h : encoding.Delimits frame) (hlimit : frame.length ≤ b.limit) (hb : b.bytes <+: frame)
    (hshort : b.bytes.length < frame.length) : b.next encoding = (.ok none, b) := by
  have hlong : ¬ b.limit < frame.length := by omega
  have hlarge : ¬ b.limit < b.bytes.length := by omega
  have htake : (b.bytes.take frame.length).length ≠ frame.length := by
    rw [List.length_take]
    omega
  rcases h.part b.bytes hb hshort with hnone | hsome
  · simp only [next, hnone, hlarge, ↓reduceIte]
  · simp only [next, hsome, hlong, htake, ↓reduceIte]

theorem next_of_nil (hb : b.bytes = []) : b.next encoding = (.ok none, b) := by
  have hnone : encoding.frameLength? [] = none := by cases encoding <;> rfl
  simp only [next, hb, hnone, List.length_nil, Nat.not_lt_zero, ↓reduceIte]

theorem length_lt_of_next {after : FrameBuffer} (h : b.next encoding = (.ok (some frame), after)) :
    after.bytes.length < b.bytes.length := by
  simp only [next] at h
  split at h
  · next length hlength =>
    have hpos := encoding.frameLength?_pos hlength
    split at h
    · cases h
    · split at h
      · next htake =>
        cases h
        rw [List.length_take] at htake
        simp only [List.length_drop]
        omega
      · cases h
  · split at h <;> cases h

/-! ## Many questions -/

/-- Frames that fit a buffer, of which it holds the front. -/
structure Aligned (encoding : Encoding) (b : FrameBuffer) (frames : List (List UInt8)) : Prop where
  delimits : ∀ frame ∈ frames, encoding.Delimits frame
  short : ∀ frame ∈ frames, frame.length ≤ b.limit
  front : b.bytes <+: frames.flatten

theorem Aligned.push {frames : List (List UInt8)} (h : Aligned encoding b frames) {chunk : List UInt8}
    (hchunk : b.bytes ++ chunk <+: frames.flatten) : Aligned encoding (b.push chunk) frames :=
  ⟨h.delimits, h.short, hchunk⟩

/-- A buffer gives out the first of the frames, and starts at the front of the next; or it waits. -/
theorem Aligned.next {frames : List (List UInt8)} (h : Aligned encoding b frames) :
    b.next encoding = (.ok none, b) ∨ ∃ frame rest left, frames = frame :: rest ∧ b.bytes = frame ++ left ∧
      b.next encoding = (.ok (some frame), { b with bytes := left }) ∧
      Aligned encoding { b with bytes := left } rest := by
  cases frames with
  | nil => exact .inl (next_of_nil (List.prefix_nil.1 h.front))
  | cons frame rest =>
      have hdelimits := h.delimits frame List.mem_cons_self
      have hshort := h.short frame List.mem_cons_self
      have hfront : b.bytes <+: frame ++ rest.flatten := h.front
      by_cases hlt : b.bytes.length < frame.length
      · have hpart : b.bytes <+: frame :=
          List.prefix_of_prefix_length_le hfront (List.prefix_append frame _) (Nat.le_of_lt hlt)
        exact .inl (next_of_part hdelimits hshort hpart hlt)
      · have hwhole : frame <+: b.bytes :=
          List.prefix_of_prefix_length_le (List.prefix_append frame _) hfront (Nat.le_of_not_lt hlt)
        obtain ⟨left, hleft⟩ := hwhole
        refine .inr ⟨frame, rest, left, rfl, hleft.symm, next_of_whole hdelimits hshort hleft.symm, ?_⟩
        refine ⟨fun f hf => h.delimits f (List.mem_cons_of_mem _ hf),
          fun f hf => h.short f (List.mem_cons_of_mem _ hf), ?_⟩
        rwa [← hleft, List.prefix_append_right_inj] at hfront

/-- What may be done with a buffer: bytes are put in, or the next frame is asked for. -/
inductive Op where
  | push (chunk : List UInt8)
  | next

def pushed : List Op → List UInt8
  | [] => []
  | .push chunk :: ops => chunk ++ pushed ops
  | .next :: ops => pushed ops

/-- The answers that a buffer gives, and what it comes to. -/
def run (encoding : Encoding) (b : FrameBuffer) :
    List Op → List (Except WireError (Option (List UInt8))) × FrameBuffer
  | [] => ([], b)
  | .push chunk :: ops => run encoding (b.push chunk) ops
  | .next :: ops =>
    let (answer, after) := b.next encoding
    let (answers, final) := run encoding after ops
    (answer :: answers, final)

def given (answers : List (Except WireError (Option (List UInt8)))) : List (List UInt8) :=
  answers.filterMap fun answer => answer.toOption.join

theorem run_next {answer : Except WireError (Option (List UInt8))} {after : FrameBuffer}
    (h : b.next encoding = (answer, after)) (ops : List Op) :
    b.run encoding (.next :: ops) = (answer :: (after.run encoding ops).1, (after.run encoding ops).2) := by
  simp only [run, h]

/-- Whatever is done, a buffer that holds the front of frames answers without errors, gives out the
frames from the first on, and holds the front of those that are left; no byte is lost. -/
theorem Aligned.run {frames : List (List UInt8)} {ops : List Op} (h : Aligned encoding b frames)
    (hops : b.bytes ++ pushed ops <+: frames.flatten) :
    (∀ answer ∈ (b.run encoding ops).1, ∃ frame, answer = .ok frame) ∧
      ∃ rest, given (b.run encoding ops).1 ++ rest = frames ∧
        (given (b.run encoding ops).1).flatten ++ (b.run encoding ops).2.bytes = b.bytes ++ pushed ops ∧
        Aligned encoding (b.run encoding ops).2 rest ∧ (b.run encoding ops).2.limit = b.limit := by
  induction ops generalizing b frames with
  | nil => exact ⟨by simp [FrameBuffer.run], frames, rfl, by simp [given, FrameBuffer.run, pushed], h, rfl⟩
  | cons op ops ih =>
      cases op with
      | push chunk =>
          rw [pushed, ← List.append_assoc] at hops ⊢
          exact ih (h.push ((List.prefix_append _ _).trans hops)) hops
      | next =>
          rcases h.next with hwait | ⟨frame, rest, left, rfl, hb, hnext, hleft⟩
          · obtain ⟨hok, others, hgiven, hbytes, haligned, hlimit⟩ := ih h hops
            rw [run_next hwait]
            refine ⟨?_, others, hgiven, hbytes, haligned, hlimit⟩
            exact List.forall_mem_cons.2 ⟨⟨none, rfl⟩, hok⟩
          · rw [hb, pushed, List.append_assoc, List.flatten_cons, List.prefix_append_right_inj] at hops
            obtain ⟨hok, others, hgiven, hbytes, haligned, hlimit⟩ := ih hleft hops
            rw [run_next hnext]
            refine ⟨?_, others, ?_, ?_, haligned, hlimit⟩
            · exact List.forall_mem_cons.2 ⟨⟨some frame, rfl⟩, hok⟩
            · exact congrArg (frame :: ·) hgiven
            · rw [hb, pushed, List.append_assoc, ← hbytes, ← List.append_assoc]
              rfl

theorem run_of_nil (hb : b.bytes = []) (count : Nat) :
    b.run encoding (List.replicate count .next) = (List.replicate count (.ok none), b) := by
  induction count with
  | zero => rfl
  | succ count ih => rw [List.replicate_succ, run_next (next_of_nil hb), ih, List.replicate_succ]

/-- A buffer that holds whole frames gives them out, one for each question, and then is empty. -/
theorem Aligned.drain {frames : List (List UInt8)} (h : Aligned encoding b frames)
    (hb : b.bytes = frames.flatten) (extra : Nat) :
    b.run encoding (List.replicate (frames.length + extra) .next) =
      (frames.map (.ok ∘ some) ++ List.replicate extra (.ok none), b.clear) := by
  induction frames generalizing b with
  | nil =>
      have hempty : b.clear = b := by
        cases b
        cases hb
        rfl
      rw [List.length_nil, Nat.zero_add, run_of_nil hb, hempty]
      rfl
  | cons frame rest ih =>
      have hnext := next_of_whole (h.delimits frame List.mem_cons_self) (h.short frame List.mem_cons_self) hb
      have hrest : Aligned encoding { b with bytes := rest.flatten } rest :=
        ⟨fun f hf => h.delimits f (List.mem_cons_of_mem _ hf),
          fun f hf => h.short f (List.mem_cons_of_mem _ hf), List.prefix_rfl⟩
      rw [List.length_cons, Nat.succ_add, List.replicate_succ, run_next hnext, ih hrest rfl]
      rfl

/-! ## Streams of messages -/

structure Sending where
  exchange : Exchange
  direction : Direction
  values : FieldValues

/-- However the frames of messages are cut into chunks and whenever the next one is asked for, the answers
are the frames from the first on, and those and the bytes held are the bytes put in. Once all have been
put in, asking on gives all other frames, and then nothing more. -/
theorem stream_reassembled {d : ContractDeclaration} {c : Contract} (hload : d.load = .ok c)
    (encoding : Encoding) (limit : Nat) {messages : List Sending}
    (hmem : ∀ m ∈ messages, m.exchange ∈ c.exchanges ∨ m.exchange = .ping ∨ m.exchange = .error)
    {frames : List (List UInt8)}
    (hframes : List.Forall₂ (fun m frame => encoding.encode m.exchange m.direction m.values = .ok frame ∧
      frame.length ≤ limit) messages frames)
    {ops : List Op} (hops : pushed ops <+: frames.flatten) :
    (∀ answer ∈ (run encoding ⟨[], limit⟩ ops).1, ∃ frame, answer = .ok frame) ∧
      ∃ rest, given (run encoding ⟨[], limit⟩ ops).1 ++ rest = frames ∧
        (given (run encoding ⟨[], limit⟩ ops).1).flatten ++ (run encoding ⟨[], limit⟩ ops).2.bytes = pushed ops ∧
        (pushed ops = frames.flatten → ∀ extra,
          (run encoding ⟨[], limit⟩ ops).2.run encoding (List.replicate (rest.length + extra) .next) =
            (rest.map (.ok ∘ some) ++ List.replicate extra (.ok none), ⟨[], limit⟩)) := by
  have hes := ContractDeclaration.validExchanges_of_load hload
  have hstart : Aligned encoding ⟨[], limit⟩ frames := by
    refine ⟨fun frame hframe => ?_, fun frame hframe => ?_, List.nil_prefix⟩
    · obtain ⟨m, hm, hencode, _⟩ := exists_left_of_forall₂ hframes hframe
      refine Encoding.delimits_of_encode hes ?_ hencode
      rw [ExchangeTable.mem_ofList hes]
      have := hmem m hm
      tauto
    · obtain ⟨_, _, _, hshort⟩ := exists_left_of_forall₂ hframes hframe
      exact hshort
  obtain ⟨hok, rest, hgiven, hbytes, haligned, hlimit⟩ := hstart.run hops
  refine ⟨hok, rest, hgiven, hbytes, fun hall extra => ?_⟩
  have hleft : (run encoding ⟨[], limit⟩ ops).2.bytes = rest.flatten := by
    rw [List.nil_append, hall, ← hgiven, List.flatten_append, List.append_cancel_left_eq] at hbytes
    exact hbytes
  rw [haligned.drain hleft, clear, hlimit]

/-- A measurement and a ping, cut inside of the length of the one and of that of the other. -/
theorem stream_reassembled_measure :
    let frames : List (List UInt8) :=
      [[10, 0, 0x82, 2, 0, 0, 0, 0x80, 1, 0xfe, 0xff, 0xff, 0xff], [0, 0, 0x80]]
    let ops : List Op := [.push [10], .next, .push [],
      .push [0, 0x82, 2, 0, 0, 0, 0x80, 1, 0xfe, 0xff, 0xff, 0xff, 0], .next, .next, .push [0, 0x80]]
    pushed ops = frames.flatten ∧ ∃ rest, given (run .binary ⟨[], 13⟩ ops).1 ++ rest = frames ∧
      (given (run .binary ⟨[], 13⟩ ops).1).flatten ++ (run .binary ⟨[], 13⟩ ops).2.bytes = pushed ops ∧
      ∀ extra, (run .binary ⟨[], 13⟩ ops).2.run .binary (List.replicate (rest.length + extra) .next) =
        (rest.map (.ok ∘ some) ++ List.replicate extra (.ok none), ⟨[], 13⟩) := by
  intro frames ops
  have hall : pushed ops = frames.flatten := by decide
  have hmeasure : Encoding.binary.encode Bench.measure .request
      (.ofList [("channel", .integer (-2)), ("time", .float (.zero .double true))]) =
      .ok [10, 0, 0x82, 2, 0, 0, 0, 0x80, 1, 0xfe, 0xff, 0xff, 0xff] := by decide +kernel
  have hping : Encoding.binary.encode .ping .request .empty = .ok [0, 0, 0x80] := by decide +kernel
  have hframes : List.Forall₂ (fun (m : Sending) frame => Encoding.binary.encode m.exchange m.direction m.values =
      .ok frame ∧ frame.length ≤ 13) [⟨Bench.measure, .request, _⟩, ⟨.ping, .request, .empty⟩] frames :=
    .cons ⟨hmeasure, by decide⟩ (.cons ⟨hping, by decide⟩ .nil)
  obtain ⟨_, rest, hgiven, hbytes, hdrain⟩ := stream_reassembled Bench.load_declaration .binary 13
    (by simp [Bench.contract]) hframes (hall ▸ List.prefix_rfl : pushed ops <+: _)
  exact ⟨hall, rest, hgiven, hbytes, hdrain hall⟩

end FrameBuffer

end SerialContract
