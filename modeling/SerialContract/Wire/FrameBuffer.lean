import SerialContract.Wire.Packet
import SerialContract.Wire.TextLine

/-!
# Frames

The two encodings under one name each for writing, reading and cutting, and the buffer that collects
bytes as they arrive and gives out one message after another.
-/

namespace SerialContract

namespace Encoding

def encode : Encoding → Exchange → Direction → FieldValues → Except WireError (List UInt8)
  | text => TextLine.encode
  | binary => Packet.encode

def decode : Encoding → ExchangeTable → List UInt8 → Except WireError Message
  | text => TextLine.decode
  | binary => Packet.decode

/-- The length of the message at the front of the bytes, once enough of it has arrived. -/
def frameLength? : Encoding → List UInt8 → Option Nat
  | text => TextLine.frameLength?
  | binary => Packet.frameLength?

end Encoding

/-- Bytes that have arrived and are not yet given out, and the length of the longest message. -/
structure FrameBuffer where
  bytes : List UInt8
  limit : Nat
  deriving DecidableEq

namespace FrameBuffer

def maxFrame : Nat := Packet.headerWidth + Packet.maxPayload

def empty : FrameBuffer := ⟨[], maxFrame⟩

def push (b : FrameBuffer) (bytes : List UInt8) : FrameBuffer :=
  { b with bytes := b.bytes ++ bytes }

def clear (b : FrameBuffer) : FrameBuffer :=
  { b with bytes := [] }

/-- The next message, if all of it has arrived, and the buffer without it. A message that is too
long, or bytes that have no end within the limit, are given up with all that has arrived. -/
def next (encoding : Encoding) (b : FrameBuffer) :
    Except WireError (Option (List UInt8)) × FrameBuffer :=
  match encoding.frameLength? b.bytes with
  | some length =>
    let front := b.bytes.take length
    if b.limit < length then (.error (.frameTooLong b.limit length), b.clear)
    else if front.length = length then (.ok (some front), { b with bytes := b.bytes.drop length })
    else (.ok none, b)
  | none =>
    if b.limit < b.bytes.length then (.error (.frameTooLong b.limit b.bytes.length), b.clear)
    else (.ok none, b)

/-- A buffer that has no message to give is kept as it is, and its bytes keep to the limit. -/
theorem next_eq_none {encoding : Encoding} {b after : FrameBuffer}
    (h : b.next encoding = (.ok none, after)) : after = b ∧ b.bytes.length ≤ b.limit := by
  simp only [next] at h
  split at h
  · split at h
    · cases h
    · split at h
      · cases h
      · next short =>
        obtain ⟨_, rfl⟩ := Prod.mk.inj h
        rw [List.length_take] at short
        exact ⟨rfl, by omega⟩
  · split at h
    · cases h
    · obtain ⟨_, rfl⟩ := Prod.mk.inj h
      exact ⟨rfl, by omega⟩

end FrameBuffer

end SerialContract
