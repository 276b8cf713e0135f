import SerialContract.Link.Error

/-!
# Lines to devices

A line carries bytes to a device and back. What a line does is a function of its state; a script is a
line whose answers are laid down beforehand.
-/

namespace SerialContract

/-- What a line with states in `σ` does. -/
structure Line (σ : Type) where
  /-- Sends all bytes, or fails. -/
  send : List UInt8 → σ → Except Failure Unit × σ
  /-- Waits for bytes that have arrived; none arrive any more once the device has closed the line. -/
  receive : σ → Except Failure (List UInt8) × σ

namespace Line

/-- How many bytes are received at once at most. -/
def chunkSize : Nat := 256

end Line

/-! ## Scripts -/

/-- What a line will do: the bytes or the failures that it answers with, how many bytes it accepts at
a time (all, once there are no more numbers), how the first flush fails, and the pieces that have been
written, the last of them first. -/
structure Script where
  reads : List (Except Failure (List UInt8))
  writes : List (Except Failure Nat)
  flush : Option Failure
  pieces : List (List UInt8)

namespace Script

def written (script : Script) : List UInt8 :=
  script.pieces.reverse.flatten

/-- Writes bytes piece by piece until all are accepted, starting anew after an interruption. What was
accepted, and the steps of the script that are left. -/
def accept : List (Except Failure Nat) → List UInt8 →
    Except Failure Unit × List UInt8 × List (Except Failure Nat)
  | steps, [] => (.ok (), [], steps)
  | [], bytes => (.ok (), bytes, [])
  | .ok 0 :: steps, _ :: _ => (.error .nothingWritten, [], steps)
  | .ok count :: steps, b :: bytes =>
    let (result, accepted, left) := accept steps ((b :: bytes).drop count)
    (result, (b :: bytes).take count ++ accepted, left)
  | .error failure :: steps, b :: bytes =>
    if failure.kind = .interrupted then accept steps (b :: bytes) else (.error failure, [], steps)

/-- Writes all bytes and then flushes. -/
def send (bytes : List UInt8) (script : Script) : Except Failure Unit × Script :=
  let (result, accepted, left) := accept script.writes bytes
  let script := { script with writes := left, pieces := accepted :: script.pieces }
  match result, script.flush with
  | .ok (), some failure => (.error failure, { script with flush := none })
  | result, _ => (result, script)

/-- Takes the next bytes of the script; what is too long for one chunk is left for the next. -/
def receive (script : Script) : Except Failure (List UInt8) × Script :=
  match script.reads with
  | [] => (.ok [], script)
  | .error failure :: rest => (.error failure, { script with reads := rest })
  | .ok bytes :: rest =>
    if bytes.length ≤ Line.chunkSize then (.ok bytes, { script with reads := rest })
    else (.ok (bytes.take Line.chunkSize),
      { script with reads := .ok (bytes.drop Line.chunkSize) :: rest })

def line : Line Script := ⟨send, receive⟩

/-- The bytes that the script still answers with. -/
def pending (script : Script) : List UInt8 :=
  script.reads.flatMap fun
    | .ok bytes => bytes
    | .error _ => []

end Script

end SerialContract
