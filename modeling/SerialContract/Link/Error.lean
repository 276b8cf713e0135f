import SerialContract.Wire.Error

/-!
# Link errors

Why an exchange with a device failed: the line failed, the request or the response is at fault, or the
device answered something else.
-/

namespace SerialContract

/-- The kinds of failures of a line that are told apart. -/
inductive FailureKind where
  | timedOut
  | interrupted
  | brokenPipe
  | permissionDenied
  | nothingWritten
  deriving DecidableEq, Repr

structure Failure where
  kind : FailureKind
  message : String
  deriving DecidableEq, Repr

/-- The failure of a line that takes no more bytes. -/
def Failure.nothingWritten : Failure := ⟨.nothingWritten, "failed to write whole buffer"⟩

/-- Why an exchange with a device failed. -/
inductive LinkError where
  | failure (failure : Failure)
  | request (fault : WireError)
  | response (fault : WireError)
  | reported (message : String)
  | unexpected (expected actual : String)
  | closed
  | unknownExchange (name : String)
  | noDevice (candidates : Nat)
  deriving DecidableEq

def LinkError.message : LinkError → String
  | failure f => "I/O error: " ++ f.message
  | request fault => "failed to encode request: " ++ fault.message
  | response fault => "malformed response: " ++ fault.message
  | reported message => "device reported an error: " ++ message
  | unexpected expected actual => "expected " ++ expected ++ ", received " ++ actual
  | closed => "connection closed before a complete response arrived"
  | unknownExchange name => "unknown exchange `" ++ name ++ "`"
  | noDevice candidates =>
    "no compatible device found among " ++ decimalText candidates ++ " candidate(s)"

end SerialContract
