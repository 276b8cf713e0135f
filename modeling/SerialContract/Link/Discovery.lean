import SerialContract.Link.Session

/-!
# Discovery

Which of several candidates is the device: they are pinged one after another, those with the identifier
of the channel first, and the first that answers is the device.
-/

namespace SerialContract

/-- What may be the device: its name, the identifier it shows, and how a line to it is opened. -/
structure Candidate (σ : Type) where
  name : String
  identifier : Option String
  connect : Channel → Except LinkError σ

namespace Discovery

variable {σ : Type}

/-- The candidates with the preferred identifier in front of the others. -/
def prioritize (candidates : List (Candidate σ)) (preferred : String) : List (Candidate σ) :=
  if preferred.isEmpty then candidates
  else
    candidates.filter (·.identifier == some preferred) ++
      candidates.filter (·.identifier != some preferred)

/-- Whether a device may answer the next ping though it failed to answer this one: it sent something
else, such as what it printed when it started. -/
def isGarbage : LinkError → Bool
  | .response _ | .unexpected .. | .reported _ => true
  | _ => false

/-- Pings until the device answers, at most `pings` times. -/
def pingUntilAnswered (line : Line σ) : Nat → Session σ → Option (Session σ)
  | 0, _ => none
  | pings + 1, s =>
    match s.ping line with
    | (.ok (), s) => some s
    | (.error e, s) => if isGarbage e then pingUntilAnswered line pings s else none

/-- A session with a candidate that can be opened and answers. -/
def connect (line : Line σ) (channel : Channel) (pings : Nat) (candidate : Candidate σ) :
    Option (Session σ) :=
  match candidate.connect channel with
  | .ok state => pingUntilAnswered line pings (.start state .text [])
  | .error _ => none

/-- What a search came to: the candidates that were tried, in order, and the last of them with its
session if it is the device. -/
structure Outcome (σ : Type) where
  tried : List (Candidate σ)
  found : Except LinkError (Candidate σ × Session σ)

/-- Tries candidates until one is the device; `total` is the number of all candidates. -/
def search (line : Line σ) (channel : Channel) (pings total : Nat) : List (Candidate σ) → Outcome σ
  | [] => ⟨[], .error (.noDevice total)⟩
  | candidate :: rest =>
    match connect line channel pings candidate with
    | some session => ⟨[candidate], .ok (candidate, session)⟩
    | none =>
      let outcome := search line channel pings total rest
      { outcome with tried := candidate :: outcome.tried }

/-- Looks for the device on a channel, giving each candidate so many pings. -/
def discover (line : Line σ) (channel : Channel) (pings : Nat) (candidates : List (Candidate σ)) :
    Outcome σ :=
  search line channel pings candidates.length (prioritize candidates channel.identifier)

end Discovery

end SerialContract
