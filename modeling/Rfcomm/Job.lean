import Rfcomm.Error
/-!
Jobs: the background work that endpoints start for their callers. A job is run by one worker and
reports one outcome.
-/
namespace Rfcomm

/-- What travels over a stream. -/
abbrev Bytes := List UInt8

/-- The name of an open stream. -/
abbrev StreamId := Nat

/-- The name of a bound listener. -/
abbrev ListenerId := Nat

/-- The name of a registration of a service record. -/
abbrev SessionId := Nat

/-- Who runs inside an endpoint. Each worker runs one job and has a number of its own. -/
inductive Worker
  /-- A task of the endpoint: connecting, listening, reading, closing. -/
  | task (n : Nat)
  /-- The job of the write queue with this number. -/
  | write (n : Nat)
deriving DecidableEq, Repr, Inhabited

/-- What a job reports. -/
inductive Outcome
  | connected
  | listening
  | data (bytes : Bytes)
  /-- The link was closed while the read waited. -/
  | closed
  | sent (count : Nat)
  | failed (e : Error)
deriving DecidableEq, Repr, Inhabited

def Outcome.ofExcept {α : Type} (good : α → Outcome) : Except Error α → Outcome
  | .ok a => good a
  | .error e => failed e

/-- A piece of work that either goes on or ends with a result. -/
inductive Progress (σ α : Type)
  | more (state : σ)
  | done (result : α)
deriving DecidableEq, Repr, Inhabited

end Rfcomm
