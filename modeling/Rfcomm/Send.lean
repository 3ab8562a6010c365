import Rfcomm.Call
/-!
Sending all the bytes of one write: short writes are continued, interrupted ones repeated, and the
stream is flushed at the end. Closing the link abandons the send, which reports what went out.
-/
namespace Rfcomm

/-- A send in progress: what to send and how much of it went out. -/
structure Send where
  bytes : Bytes
  written : Nat := 0
deriving DecidableEq, Repr, Inhabited

namespace Send

/-- What is still to be sent. -/
def rest (s : Send) : Bytes := s.bytes.drop s.written

/-- The failure of a send, with what went out before it. -/
def failure (s : Send) (source : Fault) : WriteError :=
  .unsuccessful s.written s.bytes.length source

/-- The fault of a send that the link was closed under. -/
def closedFault : Fault := .explained .notConnected "connection closed during write"

/-- What the send waits for. Closing is looked for first. -/
def ask (s : Send) (isOpen : Bool) (stream : StreamId) : Ask :=
  if isOpen then
    if s.written < s.bytes.length then .call (.write stream s.rest) else .call (.flush stream)
  else .ready

/-- One step of the send; none if the reply is not what it waits for. -/
def resume (s : Send) (isOpen : Bool) (r : Reply) : Option (Progress Send (Except WriteError Nat)) :=
  if isOpen then
    if s.written < s.bytes.length then
      match r with
      | .wrote (.ok 0) => some (.done (.error (s.failure (.bare .writeZero))))
      | .wrote (.ok n) =>
        if n ≤ s.rest.length then some (.more { s with written := s.written + n }) else none
      | .wrote (.error f) =>
        if f.kind = .interrupted then some (.more s) else some (.done (.error (s.failure f)))
      | _ => none
    else
      match r with
      | .flushed (.ok _) => some (.done (.ok s.written))
      | .flushed (.error f) => some (.done (.error (s.failure f)))
      | _ => none
  else
    match r with
    | .go => some (.done (.error (s.failure closedFault)))
    | _ => none

end Send

end Rfcomm
