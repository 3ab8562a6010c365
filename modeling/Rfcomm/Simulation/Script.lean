import Rfcomm.Job
import Rfcomm.Address
/-!
Scripted surroundings: streams and transports that answer each call as a list says, in order. A step
of a script may stand behind a named gate, which starts closed and is opened for good.
-/
namespace Rfcomm.Simulation

/-- The name of a gate. -/
abbrev Gate := String

/-- The next answer to a read. -/
inductive ReadStep
  | gate (g : Gate)
  /-- Delivers these bytes, over several reads if one does not hold them. -/
  | data (bytes : Bytes)
  | eof
  | fail (f : Fault)
deriving Repr, Inhabited

/-- The next answer to a write. -/
inductive WriteStep
  | gate (g : Gate)
  | accept (count : Nat)
  | fail (f : Fault)
deriving Repr, Inhabited

/-- The next answer to a flush. -/
inductive FlushStep
  | gate (g : Gate)
  | done
  | fail (f : Fault)
deriving Repr, Inhabited

/-- A scripted stream: what it will answer and what was asked of it. -/
structure ScriptedStream where
  name : String
  reads : List ReadStep := []
  writes : List WriteStep := []
  flushes : List FlushStep := []
  written : Bytes := []
  flushCount : Nat := 0
  shutdownCount : Nat := 0
  dropped : Bool := false
deriving Repr, Inhabited

namespace ScriptedStream

/-- Answers a read. Without any steps left it waits for ever. -/
def read (passes : Gate → Bool) (size : Nat) (s : ScriptedStream) :
    Option (Except Fault Bytes × ScriptedStream) :=
  let steps := s.reads.dropWhile fun
    | .gate g => passes g
    | _ => false
  match steps with
  | [] | .gate _ :: _ => none
  | .data bytes :: rest =>
    let left := bytes.drop size
    some (.ok (bytes.take size),
      { s with reads := if left.isEmpty then rest else .data left :: rest })
  | .eof :: rest => some (.ok [], { s with reads := rest })
  | .fail f :: rest => some (.error f, { s with reads := rest })

/-- Answers a write. Without any steps left it takes everything. -/
def write (passes : Gate → Bool) (bytes : Bytes) (s : ScriptedStream) :
    Option (Except Fault Nat × ScriptedStream) :=
  let steps := s.writes.dropWhile fun
    | .gate g => passes g
    | _ => false
  let take (n : Nat) (rest : List WriteStep) :=
    some (.ok (min n bytes.length),
      { s with writes := rest, written := s.written ++ bytes.take n })
  match steps with
  | [] => take bytes.length []
  | .gate _ :: _ => none
  | .accept n :: rest => take n rest
  | .fail f :: rest => some (.error f, { s with writes := rest })

/-- Answers a flush. Without any steps left it works. -/
def flush (passes : Gate → Bool) (s : ScriptedStream) :
    Option (Except Fault Unit × ScriptedStream) :=
  let steps := s.flushes.dropWhile fun
    | .gate g => passes g
    | _ => false
  let s := { s with flushCount := s.flushCount + 1 }
  match steps with
  | [] => some (.ok (), { s with flushes := [] })
  | .gate _ :: _ => none
  | .done :: rest => some (.ok (), { s with flushes := rest })
  | .fail f :: rest => some (.error f, { s with flushes := rest })

/-- Notes that the write direction was shut down. -/
def shutdown (s : ScriptedStream) : ScriptedStream :=
  { s with shutdownCount := s.shutdownCount + 1 }

def drop (s : ScriptedStream) : ScriptedStream := { s with dropped := true }

end ScriptedStream

/-- A step of a transport's script, behind a gate if it has one. -/
structure Step (α : Type) where
  gate : Option Gate
  result : Except Fault α
deriving Repr

/-- What a scripted transport will answer. -/
structure Script where
  connects : List (Step ScriptedStream) := []
  binds : List (Step Unit) := []
  accepts : List (Step (ScriptedStream × Address)) := []
deriving Repr, Inhabited

/-- The next step of a script, `last` when there is none left; none while its gate is closed. -/
def Step.next {α : Type} (passes : Gate → Bool) (last : Option (Except Fault α)) :
    List (Step α) → Option (Except Fault α × List (Step α))
  | [] => last.map (·, [])
  | ⟨gate, result⟩ :: rest => if gate.all passes then some (result, rest) else none

end Rfcomm.Simulation
