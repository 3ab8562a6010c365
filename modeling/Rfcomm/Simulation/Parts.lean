import Rfcomm.Memory.Directory
import Rfcomm.Simulation.Script
import Rfcomm.WriteQueue
/-! Parts of an endpoint in use on their own: a write queue, a handle, and advertisements. -/
namespace Rfcomm.Simulation

/-! ## A write queue without a stream -/

/-- One step of each worker of a queue that needs no answer from the outside. -/
def queueSweep (q : WriteQueue) (isOpen : Bool) :
    WriteQueue × List (Nat × Except WriteError Nat) :=
  q.tasks.foldl (fun (q, ended) t =>
    match q.resume isOpen t.id .go with
    | some (q, result) => (q, ended ++ (result.map fun r => (t.id, r)).toList)
    | none => (q, ended)) (q, [])

/-- Runs the workers of a queue for `n` rounds. -/
def queueRun : Nat → WriteQueue → Bool → WriteQueue × List (Nat × Except WriteError Nat)
  | 0, q, _ => (q, [])
  | n + 1, q, isOpen =>
    let (q, ended) := queueSweep q isOpen
    let (q, more) := queueRun n q isOpen
    (q, ended ++ more)

/-- Runs the workers of a queue until they wait or are done. Without a stream each write takes at
most two steps. -/
def queueRest (q : WriteQueue) (isOpen : Bool) : WriteQueue × List (Nat × Except WriteError Nat) :=
  queueRun (2 * q.size) q isOpen

/-! ## A handle -/

/-- A handle and the streams that it ever held, under their numbers. -/
structure HandleUse where
  handle : Handle := .unset
  streams : List ScriptedStream := []
deriving Inhabited

namespace HandleUse

def change (u : HandleUse) (id : Option StreamId) (f : ScriptedStream → ScriptedStream) :
    HandleUse :=
  match id with
  | some i => { u with streams := u.streams.modify i f }
  | none => u

/-- Holds another stream; the one before is dropped. Tells whether there was one. -/
def replace (u : HandleUse) (s : ScriptedStream) : Bool × HandleUse :=
  let (old, handle) := u.handle.replace u.streams.length
  (old.isSome, { handle, streams := u.streams ++ [s] : HandleUse }.change old (·.drop))

/-- Takes the stream out and drops it. Tells whether there was one. -/
def take (u : HandleUse) : Bool × HandleUse :=
  let (old, handle) := u.handle.take
  (old.isSome, { u with handle }.change old (·.drop))

/-- Lets the stream go. Tells whether there was one. -/
def close (u : HandleUse) : Bool × HandleUse :=
  let (was, handle) := u.handle.close
  (was, { u with handle }.change u.handle (·.drop))

/-- Shuts the stream down, if there is one, and lets it go. -/
def shutdown (u : HandleUse) : HandleUse :=
  let (old, handle) := u.handle.take
  { u with handle }.change old (·.shutdown.drop)

end HandleUse

/-! ## Advertisements on one directory -/

/-- A directory, advertisements on it, registrations without an advertisement, and the waits for a
number of records. -/
structure DirectoryUse where
  directory : Memory.Directory := {}
  slots : List Advertisement := []
  direct : List SessionId := []
  waits : List Nat := []
deriving Inhabited

namespace DirectoryUse

def activate (u : DirectoryUse) (slot : Nat) : Except Error DirectoryUse :=
  match u.slots[slot]? with
  | none => .ok u
  | some a => (u.directory.activate a).map fun (a, directory) =>
    { u with directory, slots := u.slots.set slot a }

/-- Takes the registration of an advertisement back. -/
def retire (u : DirectoryUse) (slot : Nat) : DirectoryUse :=
  match u.slots[slot]? with
  | none => u
  | some a =>
    let (a, directory) := u.directory.retire a
    { u with directory, slots := u.slots.set slot a }

/-- Registers the record of an advertisement a further time, without the advertisement. -/
def register (u : DirectoryUse) (slot : Nat) : Except Error DirectoryUse :=
  match u.slots[slot]? with
  | none => .ok u
  | some a =>
    match u.directory.register a.record with
    | .ok (s, directory) => .ok { u with directory, direct := s :: u.direct }
    | .error reason => .error (.advertise reason)

/-- Takes the latest registration without an advertisement back. Tells whether there was one. -/
def withdraw (u : DirectoryUse) : Bool × DirectoryUse :=
  match u.direct with
  | [] => (false, u)
  | s :: direct => (true, { u with directory := u.directory.withdraw s, direct })

/-- Starts to wait for a number of records. -/
def wait (u : DirectoryUse) (count : Nat) : DirectoryUse :=
  { u with waits := u.waits ++ [count] }

/-- Runs the waits: those for the present number of records end. -/
def runWaits (u : DirectoryUse) : List Nat × DirectoryUse :=
  let count := u.directory.records.length
  (u.waits.filter (· = count), { u with waits := u.waits.filter (· ≠ count) })

end DirectoryUse

end Rfcomm.Simulation
