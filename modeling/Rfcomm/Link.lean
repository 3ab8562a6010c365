import Rfcomm.Config
import Rfcomm.Handle
import Rfcomm.OpenFlag
import Rfcomm.Wake
import Rfcomm.WriteQueue
/-!
One end of an open stream, as connections and servers share it: the reading half behind a lock, the
write queue with the writing half, the signal that ends a waiting read, and whether the link is
open. Workers attach a stream, read from it and close it, each in steps that take the locks in turn.
-/
namespace Rfcomm

/-- One end of a stream. -/
structure Link where
  readSize : Nat
  lock : Lock Worker := {}
  /-- The stream whose reading half is held. -/
  stream : Handle := .unset
  queue : WriteQueue := {}
  flag : OpenFlag := {}
  wake : Wake := {}
deriving DecidableEq, Repr, Inhabited

namespace Link

def create (t : Config.Tuning) : Link := { readSize := t.readSize }

/-- Whether reads and writes are accepted. -/
def isOpen (l : Link) : Bool := l.flag.isOpen

/-- Stops reads and writes from starting; a send in progress gives up. -/
def markClosed (l : Link) : Link := { l with flag := (l.flag.set false).2 }

/-- Posts a signal for the waiting reads. -/
def signal (l : Link) (s : Wake.Signal) : Link := { l with wake := l.wake.signal s }

def write (l : Link) (bytes : Bytes) : Nat × Link :=
  let (id, queue) := l.queue.enqueue bytes
  (id, { l with queue })

/-- Puts a worker in line for the reading half. -/
def joinReader (l : Link) (w : Worker) : Link := { l with lock := l.lock.join w }

/-- The holder of the reading half gives it back. -/
def leaveReader (l : Link) : Link := { l with lock := l.lock.leave }

/-- Puts a worker in line for the writing half. -/
def joinWriter (l : Link) (w : Worker) : Link :=
  { l with queue := { l.queue with lock := l.queue.lock.join w } }

/-- The holder of the writing half gives it back. -/
def leaveWriter (l : Link) : Link :=
  { l with queue := { l.queue with lock := l.queue.lock.leave } }

/-! ## Writes -/

/-- What the worker of a write waits for. -/
def askWrite (l : Link) (id : Nat) : Ask := l.queue.ask l.isOpen id

/-- One step of the worker of a write. -/
def resumeWrite (l : Link) (id : Nat) (r : Reply) :
    Option (Link × Option (Except WriteError Nat)) :=
  (l.queue.resume l.isOpen id r).map fun (queue, result) => ({ l with queue }, result)

/-! ## Attaching a stream -/

/-- How far a worker got that attaches a stream. -/
inductive Attach
  | reader (stream : StreamId)
  /-- In line for the writing half, holding the reading half. -/
  | writer (stream : StreamId)
deriving DecidableEq, Repr, Inhabited

def Attach.stream : Attach → StreamId
  | reader s | writer s => s

def beginAttach (l : Link) (w : Worker) (s : StreamId) : Link × Attach :=
  (l.joinReader w, .reader s)

def askAttach (l : Link) (w : Worker) : Attach → Ask
  | .reader _ => .turn (l.lock.isHeldBy w)
  | .writer _ => .turn (l.queue.lock.isHeldBy w)

/-- Holds both halves of a stream from now on and is open; an old signal is forgotten. -/
def install (l : Link) (s : StreamId) : Link :=
  { l with
    wake := l.wake.drain.2
    stream := some s
    queue := { l.queue with stream := some s }
    flag := (l.flag.set true).2 }

/-- One step of attaching. It ends with the link open. -/
def resumeAttach (l : Link) (w : Worker) (a : Attach) (r : Reply) :
    Option (Link × Progress Attach Unit) :=
  match a, r with
  | .reader s, .go =>
    if l.lock.isHeldBy w then some (l.joinWriter w, .more (.writer s)) else none
  | .writer s, .go =>
    if l.queue.lock.isHeldBy w then
      some ((l.install s).leaveReader.leaveWriter, .done ())
    else none
  | _, _ => none

/-! ## Closing -/

/-- How far a worker got that closes the link. -/
inductive Closing
  | reader
  | writer
  /-- Shutting the stream down, holding the writing half. -/
  | stream (s : StreamId)
deriving DecidableEq, Repr, Inhabited

def Closing.stream? : Closing → Option StreamId
  | stream s => some s
  | _ => none

/-- Begins to close. Reads and writes in progress are waited for, so the stream is never taken away
from underneath them. -/
def beginClosing (l : Link) (w : Worker) : Link × Closing :=
  (l.markClosed.joinReader w, .reader)

def askClosing (l : Link) (w : Worker) : Closing → Ask
  | .reader => .turn (l.lock.isHeldBy w)
  | .writer => .turn (l.queue.lock.isHeldBy w)
  | .stream s => .call (.shutdown s)

/-- One step of closing. It ends with both halves released and the stream shut down. -/
def resumeClosing (l : Link) (w : Worker) (c : Closing) (r : Reply) :
    Option (Link × Progress Closing Unit) :=
  match c, r with
  | .reader, .go =>
    if l.lock.isHeldBy w then
      some (({ l with stream := .unset }.leaveReader).joinWriter w, .more .writer)
    else none
  | .writer, .go =>
    if l.queue.lock.isHeldBy w then
      match l.queue.stream with
      | some s => some ({ l with queue := { l.queue with stream := .unset } }, .more (.stream s))
      | none => some (l.leaveWriter, .done ())
    else none
  | .stream _, .shutDown => some (l.leaveWriter, .done ())
  | _, _ => none

/-! ## Reading -/

/-- How far a worker got that reads once. -/
inductive Reading
  | start
  | waiting
  /-- Waiting for bytes or a signal, with the reading half to itself. -/
  | reading (stream : StreamId)
deriving DecidableEq, Repr, Inhabited

/-- What one read saw. -/
inductive Seen
  | data (bytes : Bytes)
  | eof
  /-- A signal came; the stream was not touched. -/
  | woken (s : Wake.Signal)
  | refused
  | failed (f : Fault)
  /-- The worker could not have a buffer of the asked size, and is gone. -/
  | died
deriving DecidableEq, Repr, Inhabited

def maxBuffer : Nat := 0x7FFFFFFFFFFFFFFF

/-- What a reading worker waits for. A signal goes before bytes. -/
def askReading (l : Link) (w : Worker) : Reading → Ask
  | .start => .ready
  | .waiting => .turn (l.lock.isHeldBy w)
  | .reading s => if l.wake.pending.isSome then .ready else .call (.read s l.readSize)

/-- What a finished call of the stream means for the read. -/
def Seen.ofRead : Except Fault Bytes → Seen
  | .ok [] => .eof
  | .ok bytes => .data bytes
  | .error f => .failed f

/-- One step of reading. -/
def resumeReading (l : Link) (w : Worker) (g : Reading) (r : Reply) :
    Option (Link × Progress Reading Seen) :=
  match g, r with
  | .start, .go =>
    if l.isOpen then some (l.joinReader w, .more .waiting) else some (l, .done .refused)
  | .waiting, .go =>
    if l.lock.isHeldBy w then
      match l.stream with
      | none => some (l.leaveReader, .done .refused)
      | some s =>
        if maxBuffer < l.readSize then some (l.leaveReader, .done .died)
        else some (l, .more (.reading s))
    else none
  | .reading _, r =>
    match l.wake.pending, r with
    | some s, .go => some ({ l with wake := l.wake.drain.2 }.leaveReader, .done (.woken s))
    | none, .read result =>
      if (match result with | .ok bytes => bytes.length | .error _ => 0) ≤ l.readSize then
        some (l.leaveReader, .done (.ofRead result))
      else none
    | _, _ => none
  | _, _ => none

end Link

end Rfcomm
