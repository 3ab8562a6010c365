import Rfcomm.Handle
import Rfcomm.Lock
import Rfcomm.Send
/-!
The writes of a link, served strictly in the order of their submission and one at a time. The first
of the queue is the write that is being served; the others wait with their bytes.
-/
namespace Rfcomm

/-- A place in the queue. Its bytes are taken out when its turn comes. -/
structure WriteQueue.Node where
  id : Nat
  waiting : Option Bytes
deriving DecidableEq, Repr, Inhabited

/-- How far the worker of a write got. -/
inductive WriteQueue.Stage
  | start (bytes : Bytes)
  | locking (bytes : Bytes)
  /-- Sending, with the stream to itself. -/
  | sending (stream : StreamId) (send : Send)
deriving DecidableEq, Repr, Inhabited

/-- The worker of a write. -/
structure WriteQueue.Task where
  id : Nat
  stage : WriteQueue.Stage
deriving DecidableEq, Repr, Inhabited

/-- The queue, the stream it writes to and the lock on that stream. -/
structure WriteQueue where
  nodes : List WriteQueue.Node := []
  nextId : Nat := 0
  tasks : List WriteQueue.Task := []
  lock : Lock Worker := {}
  stream : Handle := .unset
deriving DecidableEq, Repr, Inhabited

namespace WriteQueue

/-- The writes that are queued, the one in service included. -/
def size (q : WriteQueue) : Nat := q.nodes.length

/-- Starts the worker of the first write if nobody serves it yet. -/
def dispatch (q : WriteQueue) : WriteQueue :=
  match q.nodes with
  | ⟨id, some bytes⟩ :: rest =>
    { q with nodes := ⟨id, none⟩ :: rest, tasks := q.tasks ++ [⟨id, .start bytes⟩] }
  | _ => q

/-- Queues a write, which starts right away if it is the only one. -/
def enqueue (q : WriteQueue) (bytes : Bytes) : Nat × WriteQueue :=
  let q' := { q with nodes := q.nodes ++ [⟨q.nextId, some bytes⟩], nextId := q.nextId + 1 }
  (q.nextId, if q.nodes.isEmpty then q'.dispatch else q')

/-- Removes a write that was served from the head of the queue and starts the next one. -/
def complete (q : WriteQueue) (id : Nat) : WriteQueue :=
  let nodes := match q.nodes with
    | n :: rest => if n.id = id then rest else n :: rest
    | [] => []
  { q with nodes, tasks := q.tasks.filter (·.id ≠ id) }.dispatch

def setStage (q : WriteQueue) (id : Nat) (stage : Stage) : WriteQueue :=
  { q with tasks := q.tasks.map fun t => if t.id = id then { t with stage } else t }

def stage? (q : WriteQueue) (id : Nat) : Option Stage :=
  (q.tasks.find? (·.id = id)).map (·.stage)

/-- What the worker of a write waits for. -/
def ask (q : WriteQueue) (isOpen : Bool) (id : Nat) : Ask :=
  match q.stage? id with
  | none => .blocked
  | some (.start _) => .ready
  | some (.locking _) => .turn (q.lock.isHeldBy (.write id))
  | some (.sending stream send) => send.ask isOpen stream

/-- One step of the worker of a write; none if the reply is not what it waits for. A write that
ended comes with its result. -/
def resume (q : WriteQueue) (isOpen : Bool) (id : Nat) (r : Reply) :
    Option (WriteQueue × Option (Except WriteError Nat)) :=
  match q.stage? id, r with
  | some (.start bytes), .go =>
    if isOpen then
      some ({ q with lock := q.lock.join (.write id) }.setStage id (.locking bytes), none)
    else some (q.complete id, some (.error .closed))
  | some (.locking bytes), .go =>
    if q.lock.isHeldBy (.write id) then
      match q.stream with
      | some stream => some (q.setStage id (.sending stream ⟨bytes, 0⟩), none)
      | none => some ({ q with lock := q.lock.leave }.complete id, some (.error .closed))
    else none
  | some (.sending stream send), r =>
    match send.resume isOpen r with
    | some (.more send) => some (q.setStage id (.sending stream send), none)
    | some (.done result) => some ({ q with lock := q.lock.leave }.complete id, some result)
    | none => none
  | _, _ => none

end WriteQueue

end Rfcomm
