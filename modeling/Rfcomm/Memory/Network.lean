import Rfcomm.Target
import Rfcomm.Job
/-!
The network of one process: listeners by device address and channel, each with the callers that wait
for it. A target belongs to at most one live listener.
-/
namespace Rfcomm.Memory

/-- A live listener, with the callers in the order in which they connected. -/
structure Listener where
  id : ListenerId
  target : Target
  backlog : List (StreamId × Address) := []
deriving DecidableEq, Repr, Inhabited

/-- All listeners, and who of them each target belongs to. -/
structure Network where
  table : List (Target × ListenerId) := []
  live : List Listener := []
  nextListener : ListenerId := 0
deriving DecidableEq, Repr, Inhabited

namespace Network

/-- Whether somebody listens on a target. -/
def isListening (n : Network) (t : Target) : Bool := (n.table.lookup t).isSome

/-- The target that binding means: the any-address stands for the own one. -/
def resolve (own : Address) (t : Target) : Target :=
  if t.address = .any then { t with address := own } else t

/-- Binds a target for a device with the address `own`. -/
def bind (n : Network) (own : Address) (t : Target) : Except Fault (ListenerId × Network) :=
  let t := resolve own t
  if n.isListening t then .error (.bare .addrInUse)
  else .ok (n.nextListener,
    { table := n.table ++ [(t, n.nextListener)]
      live := n.live ++ [{ id := n.nextListener, target := t }]
      nextListener := n.nextListener + 1 })

/-- A device with the address `own` connects to a target: the called end of the stream joins the
callers of the listener there. -/
def connect (n : Network) (own : Address) (t : Target) (stream : StreamId) :
    Except Fault Network :=
  match n.table.lookup t with
  | none => .error (.bare .connectionRefused)
  | some id =>
    if n.live.any (·.id = id) then
      .ok { n with live := n.live.map fun l =>
        if l.id = id then { l with backlog := l.backlog ++ [(stream, own)] } else l }
    else .error (.bare .connectionRefused)

/-- Takes the first of the callers of a listener; none while nobody called. -/
def accept (n : Network) (id : ListenerId) : Option ((StreamId × Address) × Network) :=
  match n.live.find? (·.id = id) with
  | some ⟨_, _, caller :: rest⟩ =>
    some (caller, { n with live := n.live.map fun l =>
      if l.id = id then { l with backlog := rest } else l })
  | _ => none

/-- A listener goes away and frees its target. The callers that it never took come out. -/
def drop (n : Network) (id : ListenerId) : List (StreamId × Address) × Network :=
  match n.live.find? (·.id = id) with
  | none => ([], n)
  | some l =>
    (l.backlog,
      { n with
        table := n.table.filter fun e => !(e.1 = l.target && e.2 = id)
        live := n.live.filter (·.id ≠ id) })

end Network

end Rfcomm.Memory
