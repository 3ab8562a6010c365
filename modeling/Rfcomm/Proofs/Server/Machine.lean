import Rfcomm.Proofs.Machine
import Rfcomm.Server.Work
/-!
Servers as machines: what their owner, their surroundings and their workers can do next, in any
order. Surroundings hand over each stream once.
-/
namespace Rfcomm.Server

/-- What can be done with a server. -/
inductive Act
  | listen (o : Options)
  | read
  | write (bytes : Bytes)
  | disconnectClient
  | close (background : Bool)
  | drop (background : Bool)
  /-- The receiver looks for an event, and takes it if one is there. -/
  | takeEvent
  | dismissEvents
  | step (w : Worker) (r : Reply)

/-- What comes of an act: a job that was started or refused, what a worker reports, and an event that was
handed to the receiver. -/
structure Effect where
  started : Option Worker := none
  refused : Option Error := none
  report : Report := {}
  received : Option Event := none

/-- A job that was started, unless it was refused. -/
def begun (s : Server) : Except Error (Worker × Server) → Server × Effect
  | .ok (w, s) => (s, { started := some w })
  | .error e => (s, { refused := some e })

/-- What an act does. A worker goes on only with what it waits for. -/
def perform (s : Server) : Act → Option (Server × Effect)
  | .listen o => some (s.begun (s.listen o))
  | .read => some (s.begun s.read)
  | .write bytes => some ((s.write bytes).2, { started := some (s.write bytes).1 })
  | .disconnectClient => some (s.disconnectClient, {})
  | .close background => some (s.close background, {})
  | .drop background => some (s.drop background, {})
  | .takeEvent =>
    match s.feed.take with
    | none => some (s, {})
    | some (e, feed) => some ({ s with feed }, { received := some e })
  | .dismissEvents => some ({ s with feed := s.feed.dismiss }, {})
  | .step w r => (s.resume w r).map fun (s, report) => (s, { report })

theorem perform_of_resume {s s' : Server} {w : Worker} {r : Reply} {report : Report}
    (h : s.resume w r = some (s', report)) : s.perform (.step w r) = some (s', { report }) := by
  rw [perform, h]
  rfl

/-- The stream that an act hands over. -/
def Act.stream? : Act → Option StreamId
  | step _ (.accepted (.ok (x, _))) => some x
  | _ => none

/-- One moment of a server. -/
abbrev Moment := Rfcomm.Moment Server Act Effect

/-- The streams that were handed over. -/
def handed (ms : List Moment) : List StreamId := ms.filterMap (·.act.stream?)

/-- The events that were handed to the receiver. -/
def taken (ms : List Moment) : List Event := ms.filterMap (·.effect.received)

theorem taken_snoc {ms : List Moment} {m : Moment} :
    taken (ms ++ [m]) = taken ms ++ m.effect.received.toList := by
  cases hm : m.effect.received <;> simp [taken, hm]

/-- A server with its surroundings, which hand over no stream twice. -/
def machine (t : Config.Tuning) : Machine Server Act Effect where
  start := create t
  perform := perform
  allows ms a := a.stream?.all (!(handed ms).contains ·)

end Rfcomm.Server
