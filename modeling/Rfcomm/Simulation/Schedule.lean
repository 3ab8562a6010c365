import Rfcomm.Simulation.World
/-!
Running the workers of a world: each goes on until it has to wait, over and over until all of them
wait; then the clock moves on to the next moment when somebody's time is up.
-/
namespace Rfcomm.Simulation

/-- What ended. -/
inductive Ended
  | job (item : Nat) (worker : Worker) (outcome : Outcome)
  | watch (number : Nat)
deriving Inhabited

namespace World

/-- Ends the waits of those who see in the directory what they waited for. -/
def look (w : World) : World × List Ended :=
  let sees (a : Watch) : Bool := w.directory.isAdvertised a.uuid = a.on
  ({ w with watches := w.watches.filter (!sees ·) },
    (w.watches.filter sees).map fun a => .watch a.number)

/-- One step of a worker, if there is one to take now. -/
def step (w : World) (i : Nat) (k : Worker) : World × Option (Option Ended) :=
  match w.items[i]? with
  | none => (w, none)
  | some it =>
    let (w, reply) : World × Option Reply := match it.endpoint.ask k with
      | .blocked => (w, none)
      | .ready => (w, some .go)
      | .call c => w.answer i it k c
    match reply.bind (it.endpoint.resume k) with
    | some (e, outcome) => ((w.settle i k).setEndpoint i e, some (outcome.map (.job i k ·)))
    | none => (w, none)

/-- Runs a worker until it waits, at most for `fuel` steps. -/
def run (fuel : Nat) (w : World) (i : Nat) (k : Worker) : World × List Ended × Bool :=
  match fuel with
  | 0 => (w, [], false)
  | fuel + 1 =>
    match w.step i k with
    | (w, none) => (w, [], false)
    | (w, some ended) =>
      let (w, more, _) := run fuel w i k
      (w, ended.toList ++ more, true)

def everybody (w : World) : List (Nat × Worker) :=
  w.items.zipIdx.flatMap fun (it, i) => it.endpoint.workers.map (i, ·)

/-- Runs everybody once. Whoever watches the directory looks at it between two runs. -/
def sweep (fuel : Nat) (w : World) : World × List Ended × Bool :=
  let (w, seen) := w.look
  w.everybody.foldl (fun (w, ended, any) (i, k) =>
    let (w, more, moved) := w.run fuel i k
    let (w, seen) := w.look
    (w, ended ++ more ++ seen, any || moved)) (w, seen, false)

/-- Runs everybody until all of them wait, at most for `fuel` sweeps. -/
def rest (fuel : Nat) (w : World) : World × List Ended :=
  match fuel with
  | 0 => (w, [])
  | fuel + 1 =>
    match w.sweep (fuel + 1) with
    | (w, ended, false) => (w, ended)
    | (w, ended, true) =>
      let (w, more) := rest fuel w
      (w, ended ++ more)

/-- The most steps that are taken at one tick. No scripted world needs as many. -/
def patience : Nat := 1000000

/-- The ticks at which somebody's time is up. -/
def timers (w : World) : List Nat :=
  w.items.flatMap fun it => it.begun.filterMap fun (k, n) =>
    match it.endpoint.ask k with
    | .call (.accept _ _) | .call (.pause _) => some n
    | _ => none

/-- The next tick after now, up to `limit`, at which somebody's time is up. -/
def nextTimer? (w : World) (limit : Nat) : Option Nat :=
  ((w.timers.filter fun t => w.now < t && t ≤ limit)).min?

/-- Runs everybody until all of them wait and the clock shows `limit`. -/
def runUntil (w : World) (limit : Nat) (ended : List Ended) : World × List Ended :=
  let (w', more) := w.rest patience
  let ended := ended ++ more
  match w'.nextTimer? limit with
  | some t =>
    if w.now < t ∧ t ≤ limit then runUntil { w' with now := t } limit ended
    else (w', ended)
  | none => ({ w' with now := limit }, ended)
termination_by limit - w.now

/-- Lets the world go on for a number of ticks. -/
def advance (w : World) (ticks : Nat) : World × List Ended := w.runUntil (w.now + ticks) []

end World

end Rfcomm.Simulation
