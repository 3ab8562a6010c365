import Rfcomm.Wake
/-!
Waits for a wake. A wait that finds nothing pending sleeps, and every change wakes all that sleep. Each
change has a number; one that leaves pending what was pending, such as a drain of nothing, counts too.
-/
namespace Rfcomm.Wake

/-- How far a wait has got. -/
inductive Wait
  /-- It did not run yet. -/
  | fresh
  /-- It found nothing after the change with this number, and sleeps unless it was woken since. -/
  | asleep (seen : Nat) (woken : Bool)
  /-- It ended with this signal. -/
  | ended (s : Signal)
deriving DecidableEq, Repr, Inhabited

namespace Wait

def rouse : Wait → Wait
  | asleep seen _ => asleep seen true
  | fresh => fresh
  | ended s => ended s

/-- Whether somebody is to run the wait. -/
def isDue : Wait → Bool
  | fresh | asleep _ true => true
  | asleep _ false | ended _ => false

def outcome? : Wait → Option Signal
  | ended s => some s
  | fresh | asleep _ _ => none

/-- Looks for a signal, without taking it, and sleeps if there is none. -/
def look (w : Wake) (change : Nat) : Wait :=
  match w.pending with
  | some s => ended s
  | none => asleep change false

/-- A run of the wait. After it was woken it looks again, unless it saw this change before. -/
def run (w : Wake) (change : Nat) : Wait → Wait
  | fresh => look w change
  | asleep seen true => if seen = change then asleep seen false else look w change
  | asleep seen false => asleep seen false
  | ended s => ended s

end Wait

/-- A wake with the number of its last change, and the waits for it under the numbers in which they
were started. -/
structure Pipe where
  wake : Wake := {}
  change : Nat := 0
  waits : List Wait := []
deriving DecidableEq, Repr, Inhabited

namespace Pipe

def pending (p : Pipe) : Option Signal := p.wake.pending

/-- Changes the wake, and wakes those who sleep. -/
def put (p : Pipe) (w : Wake) : Pipe := ⟨w, p.change + 1, p.waits.map Wait.rouse⟩

def signal (p : Pipe) (s : Signal) : Pipe := p.put (p.wake.signal s)

def drain (p : Pipe) : Option Signal × Pipe := (p.wake.drain.1, p.put p.wake.drain.2)

/-- Starts a wait, which does nothing before it runs. -/
def wait (p : Pipe) : Pipe := { p with waits := p.waits ++ [.fresh] }

/-- Runs a wait. What comes out is the signal that it ended with, if it ended just now. -/
def run (p : Pipe) (i : Nat) : Option Signal × Pipe :=
  let told := p.waits[i]?.bind fun w =>
    if w.outcome?.isNone then (w.run p.wake p.change).outcome? else none
  (told, { p with waits := p.waits.modify i (Wait.run p.wake p.change) })

/-- Whether a wait was started and has not ended. -/
def isWaiting (p : Pipe) (i : Nat) : Bool := p.waits[i]?.any fun w => w.outcome?.isNone

def waiting (p : Pipe) : List Nat := (List.range p.waits.length).filter p.isWaiting

/-- Runs those of the waits that are due when their turn comes. Those that ended come out with their
signals. -/
def runAll (p : Pipe) : List Nat → List (Nat × Signal) × Pipe
  | [] => ([], p)
  | i :: is =>
    if p.waits[i]?.any Wait.isDue then
      let (s, p) := p.run i
      let (told, p) := p.runAll is
      ((s.map (i, ·)).toList ++ told, p)
    else p.runAll is

/-- Runs the waits that are due in the order in which they were started. -/
def runDue (p : Pipe) : List (Nat × Signal) × Pipe := p.runAll (List.range p.waits.length)

end Pipe

end Rfcomm.Wake
