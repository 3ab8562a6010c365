import Rfcomm.Fault
import Rfcomm.Job
/-!
Pipes: streams between two ends of the same process. Each direction keeps a bounded number of bytes
on their way, and ends once its writer shuts it down or one of the ends is gone.
-/
namespace Rfcomm.Memory

/-- One direction of a pipe. -/
structure Direction where
  capacity : Nat
  buffer : Bytes := []
  closed : Bool := false
deriving DecidableEq, Repr, Inhabited

namespace Direction

/-- A direction that can keep at least one byte. -/
def create (capacity : Nat) : Direction := { capacity := max capacity 1 }

/-- Takes as many bytes as there is room for; none while there is no room. -/
def write (d : Direction) (bytes : Bytes) : Option (Except Fault Nat × Direction) :=
  if d.closed then some (.error (.bare .brokenPipe), d)
  else
    let free := d.capacity - d.buffer.length
    if free = 0 then none
    else
      let n := min bytes.length free
      some (.ok n, { d with buffer := d.buffer ++ bytes.take n })

/-- Gives up to `size` of the bytes on their way. There are none to give at the end, and the read
waits as long as there may come more. -/
def read (d : Direction) (size : Nat) : Option (Bytes × Direction) :=
  if d.buffer.isEmpty then if d.closed then some ([], d) else none
  else some (d.buffer.take size, { d with buffer := d.buffer.drop size })

/-- No further byte comes. Those on their way stay readable. -/
def close (d : Direction) : Direction := { d with closed := true }

end Direction

/-- The two ends of a pipe. -/
inductive Side
  /-- Who connected. -/
  | caller
  /-- Who was connected to. -/
  | called
deriving DecidableEq, Repr, Inhabited

/-- A pipe. -/
structure Pipe where
  there : Direction
  back : Direction
deriving DecidableEq, Repr, Inhabited

namespace Pipe

/-- A fresh pipe with room for `capacity` bytes in each direction. -/
def create (capacity : Nat) : Pipe := ⟨.create capacity, .create capacity⟩

def outgoing (p : Pipe) : Side → Direction
  | .caller => p.there
  | .called => p.back

/-- The direction that a side reads from. -/
def incoming (p : Pipe) : Side → Direction
  | .caller => p.back
  | .called => p.there

/-- Another direction for a side to write to. -/
def setOutgoing (p : Pipe) (side : Side) (d : Direction) : Pipe :=
  match side with
  | .caller => { p with there := d }
  | .called => { p with back := d }

/-- Another direction for a side to read from. -/
def setIncoming (p : Pipe) (side : Side) (d : Direction) : Pipe :=
  match side with
  | .caller => { p with back := d }
  | .called => { p with there := d }

def write (p : Pipe) (side : Side) (bytes : Bytes) : Option (Except Fault Nat × Pipe) :=
  ((p.outgoing side).write bytes).map fun (n, d) => (n, p.setOutgoing side d)

def read (p : Pipe) (side : Side) (size : Nat) : Option (Bytes × Pipe) :=
  ((p.incoming side).read size).map fun (bytes, d) => (bytes, p.setIncoming side d)

/-- A side ends what it writes. -/
def shutdown (p : Pipe) (side : Side) : Pipe := p.setOutgoing side (p.outgoing side).close

/-- One of the sides goes away: what it wrote ends, and nothing more can be written to it. -/
def drop (p : Pipe) : Pipe := ⟨p.there.close, p.back.close⟩

end Pipe

end Rfcomm.Memory
