/-!
The signal that ends a waiting read. At most one is pending; it stays until it is drained, so a
wait that starts late still sees it.
-/
namespace Rfcomm

/-- Why a waiting read is to end. -/
inductive Wake.Signal
  /-- Everything ends. -/
  | close
  /-- Only the current peer is given up. -/
  | disconnect
deriving DecidableEq, Repr, Inhabited

def Wake.Signal.name : Signal → String
  | close => "close"
  | disconnect => "disconnect"

/-- The signal that is pending. -/
structure Wake where
  pending : Option Wake.Signal := none
deriving DecidableEq, Repr, Inhabited

namespace Wake

/-- Posts a signal. A pending `close` is never weakened. -/
def signal (w : Wake) (s : Signal) : Wake :=
  if w.pending = some .close then w else ⟨some s⟩

def drain (w : Wake) : Option Signal × Wake := (w.pending, ⟨none⟩)

/-! ## Waiting

A wait ends as soon as it runs while a signal is pending, and consumes nothing. -/

def wait? (w : Wake) : Option Signal := w.pending

/-- The waits that end when all of them run, with what they saw, and those that go on. -/
def runWaits (w : Wake) (waits : List Nat) : List (Nat × Signal) × List Nat :=
  match w.wait? with
  | some s => (waits.map (·, s), [])
  | none => ([], waits)

/-! ## Facts -/

@[simp] theorem pending_signal_close (w : Wake) : (w.signal .close).pending = some .close := by
  unfold signal; split <;> simp_all

theorem pending_signal_disconnect (w : Wake) :
    (w.signal .disconnect).pending = some (w.pending.getD .disconnect) := by
  unfold signal
  split
  · simp_all
  · rcases hp : w.pending with _ | s
    · rfl
    · cases s <;> simp_all

@[simp] theorem pending_drain (w : Wake) : w.drain.2.pending = none := rfl

@[simp] theorem drain_fst (w : Wake) : w.drain.1 = w.pending := rfl

end Wake

end Rfcomm
