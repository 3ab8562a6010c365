/-! Whether a link is open. Clearing the flag stops a send that is stuck on a full stream. -/
namespace Rfcomm

/-- A flag that can be waited for to be cleared. -/
structure OpenFlag where
  isOpen : Bool := false
deriving DecidableEq, Repr, Inhabited

namespace OpenFlag

/-- Sets or clears the flag. The value before comes out. -/
def set (f : OpenFlag) (isOpen : Bool) : Bool × OpenFlag := (f.isOpen, ⟨isOpen⟩)

/-- The waits that end when all of them run, which they do while the flag is clear, and those that
go on. -/
def runWaits (f : OpenFlag) (waits : List Nat) : List Nat × List Nat :=
  if f.isOpen then ([], waits) else (waits, [])

end OpenFlag

end Rfcomm
