/-! Locks that serve in order of arrival: whoever stands first in line holds the lock. -/
namespace Rfcomm

/-- A lock, as the line of those who hold it or wait for it. -/
structure Lock (α : Type) where
  line : List α := []
deriving DecidableEq, Repr, Inhabited

namespace Lock

variable {α : Type}

def isHeldBy [DecidableEq α] (l : Lock α) (a : α) : Bool := l.line.head? = some a

/-- One more at the end of the line. -/
def join (l : Lock α) (a : α) : Lock α := ⟨l.line ++ [a]⟩

/-- The holder leaves, and the next in line holds the lock from then on. -/
def leave (l : Lock α) : Lock α := ⟨l.line.tail⟩

/-! ## Facts -/

@[simp] theorem line_join (l : Lock α) (a : α) : (l.join a).line = l.line ++ [a] := rfl

@[simp] theorem line_leave (l : Lock α) : l.leave.line = l.line.tail := rfl

theorem isHeldBy_iff [DecidableEq α] {l : Lock α} {a : α} :
    l.isHeldBy a = true ↔ ∃ rest, l.line = a :: rest := by
  cases h : l.line <;> simp [isHeldBy, h]

end Lock

end Rfcomm
