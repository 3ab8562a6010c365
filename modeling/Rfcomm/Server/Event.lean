import Rfcomm.Address
/-!
The events of a server and the feed that carries them to their receiver. A server never waits for
the receiver: an event that finds the feed full is dropped.
-/
namespace Rfcomm

/-- What a server tells of. -/
inductive Server.Event
  | connected (address : Address)
  | disconnected (address : Address)
  /-- Something failed in the background; the server keeps going. -/
  | failure (text : String)
deriving DecidableEq, Repr, Inhabited

/-- Events on their way to a receiver. -/
structure Server.Feed where
  capacity : Nat := 0
  queue : List Server.Event := []
  sending : Bool := false
  receiving : Bool := false
deriving DecidableEq, Repr, Inhabited

namespace Server.Feed

/-- A new feed with both of its ends. -/
def start (capacity : Nat) : Feed := ⟨capacity, [], true, true⟩

def maxCapacity : Nat := 0x1FFFFFFFFFFFFFFF

/-- Delivers an event if somebody receives and there is room. -/
def push (f : Feed) (e : Event) : Feed :=
  if f.sending && f.receiving && f.queue.length < f.capacity then
    { f with queue := f.queue ++ [e] }
  else f

/-- No further event comes. -/
def stop (f : Feed) : Feed := { f with sending := false }

/-- Takes the first event, if there is one. -/
def take (f : Feed) : Option (Event × Feed) :=
  match f.queue with
  | [] => none
  | e :: rest => some (e, { f with queue := rest })

theorem take_eq_some_iff {f f' : Feed} {e : Event} :
    f.take = some (e, f') ↔ ∃ rest, f.queue = e :: rest ∧ f' = { f with queue := rest } := by
  unfold take
  split <;> rename_i hq
  · simp [hq]
  · constructor
    · rintro ⟨⟩
      exact ⟨_, hq, rfl⟩
    · rintro ⟨rest, h, rfl⟩
      cases hq.symm.trans h
      rfl

theorem take_eq_none_iff {f : Feed} : f.take = none ↔ f.queue = [] := by
  unfold take
  split <;> rename_i hq <;> simp [hq]

/-- Takes one event after the other until none is there. -/
def drain (f : Feed) : List Event × Feed :=
  match _h : f.take with
  | none => ([], f)
  | some (e, f') =>
    let (events, f'') := f'.drain
    (e :: events, f'')
termination_by f.queue.length
decreasing_by
  obtain ⟨rest, hq, rfl⟩ := take_eq_some_iff.mp _h
  rw [hq]
  exact Nat.lt_succ_self _

def dismiss (f : Feed) : Feed := { f with queue := [], receiving := false }

end Server.Feed

end Rfcomm
