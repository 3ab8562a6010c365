import Rfcomm.Job
/-! Sources of bytes: what came from outside so far, and how much of it was read. -/
namespace Rfcomm

/-- Bytes from outside, as far as they came. -/
structure Source where
  read : Bytes := []
  /-- What came after that and was not read yet. -/
  unread : Bytes := []
  /-- No more will come. -/
  ended : Bool := false
  /-- A read failed. -/
  failed : Bool := false

namespace Source

/-- All that came. -/
def given (s : Source) : Bytes := s.read ++ s.unread

def give (s : Source) (bytes : Bytes) : Option Source :=
  if s.ended then none else some { s with unread := s.unread ++ bytes }

/-- All that came was read, and no more will come. -/
def Used (s : Source) : Prop := s.ended = true ∧ s.unread = []

instance (s : Source) : Decidable s.Used := inferInstanceAs (Decidable (_ ∧ _))

/-- A read gets these bytes, the next ones. None at all mean that there will be no more. -/
def take (s : Source) (bytes : Bytes) : Option Source :=
  if bytes = [] then if s.Used then some s else none
  else if bytes <+: s.unread then
    some { s with read := s.read ++ bytes, unread := s.unread.drop bytes.length }
  else none

/-- More came, or the end, but nothing was read. -/
structure Later (s s' : Source) : Prop where
  read : s'.read = s.read
  failed : s'.failed = s.failed
  used : s.Used → s'.Used

variable {s s' : Source} {bytes : Bytes}

theorem read_prefix_given (s : Source) : s.read <+: s.given := List.prefix_append _ _

theorem Used.given (h : s.Used) : s.given = s.read := by rw [Source.given, h.2, List.append_nil]

theorem Later.refl (s : Source) : s.Later s := ⟨rfl, rfl, id⟩

theorem later_of_give (h : s.give bytes = some s') : s.Later s' := by
  obtain ⟨hn, h⟩ := Option.ite_none_left_eq_some.mp h
  cases h
  exact ⟨rfl, rfl, fun hu => absurd hu.1 hn⟩

theorem later_ended (s : Source) : s.Later { s with ended := true } := ⟨rfl, rfl, fun h => ⟨rfl, h.2⟩⟩

theorem read_of_take (h : s.take bytes = some s') : s'.read = s.read ++ bytes ∧
    s'.failed = s.failed ∧ (bytes = [] → s'.Used) := by
  unfold take at h
  split at h
  · obtain ⟨hu, h⟩ := Option.ite_none_right_eq_some.mp h
    cases h
    exact ⟨by simp [‹bytes = []›], rfl, fun _ => hu⟩
  · obtain ⟨-, h⟩ := Option.ite_none_right_eq_some.mp h
    cases h
    exact ⟨rfl, rfl, fun h => absurd h ‹_›⟩

end Source

end Rfcomm
