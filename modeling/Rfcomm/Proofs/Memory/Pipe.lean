import Rfcomm.Proofs.Link.Calls
import Rfcomm.Memory.Pipe
/-!
Pipes by their directions. What a side reads stood at the front of what was on its way, what its peer
writes gets in line behind it, and neither touches the other direction.
-/
namespace Rfcomm.Memory

def Side.other : Side → Side
  | .caller => .called
  | .called => .caller

/-- The bytes of a write that were taken. -/
def taken (bytes : Bytes) : Except Fault Nat → Bytes
  | .ok n => bytes.take n
  | .error _ => []

variable {side : Side} {size : Nat} {bytes : Bytes} {result : Except Fault Nat} {k : Call} {r : Reply}
  {x : StreamId}

/-! ## One direction -/

namespace Direction

variable {d d' : Direction}

@[simp] theorem close_buffer : d.close.buffer = d.buffer := rfl

@[simp] theorem close_closed : d.close.closed = true := rfl

theorem cases_of_read (h : d.read size = some (bytes, d')) :
    (d.buffer = [] ∧ d.closed = true ∧ bytes = [] ∧ d' = d) ∨
      d.buffer ≠ [] ∧ bytes = d.buffer.take size ∧ d' = { d with buffer := d.buffer.drop size } := by
  unfold read at h
  split at h
  · rename_i hb
    split at h <;> cases h
    exact .inl ⟨List.isEmpty_iff.mp hb, ‹_›, rfl, rfl⟩
  · rename_i hb
    cases h
    exact .inr ⟨by simpa using hb, rfl, rfl⟩

theorem buffer_of_read (h : d.read size = some (bytes, d')) : d.buffer = bytes ++ d'.buffer := by
  rcases cases_of_read h with ⟨-, -, rfl, rfl⟩ | ⟨-, rfl, rfl⟩
  · rfl
  · exact (List.take_append_drop size d.buffer).symm

theorem closed_of_read (h : d.read size = some (bytes, d')) : d'.closed = d.closed := by
  rcases cases_of_read h with ⟨-, -, -, rfl⟩ | ⟨-, -, rfl⟩ <;> rfl

theorem length_of_read (h : d.read size = some (bytes, d')) : bytes.length ≤ size := by
  rcases cases_of_read h with ⟨-, -, rfl, -⟩ | ⟨-, rfl, -⟩
  · exact Nat.zero_le _
  · rw [List.length_take]
    exact Nat.min_le_left _ _

theorem ended_of_read (h : d.read size = some ([], d')) (hsize : 0 < size) :
    d.buffer = [] ∧ d.closed = true := by
  rcases cases_of_read h with ⟨hb, hc, -, -⟩ | ⟨hb, ht, -⟩
  · exact ⟨hb, hc⟩
  · rcases List.take_eq_nil_iff.mp ht.symm with h₀ | h₀
    · omega
    · exact absurd h₀ hb

theorem exists_read (h : d.buffer ≠ []) (hsize : 0 < size) :
    ∃ bytes d', d.read size = some (bytes, d') ∧ bytes ≠ [] := by
  refine ⟨d.buffer.take size, { d with buffer := d.buffer.drop size }, ?_, ?_⟩
  · simp [read, h]
  · simp [List.take_eq_nil_iff, h, Nat.ne_of_gt hsize]

theorem eq_of_write (h : d.write bytes = some (result, d')) :
    d' = { d with buffer := d.buffer ++ taken bytes result } := by
  simp only [write] at h
  split at h
  · cases h
    simp [taken]
  · split at h <;> cases h
    simp [taken]

end Direction

/-! ## Both directions -/

namespace Pipe

variable {p p' : Pipe} {d : Direction}

@[simp] theorem outgoing_other : p.outgoing side.other = p.incoming side := by cases side <;> rfl

@[simp] theorem incoming_setIncoming : (p.setIncoming side d).incoming side = d := by
  cases side <;> rfl

@[simp] theorem incoming_setOutgoing : (p.setOutgoing side d).incoming side = p.incoming side := by
  cases side <;> rfl

@[simp] theorem incoming_setOutgoing_other : (p.setOutgoing side.other d).incoming side = d := by
  cases side <;> rfl

@[simp] theorem incoming_setIncoming_other :
    (p.setIncoming side.other d).incoming side = p.incoming side := by
  cases side <;> rfl

@[simp] theorem incoming_drop : p.drop.incoming side = (p.incoming side).close := by
  cases side <;> rfl

theorem incoming_of_read (h : p.read side size = some (bytes, p')) :
    (p.incoming side).read size = some (bytes, p'.incoming side) := by
  obtain ⟨⟨_, d⟩, hd, he⟩ := Option.map_eq_some_iff.mp h
  cases he
  rw [hd, incoming_setIncoming]

theorem incoming_of_write_other (h : p.write side.other bytes = some (result, p')) :
    (p.incoming side).write bytes = some (result, p'.incoming side) := by
  obtain ⟨⟨_, d⟩, hd, he⟩ := Option.map_eq_some_iff.mp h
  cases he
  rw [← outgoing_other, hd, incoming_setOutgoing_other]

theorem incoming_of_read_other (h : p.read side.other size = some (bytes, p')) :
    p'.incoming side = p.incoming side := by
  obtain ⟨⟨_, d⟩, -, he⟩ := Option.map_eq_some_iff.mp h
  cases he
  exact incoming_setIncoming_other

/-! ## Calls -/

/-- What a side of a pipe answers to a call. -/
def respond (p : Pipe) (side : Side) : Call → Option (Reply × Pipe)
  | .read _ size => (p.read side size).map fun (bytes, p) => (.read (.ok bytes), p)
  | .write _ bytes => (p.write side bytes).map fun (result, p) => (.wrote result, p)
  | .flush _ => some (.flushed (.ok ()), p)
  | .shutdown _ => some (.shutDown, p.shutdown side)
  | _ => none

def isAnswer : Reply → Bool
  | .read _ | .wrote _ | .flushed _ | .shutDown => true
  | _ => false

theorem isAnswer_of_respond (h : p.respond side k = some (r, p')) : isAnswer r = true := by
  cases k with
  | read y size | write y bytes =>
      obtain ⟨_, -, he⟩ := Option.map_eq_some_iff.mp h
      cases he
      rfl
  | flush y | shutdown y => cases h; rfl
  | _ => cases h

theorem respond_of_read (h : (p.incoming side).read size = some (bytes, d)) :
    p.respond side (.read x size) = some (.read (.ok bytes), p.setIncoming side d) := by
  simp [respond, read, h]

/-- Only a read takes something from what comes in. -/
theorem incoming_of_respond (h : p.respond side k = some (r, p')) :
    (∃ y size bytes, k = .read y size ∧ r = .read (.ok bytes) ∧
      (p.incoming side).read size = some (bytes, p'.incoming side)) ∨
    (∀ result, r ≠ .read result) ∧ p'.incoming side = p.incoming side := by
  cases k with
  | read y size =>
      obtain ⟨⟨bytes, _⟩, hp, he⟩ := Option.map_eq_some_iff.mp h
      cases he
      exact .inl ⟨y, size, bytes, rfl, rfl, incoming_of_read hp⟩
  | write y bytes =>
      obtain ⟨⟨_, _⟩, hp, he⟩ := Option.map_eq_some_iff.mp h
      cases he
      obtain ⟨_, -, he⟩ := Option.map_eq_some_iff.mp hp
      cases he
      exact .inr ⟨nofun, incoming_setOutgoing⟩
  | flush y => cases h; exact .inr ⟨nofun, rfl⟩
  | shutdown y => cases h; exact .inr ⟨nofun, incoming_setOutgoing⟩
  | _ => cases h

end Pipe

end Rfcomm.Memory
