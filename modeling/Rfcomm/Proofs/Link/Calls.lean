import Rfcomm.Proofs.Link.Activity
/-!
What is asked of streams. A read is asked for by the task that has the reading half, a write or a flush
by the write in service, and a shutdown by the task that took the stream away.
-/
namespace Rfcomm

/-- The stream that a call is for. -/
def Call.stream? : Call → Option StreamId
  | .read x _ | .write x _ | .flush x | .shutdown x => some x
  | _ => none

theorem Ask.turn_ne_call {mine : Bool} {k : Call} : Ask.turn mine ≠ .call k := by
  cases mine <;> simp [Ask.turn]

namespace Link

/-- Who asks what of a stream. -/
inductive Calls (l : Link) (acts : Nat → Option Activity) : Worker → Call → Prop
  | read {n x} : acts n = some (.reading (.reading x)) → l.wake.pending = none →
      Calls l acts (.task n) (.read x l.readSize)
  | write {n x send} : l.queue.stage? n = some (.sending x send) →
      Calls l acts (.write n) (.write x send.rest)
  | flush {n x send} : l.queue.stage? n = some (.sending x send) → Calls l acts (.write n) (.flush x)
  | shutdown {n x} : acts n = some (.closing (.stream x)) → Calls l acts (.task n) (.shutdown x)

variable {l : Link} {acts : Nat → Option Activity} {n : Nat} {w : Worker} {a : Activity} {k : Call}

theorem sending_of_askWrite (h : l.askWrite n = .call k) : ∃ x send,
    l.queue.stage? n = some (.sending x send) ∧ (k = .write x send.rest ∨ k = .flush x) := by
  simp only [askWrite, WriteQueue.ask] at h
  split at h
  · cases h
  · cases h
  · exact absurd h Ask.turn_ne_call
  · rename_i x send hs
    refine ⟨x, send, hs, ?_⟩
    simp only [Send.ask] at h
    split at h
    · split at h <;> cases h
      · exact .inl rfl
      · exact .inr rfl
    · cases h

theorem Activity.of_call (h : a.ask l w = .call k) :
    (∃ x, a = .reading (.reading x) ∧ k = .read x l.readSize ∧ l.wake.pending = none) ∨
      ∃ x, a = .closing (.stream x) ∧ k = .shutdown x := by
  cases a with
  | attaching b => cases b <;> exact absurd h Ask.turn_ne_call
  | closing b =>
      cases b with
      | reader | writer => exact absurd h Ask.turn_ne_call
      | stream x => cases h; exact .inr ⟨x, rfl, rfl⟩
  | reading g =>
      cases g with
      | start => cases h
      | waiting => exact absurd h Ask.turn_ne_call
      | reading x =>
          simp only [Activity.ask, askReading] at h
          split at h <;> cases h
          rename_i hp
          exact .inl ⟨x, rfl, rfl, by simpa using hp⟩

theorem calls_of_askWrite (h : l.askWrite n = .call k) : l.Calls acts (.write n) k := by
  obtain ⟨x, send, hs, rfl | rfl⟩ := sending_of_askWrite h
  · exact .write hs
  · exact .flush hs

theorem calls_of_activity (ha : acts n = some a) (h : a.ask l (.task n) = .call k) :
    l.Calls acts (.task n) k := by
  obtain ⟨x, rfl, rfl, hp⟩ | ⟨x, rfl, rfl⟩ := a.of_call h
  · exact .read ha hp
  · exact .shutdown ha

end Link

end Rfcomm
