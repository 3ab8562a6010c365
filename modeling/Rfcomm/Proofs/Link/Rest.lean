import Rfcomm.Proofs.Link.Activity
/-!
Links at rest. Where nobody can go on by itself, a line for one of the halves is held up by what its
first waits for: bytes from the peer at the reading half, the end of a shutdown at the writing half.
-/
namespace Rfcomm.Link

/-- Nobody at the link can go on by itself. -/
structure Resting (l : Link) (acts : Nat → Option Activity) : Prop where
  task : ∀ {n a}, acts n = some a → a.ask l (.task n) ≠ .ready
  write : ∀ id, l.askWrite id ≠ .ready

variable {l : Link} {acts : Nat → Option Activity} {n : Nat} {a : Activity}

theorem turn_held {mine : Bool} (h : mine = true) : Ask.turn mine = .ready := by
  simp [Ask.turn, h]

/-- The first in line for the reading half waits for bytes, or for the other half. -/
theorem Resting.first_reader (hr : Resting l acts) (h : Sound l acts)
    (hn : Activity.atReader (acts n) ≠ .out) :
    ∃ m x, acts m = some (.reading (.reading x)) ∨ acts m = some (.attaching (.writer x)) := by
  obtain ⟨w, hl, hw⟩ := h.reader.exists_first (show readerRole acts (.task n) ≠ .out from hn)
  cases w with
  | write id => exact absurd rfl hw
  | task m =>
      cases hm : acts m with
      | none => simp [readerRole, hm, Activity.atReader] at hw
      | some b =>
          have hb := hr.task hm
          cases b with
          | attaching k =>
              cases k with
              | reader x => exact absurd (turn_held hl) hb
              | writer x => exact ⟨m, x, .inr hm⟩
          | closing k =>
              cases k with
              | reader => exact absurd (turn_held hl) hb
              | writer | stream x => simp [readerRole, hm, Activity.atReader] at hw
          | reading g =>
              cases g with
              | start => simp [readerRole, hm, Activity.atReader] at hw
              | waiting => exact absurd (turn_held hl) hb
              | reading x => exact ⟨m, x, .inl hm⟩

/-- At a closed link the first in line for the writing half shuts a stream down. -/
theorem Resting.first_writer {w : Worker} (hr : Resting l acts) (h : Sound l acts)
    (ho : l.isOpen = false) (hw : writerRole l.queue.stage? acts w ≠ .out) :
    ∃ m x, acts m = some (.closing (.stream x)) := by
  obtain ⟨w, hl, hw⟩ := h.writer.exists_first hw
  cases w with
  | task m =>
      cases hm : acts m with
      | none => simp [writerRole, hm, Activity.atWriter] at hw
      | some b =>
          have hb := hr.task hm
          cases b with
          | attaching k =>
              cases k with
              | reader x => simp [writerRole, hm, Activity.atWriter] at hw
              | writer x => exact absurd (turn_held hl) hb
          | closing k =>
              cases k with
              | reader => simp [writerRole, hm, Activity.atWriter] at hw
              | writer => exact absurd (turn_held hl) hb
              | stream x => exact ⟨m, x, hm⟩
          | reading g => simp [writerRole, hm, Activity.atWriter] at hw
  | write id =>
      have hb := hr.write id
      cases hs : l.queue.stage? id with
      | none => simp [writerRole, hs] at hw
      | some stage =>
          cases stage with
          | start bytes => simp [writerRole, hs, stageAtWriter] at hw
          | locking bytes => simp [askWrite, WriteQueue.ask, hs, turn_held hl] at hb
          | sending x send => simp [askWrite, WriteQueue.ask, hs, Send.ask, ho] at hb

theorem Resting.no_writer {w : Worker} (hr : Resting l acts) (h : Sound l acts)
    (ho : l.isOpen = false) (hs : ∀ m x, acts m ≠ some (.closing (.stream x))) :
    writerRole l.queue.stage? acts w = .out := by
  by_contra hw
  obtain ⟨m, x, hm⟩ := hr.first_writer h ho hw
  exact hs m x hm

theorem Resting.no_writes (hr : Resting l acts) (h : Sound l acts) (ho : l.isOpen = false)
    (hs : ∀ m x, acts m ≠ some (.closing (.stream x))) : l.queue.nodes = [] := by
  cases h.fifo with
  | idle hn => exact hn
  | serving id stage rest _ ht =>
      have hst : l.queue.stage? id = some stage := by simp [WriteQueue.stage?, ht]
      have hw := hr.no_writer (w := .write id) h ho hs
      cases stage with
      | start bytes => exact absurd (by simp [askWrite, WriteQueue.ask, hst]) (hr.write id)
      | locking bytes | sending x send => simp [writerRole, hst, stageAtWriter] at hw

theorem Resting.exists_reading {g : Reading} (hr : Resting l acts) (h : Sound l acts)
    (hn : acts n = some (.reading g)) (ha : ∀ m x, acts m ≠ some (.attaching (.writer x))) :
    ∃ m x, acts m = some (.reading (.reading x)) := by
  cases g with
  | start => exact absurd rfl (hr.task hn)
  | reading x => exact ⟨n, x, hn⟩
  | waiting =>
      obtain ⟨m, x, hm | hm⟩ := hr.first_reader (n := n) h (by simp [hn, Activity.atReader])
      · exact ⟨m, x, hm⟩
      · exact absurd hm (ha m x)

/-- Whatever goes on at a closed link that no stream is shut down at waits for a read. -/
theorem Resting.exists_reading_of_closed (hr : Resting l acts) (h : Sound l acts)
    (ho : l.isOpen = false) (hs : ∀ m x, acts m ≠ some (.closing (.stream x)))
    (hn : acts n = some a) : ∃ m x, acts m = some (.reading (.reading x)) := by
  have hw : ∀ m, Activity.atWriter (acts m) = .out := fun m => hr.no_writer (w := .task m) h ho hs
  have ha : ∀ m x, acts m ≠ some (.attaching (.writer x)) := by
    intro m x hm
    simpa [hm, Activity.atWriter] using hw m
  have first : Activity.atReader (acts n) ≠ .out → ∃ m x, acts m = some (.reading (.reading x)) := by
    intro hl
    obtain ⟨m, x, hm | hm⟩ := hr.first_reader h hl
    · exact ⟨m, x, hm⟩
    · exact absurd hm (ha m x)
  cases a with
  | attaching k =>
      cases k with
      | reader x => exact first (by simp [hn, Activity.atReader])
      | writer x => exact absurd hn (ha n x)
  | closing k =>
      cases k with
      | reader => exact first (by simp [hn, Activity.atReader])
      | writer => simpa [hn, Activity.atWriter] using hw n
      | stream x => exact absurd hn (hs n x)
  | reading g => exact hr.exists_reading h hn ha

theorem Resting.no_signal {x : StreamId} (hr : Resting l acts)
    (hn : acts n = some (.reading (.reading x))) : l.wake.pending = none := by
  cases hp : l.wake.pending with
  | none => rfl
  | some s => exact absurd (by simp [Activity.ask, askReading, hp]) (hr.task hn)

end Rfcomm.Link
