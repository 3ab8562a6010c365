import Rfcomm.Link
import Rfcomm.Proofs.WriteQueue.Fifo
/-!
What tasks do at a link, and what keeps the link sound while they do it: both locks are kept, the
queue is in order, and whoever reads, sends or shuts down has the stream that is held.
-/
namespace Rfcomm.Link

/-- What a task does at a link. -/
inductive Activity
  | attaching (a : Attach)
  | closing (k : Closing)
  | reading (g : Reading)

/-- What a task waits for. -/
def Activity.ask (l : Link) (w : Worker) : Activity → Ask
  | attaching a => l.askAttach w a
  | closing k => l.askClosing w k
  | reading g => l.askReading w g

/-- What a task is at with respect to the reading half. -/
def Activity.atReader : Option Activity → Lock.Role
  | some (attaching (.reader _)) | some (closing .reader) | some (reading .waiting) => .waiting
  | some (attaching (.writer _)) | some (reading (.reading _)) => .holding
  | _ => .out

/-- What a task is at with respect to the writing half. -/
def Activity.atWriter : Option Activity → Lock.Role
  | some (attaching (.writer _)) | some (closing .writer) => .waiting
  | some (closing (.stream _)) => .holding
  | _ => .out

/-- What the worker of a write is at with respect to the writing half. -/
def stageAtWriter : Option WriteQueue.Stage → Lock.Role
  | some (.locking _) => .waiting
  | some (.sending _ _) => .holding
  | _ => .out

@[simp] theorem stageAtWriter_none : stageAtWriter none = .out := rfl

variable {l l' : Link} {acts : Nat → Option Activity} {n : Nat} {a a' : Option Activity}

/-- What everybody is at with respect to the reading half. -/
def readerRole (acts : Nat → Option Activity) : Worker → Lock.Role
  | .task n => Activity.atReader (acts n)
  | .write _ => .out

/-- What everybody is at with respect to the writing half. -/
def writerRole (stage? : Nat → Option WriteQueue.Stage) (acts : Nat → Option Activity) :
    Worker → Lock.Role
  | .task n => Activity.atWriter (acts n)
  | .write id => stageAtWriter (stage? id)

@[simp] theorem readerRole_update :
    readerRole (Function.update acts n a) =
      Function.update (readerRole acts) (.task n) (Activity.atReader a) := by
  funext w
  cases w with
  | task m => by_cases hm : m = n <;> simp [readerRole, hm]
  | write m => simp [readerRole]

@[simp] theorem writerRole_update {stage? : Nat → Option WriteQueue.Stage} :
    writerRole stage? (Function.update acts n a) =
      Function.update (writerRole stage? acts) (.task n) (Activity.atWriter a) := by
  funext w
  cases w with
  | task m => by_cases hm : m = n <;> simp [writerRole, hm]
  | write m => simp [writerRole]

/-- A link that is as its tasks say. -/
structure Sound (l : Link) (acts : Nat → Option Activity) : Prop where
  reader : l.lock.Keeps (readerRole acts)
  writer : l.queue.lock.Keeps (writerRole l.queue.stage? acts)
  fifo : WriteQueue.Fifo l.queue
  reads : ∀ n x, acts n = some (.reading (.reading x)) → l.stream = some x
  sends : ∀ id x send, l.queue.stage? id = some (.sending x send) → l.queue.stream = some x
  /-- A stream that is shut down was taken away. -/
  shuts : ∀ n x, acts n = some (.closing (.stream x)) → l.queue.stream = none

theorem sound_create (t : Config.Tuning) : (create t).Sound fun _ => none where
  reader := by
    have he : readerRole (fun _ => none) = fun _ => .out := by funext w; cases w <;> rfl
    rw [he]
    exact .empty
  writer := by
    have he : writerRole (create t).queue.stage? (fun _ => none) = fun _ => .out := by
      funext w; cases w <;> rfl
    rw [he]
    exact .empty
  fifo := .idle rfl rfl
  reads := by simp
  sends := by
    intro id x send hs
    cases hs
  shuts := by simp

/-! ## Moves -/

/-- What a task can do at a link. -/
inductive Move (l : Link) (n : Nat) : Option Activity → Link → Option Activity → Prop
  | beginAttach {x} : Move l n none (l.joinReader (.task n)) (some (.attaching (.reader x)))
  | haveReader {x} : l.lock.isHeldBy (.task n) = true →
      Move l n (some (.attaching (.reader x))) (l.joinWriter (.task n)) (some (.attaching (.writer x)))
  | attach {x} : l.queue.lock.isHeldBy (.task n) = true →
      Move l n (some (.attaching (.writer x))) ((l.install x).leaveReader.leaveWriter) none
  | beginClosing : Move l n none (l.markClosed.joinReader (.task n)) (some (.closing .reader))
  | release : l.lock.isHeldBy (.task n) = true →
      Move l n (some (.closing .reader))
        (({ l with stream := .unset }.leaveReader).joinWriter (.task n)) (some (.closing .writer))
  | takeOut {x} : l.queue.lock.isHeldBy (.task n) = true → l.queue.stream = some x →
      Move l n (some (.closing .writer)) { l with queue := { l.queue with stream := .unset } }
        (some (.closing (.stream x)))
  | nothingThere : l.queue.lock.isHeldBy (.task n) = true → l.queue.stream = none →
      Move l n (some (.closing .writer)) l.leaveWriter none
  | shutDown {x} : Move l n (some (.closing (.stream x))) l.leaveWriter none
  | beginReading : Move l n none l (some (.reading .start))
  | refuse : l.isOpen = false → Move l n (some (.reading .start)) l none
  | queue : l.isOpen = true →
      Move l n (some (.reading .start)) (l.joinReader (.task n)) (some (.reading .waiting))
  /-- There is no stream, or no buffer. -/
  | giveUp : l.lock.isHeldBy (.task n) = true →
      Move l n (some (.reading .waiting)) l.leaveReader none
  | take {x} : l.lock.isHeldBy (.task n) = true → l.stream = some x →
      Move l n (some (.reading .waiting)) l (some (.reading (.reading x)))
  | wake {x s} : l.wake.pending = some s →
      Move l n (some (.reading (.reading x))) ({ l with wake := l.wake.drain.2 }.leaveReader) none
  | answer {x} : l.wake.pending = none →
      Move l n (some (.reading (.reading x))) l.leaveReader none

/-- What a task can do at a link in one step: nothing, one move, or one that it starts to close after. -/
inductive Moves (l : Link) (n : Nat) (a : Option Activity) : Link → Option Activity → Prop
  | none : Moves l n a l a
  | move {l₁ a₁} : Move l n a l₁ a₁ → Moves l n a l₁ a₁
  | close {l₁} : Move l n a l₁ none →
      Moves l n a (l₁.markClosed.joinReader (.task n)) (some (.closing .reader))

/-- What is left to do of a piece of work. -/
def Activity.next {σ α : Type} (f : σ → Activity) : Progress σ α → Option Activity
  | .more k => some (f k)
  | .done _ => none

theorem move_of_resumeAttach {k : Attach} {r : Reply} {p : Progress Attach Unit}
    (h : l.resumeAttach (.task n) k r = some (l', p)) :
    Move l n (some (.attaching k)) l' (Activity.next .attaching p) := by
  unfold resumeAttach at h
  split at h
  · split at h <;> cases h
    exact .haveReader ‹_›
  · split at h <;> cases h
    exact .attach ‹_›
  · cases h

theorem move_of_resumeClosing {k : Closing} {r : Reply} {p : Progress Closing Unit}
    (h : l.resumeClosing (.task n) k r = some (l', p)) :
    Move l n (some (.closing k)) l' (Activity.next .closing p) := by
  unfold resumeClosing at h
  split at h
  · split at h <;> cases h
    exact .release ‹_›
  · split at h
    · split at h <;> cases h
      · exact .takeOut ‹_› ‹_›
      · exact .nothingThere ‹_› ‹_›
    · cases h
  · cases h
    exact .shutDown
  · cases h

theorem move_of_resumeReading {k : Reading} {r : Reply} {p : Progress Reading Seen}
    (h : l.resumeReading (.task n) k r = some (l', p)) :
    Move l n (some (.reading k)) l' (Activity.next .reading p) := by
  unfold resumeReading at h
  split at h
  · split at h <;> cases h
    · exact .queue ‹_›
    · rename_i ho
      exact .refuse (by simpa using ho)
  · split at h
    · split at h
      · cases h
        exact .giveUp ‹_›
      · split at h <;> cases h
        · exact .giveUp ‹_›
        · exact .take ‹_› ‹_›
    · cases h
  · split at h
    · cases h
      exact .wake ‹_›
    · obtain ⟨-, h⟩ := Option.ite_none_right_eq_some.mp h
      cases h
      exact .answer ‹_›
    · cases h
  · cases h

theorem Move.isOpen (h : Move l n a l' a') (hl : l.isOpen = false) :
    l'.isOpen = false ∨ (∃ k, a = some (.attaching k)) ∧ a' = none := by
  cases h with
  | attach => exact .inr ⟨⟨_, rfl⟩, rfl⟩
  | beginClosing => exact .inl rfl
  | _ => exact .inl hl

theorem Moves.isOpen (h : Moves l n a l' a') (hl : l.isOpen = false) :
    l'.isOpen = false ∨ (∃ k, a = some (.attaching k)) ∧ a' = .none := by
  cases h with
  | none => exact .inl hl
  | move hm => exact hm.isOpen hl
  | close => exact .inl rfl

theorem Moves.queue (h : Moves l n a l' a') :
    l'.queue.nodes = l.queue.nodes ∧ l'.queue.tasks = l.queue.tasks := by
  cases h with
  | none => exact ⟨rfl, rfl⟩
  | move h | close h => cases h <;> exact ⟨rfl, rfl⟩

/-! ## Every move keeps a link sound -/

/-- Whoever has the reading half is the only one to read. -/
theorem Sound.not_reading {x : StreamId} (h : Sound l acts) (hw : l.lock.isHeldBy (.task n) = true)
    (ha : ∀ x, acts n ≠ some (.reading (.reading x))) (m : Nat) :
    acts m ≠ some (.reading (.reading x)) := by
  intro hm
  have he := h.reader.unique (a := .task m) (by simp [readerRole, hm, Activity.atReader]) hw
  cases he
  exact ha x hm

theorem Sound.not_shutting {x : StreamId} (h : Sound l acts)
    (hw : l.queue.lock.isHeldBy (.task n) = true)
    (ha : ∀ x, acts n ≠ some (.closing (.stream x))) (m : Nat) :
    acts m ≠ some (.closing (.stream x)) := by
  intro hm
  have he := h.writer.unique (a := .task m) (by simp [writerRole, hm, Activity.atWriter]) hw
  cases he
  exact ha x hm

theorem Sound.not_sending {x : StreamId} {send : Send} (h : Sound l acts)
    (hw : l.queue.lock.isHeldBy (.task n) = true) (id : Nat) :
    l.queue.stage? id ≠ some (.sending x send) := by
  intro hs
  have he := h.writer.unique (a := .write id) (by simp [writerRole, hs, stageAtWriter]) hw
  cases he

/-- A link stays sound if the locks are kept and streams change only under those who may. -/
theorem Sound.update (h : Sound l acts)
    (reader : l'.lock.Keeps (Function.update (readerRole acts) (.task n) (Activity.atReader a)))
    (writer : l'.queue.lock.Keeps
      (Function.update (writerRole l.queue.stage? acts) (.task n) (Activity.atWriter a)))
    (queue : l'.queue = { l.queue with lock := l'.queue.lock, stream := l'.queue.stream })
    (stream : l'.stream = l.stream ∨ ∀ m x, acts m ≠ some (.reading (.reading x)))
    (reads : ∀ x, a = some (.reading (.reading x)) → l'.stream = some x)
    (sink : l'.queue.stream = l.queue.stream ∨
      (∀ id x send, l.queue.stage? id ≠ some (.sending x send)) ∧
        ∀ m x, acts m ≠ some (.closing (.stream x)))
    (shuts : ∀ x, a = some (.closing (.stream x)) → l'.queue.stream = none) :
    Sound l' (Function.update acts n a) where
  reader := by rwa [readerRole_update]
  writer := by
    rw [writerRole_update, queue]
    exact writer
  fifo := by
    rw [queue]
    exact h.fifo.congr rfl rfl rfl
  reads m x hx := by
    by_cases hm : m = n
    · exact reads x (by simpa [hm] using hx)
    · have hx : acts m = some (.reading (.reading x)) := by simpa [hm] using hx
      rcases stream with he | hn
      · exact he.trans (h.reads m x hx)
      · exact absurd hx (hn m x)
  sends id x send hs := by
    have hs : l.queue.stage? id = some (.sending x send) := by rw [queue] at hs; exact hs
    rcases sink with he | ⟨hn, -⟩
    · exact he.trans (h.sends id x send hs)
    · exact absurd hs (hn id x send)
  shuts m x hx := by
    by_cases hm : m = n
    · exact shuts x (by simpa [hm] using hx)
    · have hx : acts m = some (.closing (.stream x)) := by simpa [hm] using hx
      rcases sink with he | ⟨-, hn⟩
      · exact he.trans (h.shuts m x hx)
      · exact absurd hx (hn m x)

/-- What one task does at a link keeps it sound. -/
theorem Move.sound (h : Sound l acts) (ha : acts n = a) (hm : Move l n a l' a') :
    Sound l' (Function.update acts n a') := by
  have hr : readerRole acts (.task n) = Activity.atReader a := by rw [readerRole, ha]
  have hw : writerRole l.queue.stage? acts (.task n) = Activity.atWriter a := by rw [writerRole, ha]
  cases hm with
  | beginAttach | beginClosing | queue =>
      exact h.update (h.reader.join hr) (h.writer.stay hw) rfl (.inl rfl) (by simp) (.inl rfl) (by simp)
  | haveReader hl =>
      exact h.update (h.reader.hold hl) (h.writer.join hw) rfl (.inl rfl) (by simp) (.inl rfl) (by simp)
  | attach hl =>
      have hl' : l.lock.isHeldBy (.task n) = true := h.reader.first _ hr
      refine h.update (h.reader.leave hl') (h.writer.leave hl) rfl
        (.inr fun m x => h.not_reading hl' (by simp [ha]) m) (by simp)
        (.inr ⟨fun id x send => h.not_sending hl id, fun m x => h.not_shutting hl (by simp [ha]) m⟩)
        (by simp)
  | release hl =>
      exact h.update (h.reader.leave hl) (h.writer.join hw) rfl
        (.inr fun m x => h.not_reading hl (by simp [ha]) m) (by simp) (.inl rfl) (by simp)
  | takeOut hl =>
      exact h.update (h.reader.stay hr) (h.writer.hold hl) rfl (.inl rfl) (by simp)
        (.inr ⟨fun id x send => h.not_sending hl id, fun m x => h.not_shutting hl (by simp [ha]) m⟩)
        (fun _ _ => rfl)
  | nothingThere hl =>
      exact h.update (h.reader.stay hr) (h.writer.leave hl) rfl (.inl rfl) (by simp) (.inl rfl) (by simp)
  | shutDown =>
      exact h.update (h.reader.stay hr) (h.writer.leave (h.writer.first _ hw)) rfl (.inl rfl) (by simp)
        (.inl rfl) (by simp)
  | beginReading | refuse =>
      exact h.update (h.reader.stay hr) (h.writer.stay hw) rfl (.inl rfl) (by simp) (.inl rfl) (by simp)
  | giveUp hl =>
      exact h.update (h.reader.leave hl) (h.writer.stay hw) rfl (.inl rfl) (by simp) (.inl rfl) (by simp)
  | take hl hs =>
      exact h.update (h.reader.hold hl) (h.writer.stay hw) rfl (.inl rfl) (by simpa using hs) (.inl rfl)
        (by simp)
  | wake | answer =>
      exact h.update (h.reader.leave (h.reader.first _ hr)) (h.writer.stay hw) rfl (.inl rfl) (by simp)
        (.inl rfl) (by simp)

theorem Moves.sound (h : Sound l acts) (ha : acts n = a) (hm : Moves l n a l' a') :
    Sound l' (Function.update acts n a') := by
  cases hm with
  | none => rwa [← ha, Function.update_eq_self]
  | move hm => exact hm.sound h ha
  | close hm =>
      have := Move.beginClosing.sound (hm.sound h ha) (Function.update_self ..)
      rwa [Function.update_idem] at this

/-! ## Writes keep a link sound -/

theorem Sound.signals (h : Sound l acts) (flag : OpenFlag) (wake : Wake) :
    Sound { l with flag, wake } acts :=
  ⟨h.reader, h.writer, h.fifo, h.reads, h.sends, h.shuts⟩

theorem Sound.queue {q : WriteQueue} (h : Sound l acts)
    (writer : q.lock.Keeps (writerRole q.stage? acts)) (fifo : WriteQueue.Fifo q)
    (stream : q.stream = l.queue.stream)
    (sends : ∀ id x send, q.stage? id = some (.sending x send) → q.stream = some x) :
    Sound { l with queue := q } acts :=
  ⟨h.reader, writer, fifo, h.reads, sends, fun n x hx => stream.trans (h.shuts n x hx)⟩

theorem stage?_enqueue {q : WriteQueue} (h : WriteQueue.Fifo q) (bytes : Bytes) (id : Nat) :
    (q.enqueue bytes).2.stage? id = q.stage? id ∨
      q.stage? id = none ∧ (q.enqueue bytes).2.stage? id = some (.start bytes) := by
  cases h with
  | idle hn ht =>
      by_cases he : q.nextId = id
      · right
        simp [WriteQueue.stage?, WriteQueue.enqueue, WriteQueue.dispatch, hn, ht, he]
      · left
        simp [WriteQueue.stage?, WriteQueue.enqueue, WriteQueue.dispatch, hn, ht, he]
  | serving _ _ _ hn =>
      left
      simp [WriteQueue.stage?, WriteQueue.enqueue, hn]

theorem Sound.write (h : Sound l acts) (bytes : Bytes) : Sound (l.write bytes).2 acts := by
  have same : ∀ id, stageAtWriter ((l.queue.enqueue bytes).2.stage? id) =
      stageAtWriter (l.queue.stage? id) := by
    intro id
    rcases stage?_enqueue h.fifo bytes id with he | ⟨hn, he⟩
    · rw [he]
    · rw [hn, he]; rfl
  refine h.queue (q := (l.queue.enqueue bytes).2) ?_ (h.fifo.enqueue bytes) (by simp) ?_
  · have hr : writerRole (l.queue.enqueue bytes).2.stage? acts = writerRole l.queue.stage? acts := by
      funext w
      cases w with
      | task n => rfl
      | write id => exact same id
    rw [hr, WriteQueue.enqueue_lock]
    exact h.writer
  · intro id x send hs
    rcases stage?_enqueue h.fifo bytes id with he | ⟨-, he⟩
    · rw [WriteQueue.enqueue_stream]
      exact h.sends id x send (he ▸ hs)
    · rw [he] at hs; cases hs

/-- When the worker of a write goes on, nobody else's role changes. -/
theorem writerRole_of_stage? {q q' : WriteQueue} {id : Nat} {stage : WriteQueue.Stage}
    (h : WriteQueue.Fifo q) (hs : q.stage? id = some stage)
    (others : ∀ m, m ≠ id → ∀ stage', q'.stage? m = some stage' → ∃ bytes, stage' = .start bytes) :
    writerRole q'.stage? acts = Function.update (writerRole q.stage? acts) (.write id)
      (stageAtWriter (q'.stage? id)) := by
  funext w
  cases w with
  | task n => simp [writerRole]
  | write m =>
      by_cases hm : m = id
      · subst hm; simp [writerRole]
      · have hq : q.stage? m = none := by rw [WriteQueue.stage?_of_some h hs, if_neg hm]
        have hq' : stageAtWriter (q'.stage? m) = .out := by
          cases hm' : q'.stage? m with
          | none => rfl
          | some stage' =>
              obtain ⟨bytes, rfl⟩ := others m hm stage' hm'
              rfl
        simp [writerRole, hm, hq, hq']

theorem Sound.step {q : WriteQueue} {id : Nat} {stage : WriteQueue.Stage} (h : Sound l acts)
    (hs : l.queue.stage? id = some stage)
    (writer : q.lock.Keeps (Function.update (writerRole l.queue.stage? acts) (.write id)
      (stageAtWriter (q.stage? id))))
    (fifo : WriteQueue.Fifo q) (stream : q.stream = l.queue.stream)
    (others : ∀ m, m ≠ id → ∀ stage', q.stage? m = some stage' → ∃ bytes, stage' = .start bytes)
    (mine : ∀ x send, q.stage? id = some (.sending x send) → q.stream = some x) :
    Sound { l with queue := q } acts := by
  refine h.queue ?_ fifo stream ?_
  · rwa [writerRole_of_stage? h.fifo hs others]
  · intro m x send hm
    by_cases he : m = id
    · subst he; exact mine x send hm
    · obtain ⟨bytes, hb⟩ := others m he _ hm
      cases hb

/-- One step of the worker of a write keeps a link sound. -/
theorem Sound.resumeWrite {id : Nat} {r : Reply} {result : Option (Except WriteError Nat)}
    (h : Sound l acts) (hr : l.resumeWrite id r = some (l', result)) : Sound l' acts := by
  obtain ⟨⟨q, result⟩, hq, he⟩ := Option.map_eq_some_iff.mp hr
  cases he
  have hf := h.fifo
  have role : ∀ {stage}, l.queue.stage? id = some stage →
      writerRole l.queue.stage? acts (.write id) = stageAtWriter (some stage) := by
    intro stage hs
    rw [writerRole, hs]
  cases WriteQueue.move_of_resume hq with
  | line hs =>
      have hf' : WriteQueue.Fifo { l.queue with lock := l.queue.lock.join (.write id) } :=
        hf.congr rfl rfl rfl
      have hs' := WriteQueue.stage?_setStage hf' hs
      refine h.step hs ?_ (hf'.setStage _) rfl ?_ ?_
      · rw [hs' _ id, if_pos rfl]; exact h.writer.join (role hs)
      · intro m hm stage' hst; simp [hs', hm] at hst
      · intro x send hst; simp [hs'] at hst
  | take hs hl hx =>
      have hs' := WriteQueue.stage?_setStage hf hs
      refine h.step hs ?_ (hf.setStage _) rfl ?_ ?_
      · rw [hs' _ id, if_pos rfl]; exact h.writer.hold hl
      · intro m hm stage' hst; simp [hs', hm] at hst
      · intro x send hst
        simp only [hs', if_true, Option.some.injEq, WriteQueue.Stage.sending.injEq] at hst
        exact hst.1 ▸ hx
  | send hs =>
      have hs' := WriteQueue.stage?_setStage hf hs
      refine h.step hs ?_ (hf.setStage _) rfl ?_ ?_
      · rw [hs' _ id, if_pos rfl]; exact h.writer.stay ((role hs).trans rfl)
      · intro m hm stage' hst; simp [hs', hm] at hst
      · intro x send hst
        simp only [hs', if_true, Option.some.injEq, WriteQueue.Stage.sending.injEq] at hst
        exact hst.1 ▸ h.sends id _ _ hs
  | refuse hs =>
      obtain ⟨hf', -, hn, ho⟩ := hf.complete hs
      refine h.step hs ?_ hf' (by simp) (fun m _ => ho m) (by simp [hn])
      rw [hn, WriteQueue.complete_lock]; exact h.writer.stay (role hs)
  | miss hs hl =>
      have hf' : WriteQueue.Fifo { l.queue with lock := l.queue.lock.leave } := hf.congr rfl rfl rfl
      obtain ⟨hf', -, hn, ho⟩ := hf'.complete hs
      refine h.step hs ?_ hf' (by simp) (fun m _ => ho m) (by simp [hn])
      rw [hn, WriteQueue.complete_lock]; exact h.writer.leave hl
  | finish hs =>
      have hl := h.writer.first (.write id) (role hs)
      have hf' : WriteQueue.Fifo { l.queue with lock := l.queue.lock.leave } := hf.congr rfl rfl rfl
      obtain ⟨hf', -, hn, ho⟩ := hf'.complete hs
      refine h.step hs ?_ hf' (by simp) (fun m _ => ho m) (by simp [hn])
      rw [hn, WriteQueue.complete_lock]; exact h.writer.leave hl

end Rfcomm.Link
