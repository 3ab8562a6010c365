import Rfcomm.Proofs.Connection.Sound
import Rfcomm.Proofs.Link.Closing
import Rfcomm.Proofs.WriteQueue.Bytes
/-!
One thing at a time: a queue with one write, a link that is ready to be read, and a connection with one
task. What is still to be sent of the write shrinks by what the stream takes.
-/
namespace Rfcomm

/-! ## Sends -/

namespace Send

variable {s s' : Send} {isOpen : Bool} {r : Reply}

theorem rest_of_more (x : StreamId) (h : s.resume isOpen r = some (.more s')) :
    s.rest = (s.ask isOpen x).taken r ++ s'.rest := by
  unfold resume at h
  unfold ask
  split at h
  · rw [if_pos ‹_›]
    split at h
    · rw [if_pos ‹_›]
      split at h
      · cases h
      · obtain ⟨-, h⟩ := Option.ite_none_right_eq_some.mp h
        cases h
        simp [Ask.taken, rest, ← List.drop_drop]
      · split at h <;> cases h
        rfl
      · cases h
    · split at h <;> cases h
  · split at h <;> cases h

theorem rest_of_done {k : Nat} (x : StreamId) (h : s.resume isOpen r = some (.done (.ok k))) :
    s.rest = [] ∧ (s.ask isOpen x).taken r = [] := by
  unfold resume at h
  unfold ask
  split at h
  · rw [if_pos ‹_›]
    split at h
    · split at h
      · cases h
      · obtain ⟨-, h⟩ := Option.ite_none_right_eq_some.mp h
        cases h
      · split at h <;> cases h
      · cases h
    · rw [if_neg ‹_›]
      split at h <;> cases h
      exact ⟨List.drop_eq_nil_of_le (by omega), rfl⟩
  · split at h <;> cases h

theorem taken_prefix (s : Send) (isOpen : Bool) (x : StreamId) (r : Reply) :
    (s.ask isOpen x).taken r <+: s.rest := by
  unfold Ask.taken
  split
  · rename_i hask
    unfold ask at hask
    split at hask
    · split at hask <;> cases hask
      exact List.take_prefix _ _
    · cases hask
  · exact List.nil_prefix

end Send

/-! ## A queue with one write -/

namespace WriteQueue

variable {q q' : WriteQueue} {n m : Nat} {isOpen : Bool} {r : Reply} {st : Stage} {bytes : Bytes}
  {result : Option (Except WriteError Nat)}

/-- What is still to be sent of the write that a worker serves. -/
def Stage.left : Stage → Bytes
  | .start bytes | .locking bytes => bytes
  | .sending _ send => send.rest

/-- Nothing is queued. -/
structure Idle (q : WriteQueue) : Prop where
  nodes : q.nodes = []
  tasks : q.tasks = []

/-- One write is served, and none waits. -/
structure Serves (q : WriteQueue) (n : Nat) (st : Stage) : Prop where
  nodes : q.nodes = [⟨n, none⟩]
  tasks : q.tasks = [⟨n, st⟩]

theorem Idle.congr (h : q.Idle) (hn : q'.nodes = q.nodes) (ht : q'.tasks = q.tasks) : q'.Idle :=
  ⟨hn.trans h.nodes, ht.trans h.tasks⟩

theorem Serves.congr (h : q.Serves n st) (hn : q'.nodes = q.nodes) (ht : q'.tasks = q.tasks) :
    q'.Serves n st :=
  ⟨hn.trans h.nodes, ht.trans h.tasks⟩

theorem Idle.enqueue (h : q.Idle) : (q.enqueue bytes).2.Serves (q.enqueue bytes).1 (.start bytes) := by
  constructor <;> simp [WriteQueue.enqueue, dispatch, h.nodes, h.tasks]

theorem Idle.resume (h : q.Idle) : q.resume isOpen m r = none := by
  simp [WriteQueue.resume, stage?, h.tasks]

theorem Serves.stage? (h : q.Serves n st) : q.stage? n = some st := by
  simp [WriteQueue.stage?, h.tasks]

theorem Serves.setStage {st' : Stage} (h : q.Serves n st) (hn : q'.nodes = q.nodes)
    (ht : q'.tasks = q.tasks) : (q'.setStage n st').Serves n st' := by
  constructor <;> simp [WriteQueue.setStage, hn, ht, h.nodes, h.tasks]

theorem Serves.complete (h : q.Serves n st) (hn : q'.nodes = q.nodes) (ht : q'.tasks = q.tasks) :
    (q'.complete n).Idle := by
  constructor <;> simp [WriteQueue.complete, dispatch, hn, ht, h.nodes, h.tasks]

/-- What a write can go on with. -/
theorem reply_of_resume (hr : q.resume isOpen m r = some (q', result)) :
    r = .go ∨ (∃ x, r = .wrote x) ∨ ∃ x, r = .flushed x := by
  cases move_of_resume hr with
  | line | refuse | take | miss => exact .inl rfl
  | send _ h | finish _ h =>
      cases r with
      | go => exact .inl rfl
      | wrote x => exact .inr (.inl ⟨x, rfl⟩)
      | flushed x => exact .inr (.inr ⟨x, rfl⟩)
      | _ => simp [Send.resume] at h

/-- No read is answered by what a write goes on with. -/
theorem not_read_of_resume (hr : q.resume isOpen m r = some (q', result)) {got : Except Fault Bytes} :
    r ≠ .read got := by
  rcases reply_of_resume hr with rfl | ⟨_, rfl⟩ | ⟨_, rfl⟩ <;> simp

/-- Only the worker of the write goes on. Either the write goes on and has less to send by what was
taken, or it is done: with nothing left, or with a failure. -/
theorem Serves.of_resume (h : q.Serves n st) (hr : q.resume isOpen m r = some (q', result)) :
    m = n ∧ ((∃ st', result = none ∧ q'.Serves n st' ∧
        st.left = (q.ask isOpen n).taken r ++ st'.left) ∨
      (∃ k, result = some (.ok k) ∧ q'.Idle ∧ st.left = [] ∧ (q.ask isOpen n).taken r = []) ∨
      ∃ e, result = some (.error e) ∧ q'.Idle ∧ (q.ask isOpen n).taken r <+: st.left) := by
  obtain rfl : m = n := by
    by_contra hm
    simp [WriteQueue.resume, WriteQueue.stage?, h.tasks, Ne.symm hm] at hr
  refine ⟨rfl, ?_⟩
  simp only [WriteQueue.resume, WriteQueue.ask, h.stage?] at hr ⊢
  split at hr
  · cases ‹some st = _›
    split at hr <;> cases hr
    · exact .inl ⟨_, rfl, h.setStage rfl rfl, rfl⟩
    · exact .inr (.inr ⟨_, rfl, h.complete rfl rfl, List.nil_prefix⟩)
  · cases ‹some st = _›
    split at hr
    · rename_i hheld
      have hnone : (Ask.turn (q.lock.isHeldBy (.write m))).taken .go = [] := by
        rw [hheld]
        rfl
      split at hr <;> cases hr
      · exact .inl ⟨_, rfl, h.setStage rfl rfl, by simp [hnone, Stage.left, Send.rest]⟩
      · exact .inr (.inr ⟨_, rfl, h.complete rfl rfl, hnone ▸ List.nil_prefix⟩)
    · cases hr
  · rename_i x send _
    cases ‹some st = _›
    split at hr
    · rename_i hs
      cases hr
      exact .inl ⟨_, rfl, h.setStage rfl rfl, Send.rest_of_more x hs⟩
    · rename_i result hs
      cases hr
      cases result with
      | ok k =>
          obtain ⟨hrest, htaken⟩ := Send.rest_of_done x hs
          exact .inr (.inl ⟨k, rfl, h.complete rfl rfl, hrest, htaken⟩)
      | error e => exact .inr (.inr ⟨e, rfl, h.complete rfl rfl, Send.taken_prefix send _ x _⟩)
    · cases hr
  · cases hr

end WriteQueue

/-! ## A link that is ready -/

namespace Link

variable {l l' : Link} {w : Worker} {g : Reading} {r : Reply} {p : Progress Reading Seen}

/-- A link that can be read: it is open, with a stream and without a signal. -/
structure Ready (l : Link) : Prop where
  isOpen : l.isOpen = true
  stream : l.stream.isSome = true
  calm : l.wake.pending = none

/-- A read of such a link ends with what the stream answers, or dies for want of a buffer. -/
theorem Ready.of_resumeReading (hl : l.Ready) (h : l.resumeReading w g r = some (l', p)) :
    l'.Ready ∧ l'.queue = l.queue ∧ ((∃ g', p = .more g' ∧ r = .go) ∨ (p = .done .died ∧ r = .go) ∨
      ∃ result, r = .read result ∧ p = .done (.ofRead result)) := by
  obtain ⟨ho, hs, hp⟩ := hl
  unfold resumeReading at h
  split at h
  · rw [if_pos ho] at h
    cases h
    exact ⟨⟨ho, hs, hp⟩, rfl, .inl ⟨_, rfl, rfl⟩⟩
  · split at h
    · split at h
      · simp [‹l.stream = none›] at hs
      · split at h <;> cases h
        · exact ⟨⟨ho, hs, hp⟩, rfl, .inr (.inl ⟨rfl, rfl⟩)⟩
        · exact ⟨⟨ho, hs, hp⟩, rfl, .inl ⟨_, rfl, rfl⟩⟩
    · cases h
  · split at h
    · simp [hp] at ‹l.wake.pending = some _›
    · obtain ⟨-, h⟩ := Option.ite_none_right_eq_some.mp h
      cases h
      exact ⟨⟨ho, hs, hp⟩, rfl, .inr (.inr ⟨_, rfl, rfl⟩)⟩
    · cases h
  · cases h

end Link

/-! ## A connection with one task -/

namespace Connection

variable {c c' : Connection} {n m : Nat} {st : Stage} {r : Reply} {o : Option Outcome}

/-- A connection that can be read. -/
structure Ready (c : Connection) : Prop where
  phase : c.phase = .connected
  link : c.link.Ready

theorem Ready.isOpen (h : c.Ready) : c.isOpen = true := by
  rw [Connection.isOpen, h.phase, h.link.isOpen]
  rfl

theorem place_tasks (c : Connection) (hc : c.tasks = [⟨n, st⟩]) (next : Option Stage) :
    (c.place n next).tasks = (next.map (Task.mk n)).toList := by
  cases next <;> simp [place, keep, finish, hc]

/-- Only the one task goes on. -/
theorem turn_of_resume (hc : c.tasks = [⟨n, st⟩]) (h : c.resume (.task m) r = some (c', o)) :
    m = n ∧ ∃ c₁ next, Turn c n st r c₁ next o ∧ c'.tasks = (next.map (Task.mk n)).toList ∧
      c'.link = c₁.link ∧ c'.phase = c₁.phase := by
  obtain ⟨t, ht, h⟩ := Option.bind_eq_some_iff.mp h
  rw [hc] at ht
  obtain ⟨rfl, rfl⟩ : n = m ∧ t = ⟨n, st⟩ := by
    simp only [List.find?_cons, List.find?_nil] at ht
    split at ht <;> cases ht
    exact ⟨of_decide_eq_true ‹_›, rfl⟩
  obtain ⟨c₁, next, hturn, rfl⟩ := turn_of_resumeStage h
  exact ⟨rfl, c₁, next, hturn, place_tasks c₁ (hturn.table.1.trans hc) next, place_link c₁,
    place_phase c₁⟩

/-- What a read of the stream comes to, unless it is bytes. -/
inductive Last : Except Fault Bytes → Outcome → Prop
  | ended : Last (.ok []) .closed
  | failed {f} : Last (.error f) (.failed (.read f))

/-- The one task reads. It goes on, dies for want of a buffer, has bytes, or ends the connection. -/
theorem Ready.of_reading {g : Link.Reading} (hr : c.Ready) (hc : c.tasks = [⟨n, .reading g⟩])
    (h : c.resume (.task m) r = some (c', o)) :
    m = n ∧ c'.link.queue = c.link.queue ∧
      ((∃ g', r = .go ∧ o = none ∧ c'.tasks = [⟨n, .reading g'⟩] ∧ c'.Ready) ∨
        (r = .go ∧ o = some (.failed .workerGone) ∧ c'.tasks = []) ∨
        (∃ bytes, bytes ≠ [] ∧ r = .read (.ok bytes) ∧ o = some (.data bytes) ∧ c'.tasks = [] ∧
          c'.Ready) ∨
        ∃ result last k, Last result last ∧ r = .read result ∧ o = none ∧
          c'.tasks = [⟨n, .ending last k⟩]) := by
  obtain ⟨rfl, c₁, next, ht, htasks, hlink, hphase⟩ := turn_of_resume hc h
  refine ⟨rfl, ?_⟩
  rw [hlink]
  cases ht with
  | read hread =>
      obtain ⟨hl, hq, ⟨g', hp, rfl⟩ | ⟨hp, -⟩ | ⟨_, -, hp⟩⟩ := hr.link.of_resumeReading hread <;> cases hp
      exact ⟨hq, .inl ⟨_, rfl, rfl, htasks, hphase.trans hr.phase, hlink ▸ hl⟩⟩
  | @report _ _ link e hread he =>
      obtain ⟨hl, hq, ⟨g', hp, -⟩ | ⟨hp, rfl⟩ | ⟨result, rfl, hp⟩⟩ := hr.link.of_resumeReading hread <;>
        cases hp
      · exact ⟨hq, .inr (.inl ⟨rfl, rfl, htasks⟩)⟩
      · refine ⟨hq, .inr (.inr (.inl ?_))⟩
        cases result with
        | error f => cases he
        | ok bytes =>
            cases bytes with
            | nil => cases he
            | cons b bytes =>
                exact ⟨_, List.cons_ne_nil _ _, rfl, rfl, htasks, hphase.trans hr.phase, hlink ▸ hl⟩
  | @lose _ _ link e hread he =>
      obtain ⟨-, hq, ⟨g', hp, -⟩ | ⟨hp, rfl⟩ | ⟨result, rfl, hp⟩⟩ := hr.link.of_resumeReading hread <;>
        cases hp
      · cases he
      · refine ⟨hq, .inr (.inr (.inr ⟨result, _, _, ?_, rfl, rfl, htasks⟩))⟩
        cases result with
        | error f => exact .failed
        | ok bytes =>
            cases bytes with
            | nil => exact .ended
            | cons => cases he
  | close hcl => cases hcl
  | closed hcl => cases hcl

/-- The one task closes after a read, whose outcome it reports in the end. -/
theorem of_ending {last : Outcome} {k : Link.Closing} (hc : c.tasks = [⟨n, .ending last k⟩])
    (h : c.resume (.task m) r = some (c', o)) :
    m = n ∧ (r = .go ∨ r = .shutDown) ∧ c'.link.queue.nodes = c.link.queue.nodes ∧
      c'.link.queue.tasks = c.link.queue.tasks ∧
      ((∃ k', o = none ∧ c'.tasks = [⟨n, .ending last k'⟩]) ∨ (o = some last ∧ c'.tasks = [])) := by
  obtain ⟨rfl, c₁, next, ht, htasks, hlink, -⟩ := turn_of_resume hc h
  refine ⟨rfl, ?_⟩
  rw [hlink]
  cases ht with
  | close hcl hk =>
      obtain ⟨hn, hq⟩ := (Link.Moves.move (Link.move_of_resumeClosing hk)).queue
      cases hcl
      exact ⟨Link.reply_of_resumeClosing hk, hn, hq, .inl ⟨_, rfl, htasks⟩⟩
  | closed hcl hk =>
      obtain ⟨hn, hq⟩ := (Link.Moves.move (Link.move_of_resumeClosing hk)).queue
      cases hcl
      exact ⟨Link.reply_of_resumeClosing hk, hn, hq, .inr ⟨rfl, htasks⟩⟩

/-- Whoever calls: the one task connects or attaches, and nothing was asked of the link yet. -/
structure Calling (c : Connection) (n : Nat) : Prop where
  phase : c.phase = .connecting
  tasks : ∃ st, c.tasks = [⟨n, st⟩] ∧
    ((∃ target, st = .connecting target) ∨ ∃ target k, st = .attaching target k)

/-- The one task calls. It goes on, fails, or leaves a connection that is ready to be read. -/
theorem Calling.of_resume (hc : c.Calling n) (h : c.resume (.task m) r = some (c', o)) :
    m = n ∧ (r = .go ∨ ∃ result, r = .connected result) ∧
      c'.link.queue.nodes = c.link.queue.nodes ∧ c'.link.queue.tasks = c.link.queue.tasks ∧
      ((o = none ∧ c'.Calling n) ∨ (∃ e, o = some (.failed e) ∧ c'.tasks = []) ∨
        (o = some .connected ∧ c'.Ready ∧ c'.tasks = [])) := by
  obtain ⟨hp, st, htask, hst⟩ := hc
  obtain ⟨rfl, c₁, next, ht, htasks, hlink, hphase⟩ := turn_of_resume htask h
  refine ⟨rfl, ?_⟩
  rw [hlink]
  obtain ⟨hn, hq⟩ := ht.link.queue
  cases ht with
  | beginAttach =>
      exact ⟨.inr ⟨_, rfl⟩, hn, hq, .inl ⟨rfl, hphase.trans hp, _, htasks, .inr ⟨_, _, rfl⟩⟩⟩
  | fail => exact ⟨.inr ⟨_, rfl⟩, hn, hq, .inr (.inl ⟨_, rfl, htasks⟩)⟩
  | attach hr =>
      obtain rfl := Link.reply_of_resumeAttach hr
      exact ⟨.inl rfl, hn, hq, .inl ⟨rfl, hphase.trans hp, _, htasks, .inr ⟨_, _, rfl⟩⟩⟩
  | abandon _ hclosed => simp [hp] at hclosed
  | @opened _ k _ link _ hr _ =>
      obtain rfl := Link.reply_of_resumeAttach hr
      refine ⟨.inl rfl, hn, hq, .inr (.inr ⟨rfl, ⟨hphase, hlink ▸ ?_⟩, htasks⟩)⟩
      have hm := Link.move_of_resumeAttach hr
      cases hm
      exact ⟨rfl, rfl, rfl⟩
  | close hcl => rcases hst with ⟨_, rfl⟩ | ⟨_, _, rfl⟩ <;> cases hcl
  | closed hcl => rcases hst with ⟨_, rfl⟩ | ⟨_, _, rfl⟩ <;> cases hcl
  | _ => rcases hst with ⟨_, h⟩ | ⟨_, _, h⟩ <;> cases h

end Connection

end Rfcomm
