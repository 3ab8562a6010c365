import Rfcomm.Connection
import Rfcomm.Proofs.Link.Activity
import Rfcomm.Proofs.Machine
import Rfcomm.Proofs.Tasks
/-!
Connections as machines: what their owner, their surroundings and their workers can do next, in any
order. A relation has a rule for each way that a step of a task can go, and every step follows one of
them.
-/
namespace Rfcomm.Connection

/-- What can be done with a connection. -/
inductive Act
  | connect (address : String) (channel : UInt8)
  | read
  | write (bytes : Bytes)
  | close (background : Bool)
  | drop (background : Bool)
  | step (w : Worker) (r : Reply)

/-- What comes of an act: a job that was started or refused, and the outcome of one that ended. -/
structure Effect where
  started : Option Worker := none
  refused : Option Error := none
  outcome : Option Outcome := none

/-- A job that was started, unless it was refused. -/
def begun (c : Connection) : Except Error (Worker × Connection) → Connection × Effect
  | .ok (w, c) => (c, { started := some w })
  | .error e => (c, { refused := some e })

/-- What an act does. A worker goes on only with what it waits for. -/
def perform (c : Connection) : Act → Option (Connection × Effect)
  | .connect address channel => some (c.begun (c.connect address channel))
  | .read => some (c.begun c.read)
  | .write bytes => some ((c.write bytes).2, { started := some (c.write bytes).1 })
  | .close background => some (c.close background, {})
  | .drop background => some (c.drop background, {})
  | .step w r => (c.resume w r).map fun (c, outcome) => (c, { outcome })

/-- The stream that an act hands over. -/
def Act.stream? : Act → Option StreamId
  | step _ (.connected (.ok x)) => some x
  | _ => none

/-- One moment of a connection. -/
abbrev Moment := Rfcomm.Moment Connection Act Effect

/-- The streams that were handed over. -/
def handed (ms : List Moment) : List StreamId := ms.filterMap (·.act.stream?)

/-- A connection with its surroundings. -/
def machine (t : Config.Tuning) : Machine Connection Act Effect where
  start := create t
  perform := perform

variable {c c' c₁ : Connection} {id : Nat} {stage : Stage} {next : Option Stage} {r : Reply}
  {out : Option Outcome} {a : Act} {e : Effect}

/-- What the task with a number is at. -/
def stage? (c : Connection) (n : Nat) : Option Stage := Tasks.stageOf Task.id Task.stage c.tasks n

/-- A task goes on at a stage, or is done. -/
def place (c : Connection) (id : Nat) : Option Stage → Connection
  | some stage => c.keep id stage
  | none => c.finish id

/-! ## Rules -/

/-- Whether what a read saw ends the connection. -/
def ends : Link.Seen → Bool
  | .eof | .failed _ => true
  | _ => false

/-- What a read reports of what it saw. -/
def outcome : Link.Seen → Outcome
  | .data bytes => .data bytes
  | .failed f => .failed (.read f)
  | .died => .failed .workerGone
  | _ => .closed

/-- A task that closes the link: how far it is, how it goes on, and what it reports in the end. -/
inductive Closes : Stage → Link.Closing → (Link.Closing → Stage) → Option Outcome → Prop
  | abandoning {k} : Closes (.abandoning k) k .abandoning (some (.failed .connectionClosed))
  | ending {o k} : Closes (.ending o k) k (.ending o) (some o)
  | closing {k} : Closes (.closing k) k .closing none

/-- What a step of a task can do, its own place in the table apart. -/
inductive Turn (c : Connection) (id : Nat) :
    Stage → Reply → Connection → Option Stage → Option Outcome → Prop
  | beginAttach {target x} :
      Turn c id (.connecting target) (.connected (.ok x))
        { c with link := (c.link.beginAttach (.task id) x).1 }
        (some (.attaching target (.reader x))) none
  | fail {target f} :
      Turn c id (.connecting target) (.connected (.error f)) { c with phase := .closed } none
        (some (.failed (.connect f)))
  | attach {target k r link k'} : c.link.resumeAttach (.task id) k r = some (link, .more k') →
      Turn c id (.attaching target k) r { c with link } (some (.attaching target k')) none
  /-- The connection was closed meanwhile. -/
  | abandon {target k r link u} : c.link.resumeAttach (.task id) k r = some (link, .done u) →
      c.phase = .closed →
      Turn c id (.attaching target k) r { c with link := (link.beginClosing (.task id)).1 }
        (some (.abandoning .reader)) none
  | opened {target k r link u} : c.link.resumeAttach (.task id) k r = some (link, .done u) →
      c.phase ≠ .closed →
      Turn c id (.attaching target k) r
        { c with link, phase := .connected, peer := some target } none (some .connected)
  | read {g r link g'} : c.link.resumeReading (.task id) g r = some (link, .more g') →
      Turn c id (.reading g) r { c with link } (some (.reading g')) none
  | report {g r link e} : c.link.resumeReading (.task id) g r = some (link, .done e) →
      ends e = false →
      Turn c id (.reading g) r { c with link } none (some (outcome e))
  /-- The connection ends with what the read saw. -/
  | lose {g r link e} : c.link.resumeReading (.task id) g r = some (link, .done e) →
      ends e = true →
      Turn c id (.reading g) r
        { c with phase := .closed, link := (link.beginClosing (.task id)).1 }
        (some (.ending (outcome e) .reader)) none
  | leave :
      Turn c id .leaving .go { c with link := (c.link.beginClosing (.task id)).1 }
        (some (.closing .reader)) none
  | close {st k f o r link k'} : Closes st k f o →
      c.link.resumeClosing (.task id) k r = some (link, .more k') →
      Turn c id st r { c with link } (some (f k')) none
  | closed {st k f o r link u} : Closes st k f o →
      c.link.resumeClosing (.task id) k r = some (link, .done u) →
      Turn c id st r { c with link } none o

/-! ## Every step follows a rule -/

theorem turn_of_resumeClosing {k : Link.Closing} {f : Link.Closing → Stage} {o : Option Outcome}
    (hc : Closes stage k f o) (h : c.resumeClosing id k f o r = some (c', out)) :
    ∃ c₁ next, Turn c id stage r c₁ next out ∧ c' = c₁.place id next := by
  simp only [resumeClosing] at h
  split at h <;> cases h
  · exact ⟨_, _, .close hc ‹_›, rfl⟩
  · exact ⟨_, none, .closed hc ‹_›, rfl⟩

theorem seen_eq (c : Connection) (id : Nat) (e : Link.Seen) :
    c.seen id e = if ends e then c.endWith id (outcome e) else c.report id (outcome e) := by
  cases e <;> rfl

/-- Every step of a task follows one of the rules. -/
theorem turn_of_resumeStage (h : c.resumeStage id stage r = some (c', out)) :
    ∃ c₁ next, Turn c id stage r c₁ next out ∧ c' = c₁.place id next := by
  cases stage with
  | connecting target =>
      simp only [resumeStage] at h
      split at h <;> cases h
      · exact ⟨_, _, .beginAttach, rfl⟩
      · exact ⟨_, none, .fail, rfl⟩
  | attaching target k =>
      simp only [resumeStage] at h
      split at h
      · cases h
        exact ⟨_, _, .attach ‹_›, rfl⟩
      · simp only [attached, Option.some.injEq] at h
        split at h <;> cases h
        · exact ⟨_, _, .abandon ‹_› ‹_›, rfl⟩
        · exact ⟨_, none, .opened ‹_› ‹_›, rfl⟩
      · cases h
  | reading g =>
      simp only [resumeStage] at h
      split at h
      · cases h
        exact ⟨_, _, .read ‹_›, rfl⟩
      · rename_i link e hr
        rw [seen_eq, Option.some.injEq] at h
        split at h <;> cases h
        · exact ⟨_, _, .lose hr ‹_›, rfl⟩
        · rename_i he
          exact ⟨_, none, .report hr (by simpa using he), rfl⟩
      · cases h
  | leaving =>
      simp only [resumeStage] at h
      split at h <;> cases h
      exact ⟨_, _, .leave, rfl⟩
  | abandoning k => exact turn_of_resumeClosing .abandoning h
  | ending o k => exact turn_of_resumeClosing .ending h
  | closing k => exact turn_of_resumeClosing .closing h

/-! ## What can be done -/

/-- What the acts do that are no step of a task. -/
inductive Asks (c : Connection) : Act → Connection → Effect → Prop
  | connect {address channel target} : Target.parse address channel = .ok target →
      c.phase = .idle →
      Asks c (.connect address channel)
        ({ c with phase := .connecting }.spawn (.connecting target)).2
        { started := some (.task c.nextTask) }
  | read : c.isOpen = true →
      Asks c .read (c.spawn (.reading .start)).2 { started := some (.task c.nextTask) }
  | write {bytes} :
      Asks c (.write bytes) { c with link := (c.link.write bytes).2 }
        { started := some (.write c.link.queue.nextId) }
  | close {act background owned} : act = .close background ∨ act = .drop background →
      c.phase ≠ .closed → Asks c act { c.close background with owned } {}
  /-- Nothing happens, but that the owner lets go. -/
  | aside {act refused owned} : (∀ w r, act ≠ .step w r) → Asks c act { c with owned } { refused }
  | send {n r link result} : c.link.resumeWrite n r = some (link, result) →
      Asks c (.step (.write n) r) { c with link }
        { outcome := result.map fun x => .ofExcept .sent (x.mapError .write) }

/-- What the acts of a connection do. -/
inductive Does (c : Connection) : Act → Connection → Effect → Prop
  | ask {act c' e} : Asks c act c' e → Does c act c' e
  | turn {n st r c₁ next out} : c.stage? n = some st → Turn c n st r c₁ next out →
      Does c (.step (.task n) r) (c₁.place n next) { outcome := out }

theorem does_of_perform (h : c.perform a = some (c', e)) : Does c a c' e := by
  cases a with
  | connect address channel =>
      cases ht : Target.parse address channel with
      | error f =>
          simp only [perform, connect, ht] at h
          cases h
          exact .ask (.aside (by simp))
      | ok target =>
          by_cases hp : c.phase = .idle <;>
            simp only [perform, connect, ht, bind, Except.bind, hp, if_true, if_false] at h <;>
            cases h
          · exact .ask (.connect ht hp)
          · exact .ask (.aside (by simp))
  | read =>
      simp only [perform, read] at h
      split at h <;> cases h
      · exact .ask (.read ‹_›)
      · exact .ask (.aside (by simp))
  | write bytes => cases h; exact .ask .write
  | close background =>
      cases h
      by_cases hp : c.phase = .closed
      · rw [Connection.close, if_pos hp]
        exact .ask (.aside (by simp))
      · exact .ask (.close (.inl rfl) hp)
  | drop background =>
      cases h
      by_cases hp : c.phase = .closed
      · rw [Connection.drop, Connection.close, if_pos hp]
        exact .ask (.aside (by simp))
      · exact .ask (.close (.inr rfl) hp)
  | step w r =>
      obtain ⟨⟨c₁, out⟩, hr, he⟩ := Option.map_eq_some_iff.mp h
      cases he
      cases w with
      | write n =>
          obtain ⟨⟨link, result⟩, hw, he⟩ := Option.map_eq_some_iff.mp hr
          cases he
          exact .ask (.send hw)
      | task n =>
          obtain ⟨t, ht, hr⟩ := Option.bind_eq_some_iff.mp hr
          obtain ⟨c₁, next, hturn, rfl⟩ := turn_of_resumeStage hr
          exact .turn (by simp [stage?, Tasks.stageOf, ht]) hturn

end Rfcomm.Connection
